import Mathlib.Algebra.Order.Ring.Rat
import Mathlib.Data.Rat.Defs
import Ccbt.Python.Bytes
import Ccbt.Python.Dict

/-!
# The rate limiter

`check_rate_limit` of the security `RateLimiter`, with the limiter that all peers share and the
algorithms for one peer. A call reads the clock several times; here it reads one time. Floats are
rational numbers.
-/

namespace Ccbt

open Python

namespace RateLimiting

abbrev Time := Rat

inductive RateLimitType
  | connection
  | message
  | bytes
  | requests
  | pieces
deriving DecidableEq

inductive RateLimitAlgorithm
  | token_bucket
  | sliding_window
  | leaky_bucket
  | adaptive
deriving DecidableEq

structure RateLimit where
  max_requests : Int
  time_window : Time
  algorithm : RateLimitAlgorithm := .token_bucket

/-- `rate_limits`: there is a limit for each type from the start. -/
abbrev RateLimits := RateLimitType → RateLimit

def defaultLimits : RateLimits
  | .connection => { max_requests := 10, time_window := 60 }
  | .message => { max_requests := 100, time_window := 60, algorithm := .sliding_window }
  | .bytes => { max_requests := 1024 * 1024, time_window := 60, algorithm := .adaptive }
  | .requests => { max_requests := 50, time_window := 60 }
  | .pieces => { max_requests := 10, time_window := 60, algorithm := .sliding_window }

structure RateLimitStats where
  requests_count : Nat := 0
  last_request : Time
  is_limited : Bool := false
  limit_hits : Nat := 0
  total_requests : Nat := 0

/-- The two keys of a record for one peer: `records[peer_id][limit_type]`. -/
abbrev Key := Str × RateLimitType

structure RateLimiter where
  global_stats : Dict RateLimitType RateLimitStats := .empty
  peer_stats : Dict Key RateLimitStats := .empty
  token_buckets : Dict Key Rat := .empty
  sliding_windows : Dict Key (List Time) := .empty
  adaptive_rates : Dict Key Rat := .empty

/-- A call of `check_rate_limit`. -/
structure Call where
  peer_id : Str
  limit_type : RateLimitType
  request_size : Nat := 1
  now : Time

def Call.key (call : Call) : Key := (call.peer_id, call.limit_type)

/-- `(is_allowed, wait_time)`, or `none` for a `ZeroDivisionError`. -/
abbrev Reply := Option (Bool × Time)

/-- `int(x)` -/
def truncated (x : Rat) : Int := x.num.tdiv x.den

namespace RateLimiter

variable (rate_limit : RateLimit) (s : RateLimiter) (call : Call)

section Global

/-- The global record of a type, made anew when there is none. -/
def globalStats : RateLimitStats :=
  (s.global_stats.get? call.limit_type).getD { last_request := call.now }

/-- The record after a look at the clock. -/
def resetStats (stats : RateLimitStats) : RateLimitStats :=
  if rate_limit.time_window < call.now - stats.last_request then
    { stats with requests_count := 0, is_limited := false }
  else stats

def checkGlobalRateLimit : RateLimiter × Bool × Time :=
  let stats := resetStats rate_limit call (s.globalStats call)
  if rate_limit.max_requests < stats.requests_count + call.request_size then
    let wait_time := rate_limit.time_window - (call.now - stats.last_request)
    let stats := { stats with limit_hits := stats.limit_hits + 1, is_limited := true }
    ({ s with global_stats := s.global_stats.set call.limit_type stats }, false, max 0 wait_time)
  else
    let stats := { stats with
      requests_count := stats.requests_count + call.request_size
      last_request := call.now
      total_requests := stats.total_requests + call.request_size }
    ({ s with global_stats := s.global_stats.set call.limit_type stats }, true, 0)

end Global

section Peers

/-- The tokens of a peer after the time since its last request. -/
def availableTokens (tokens : Rat) (last_request now : Time) : Rat :=
  min rate_limit.max_requests
    (tokens + (now - last_request) * (rate_limit.max_requests / rate_limit.time_window))

/-- `_check_token_bucket`, with the peer's record as it stands. -/
def checkTokenBucket (stats : RateLimitStats) : RateLimiter × Reply :=
  let tokens := (s.token_buckets.get? call.key).getD rate_limit.max_requests
  let s := { s with token_buckets := s.token_buckets.set call.key tokens }
  -- `max_requests / time_window`
  if rate_limit.time_window = 0 then (s, none)
  else
    let tokens := availableTokens rate_limit tokens stats.last_request call.now
    if call.request_size ≤ tokens then
      ({ s with token_buckets := s.token_buckets.set call.key (tokens - call.request_size) },
        some (true, 0))
    -- `time_window / max_requests`
    else if rate_limit.max_requests = 0 then (s, none)
    else (s, some (false,
      (call.request_size - tokens) * (rate_limit.time_window / rate_limit.max_requests)))

/-- The sliding window of a peer against a limit: `_check_sliding_window`, and the second half of
`_check_adaptive`. -/
def checkWindow (limit : Int) : RateLimiter × Reply :=
  let window := ((s.sliding_windows.get? call.key).getD []).dropWhile
    (· < call.now - rate_limit.time_window)
  if window.length + call.request_size ≤ limit then
    let window := window ++ List.replicate call.request_size call.now
    ({ s with sliding_windows := s.sliding_windows.set call.key window }, some (true, 0))
  else
    let wait_time := window.head?.elim 0 fun oldest_request =>
      rate_limit.time_window - (call.now - oldest_request)
    ({ s with sliding_windows := s.sliding_windows.set call.key window },
      some (false, max 0 wait_time))

def checkSlidingWindow : RateLimiter × Reply := checkWindow rate_limit s call rate_limit.max_requests

def checkAdaptive : RateLimiter × Reply :=
  let adaptive_rate := (s.adaptive_rates.get? call.key).getD rate_limit.max_requests
  checkWindow rate_limit { s with adaptive_rates := s.adaptive_rates.set call.key adaptive_rate } call
    (truncated adaptive_rate)

def checkPeerRateLimit : RateLimiter × Reply :=
  let stats := (s.peer_stats.get? call.key).getD { last_request := call.now }
  let s := { s with peer_stats := s.peer_stats.set call.key stats }
  match rate_limit.algorithm with
  | .token_bucket => checkTokenBucket rate_limit s call stats
  | .sliding_window => checkSlidingWindow rate_limit s call
  | .adaptive => checkAdaptive rate_limit s call
  -- there is nothing for this algorithm
  | .leaky_bucket => (s, some (true, 0))

/-- `_update_rate_limit_stats` for a call that is admitted. -/
def updateRateLimitStats : RateLimiter :=
  let stats := (s.peer_stats.get? call.key).getD { last_request := call.now }
  let stats := { stats with
    requests_count := stats.requests_count + call.request_size
    last_request := call.now
    total_requests := stats.total_requests + call.request_size }
  { s with peer_stats := s.peer_stats.set call.key stats }

end Peers

def checkRateLimit (rate_limits : RateLimits) : RateLimiter × Reply :=
  let rate_limit := rate_limits call.limit_type
  let (s, global_allowed, global_wait) := checkGlobalRateLimit rate_limit s call
  if !global_allowed then (s, some (false, global_wait))
  else
    let (s, reply) := checkPeerRateLimit rate_limit s call
    if reply.map Prod.fst = some true then (updateRateLimitStats s call, some (true, 0))
    else (s, reply)

/-- What a call is told, without the time to wait. -/
def decision (rate_limits : RateLimits) (s : RateLimiter) (call : Call) : Option Bool :=
  (checkRateLimit s call rate_limits).2.map Prod.fst

def step (rate_limits : RateLimits) (s : RateLimiter) (call : Call) : RateLimiter :=
  (checkRateLimit s call rate_limits).1

end RateLimiter

section Spec

open RateLimiter

variable {rate_limits : RateLimits} {rate_limit : RateLimit} {s s' : RateLimiter} {call : Call}
  {limit_type : RateLimitType} {key : Key} {now : Time}

/-- What a global record counts against a request at a time. -/
def RateLimitStats.counted (time_window : Time) (stats : RateLimitStats) (now : Time) : Nat :=
  if time_window < now - stats.last_request then 0 else stats.requests_count

def RateLimiter.counted (rate_limits : RateLimits) (s : RateLimiter) (limit_type : RateLimitType)
    (now : Time) : Nat :=
  (s.global_stats.get? limit_type).elim 0 fun stats =>
    stats.counted (rate_limits limit_type).time_window now

/-- The global limiter has room for a call. -/
def RateLimiter.HasRoom (rate_limits : RateLimits) (s : RateLimiter) (call : Call) : Prop :=
  (s.counted rate_limits call.limit_type call.now + call.request_size : Int) ≤
    (rate_limits call.limit_type).max_requests

instance : Decidable (s.HasRoom rate_limits call) := inferInstanceAs (Decidable (_ ≤ _))

section Global

theorem last_request_resetStats (stats : RateLimitStats) :
    (resetStats rate_limit call stats).last_request = stats.last_request := by
  rw [resetStats]
  split_ifs
  · rfl
  · rfl

theorem requests_count_resetStats (stats : RateLimitStats) :
    (resetStats rate_limit call stats).requests_count =
      stats.counted rate_limit.time_window call.now := by
  rw [resetStats, RateLimitStats.counted]
  split_ifs
  · rfl
  · rfl

theorem counted_globalStats (now : Time) :
    (s.globalStats call).counted (rate_limits call.limit_type).time_window now =
      s.counted rate_limits call.limit_type now := by
  rw [globalStats, RateLimiter.counted]
  cases s.global_stats.get? call.limit_type with
  | none =>
    rw [Option.getD_none, RateLimitStats.counted]
    split_ifs
    · rfl
    · rfl
  | some stats => rfl

theorem counted_resetStats (stats : RateLimitStats) (hnow : call.now ≤ now) :
    (resetStats rate_limit call stats).counted rate_limit.time_window now =
      stats.counted rate_limit.time_window now := by
  rw [RateLimitStats.counted, last_request_resetStats, requests_count_resetStats,
    RateLimitStats.counted, RateLimitStats.counted]
  split_ifs with hlate hreset
  · rfl
  -- A pause that was long enough before is longer now.
  · exact absurd (hreset.trans_le (sub_le_sub_right hnow _)) hlate
  · rfl

theorem hasRoom_iff : s.HasRoom rate_limits call ↔
    ¬(rate_limits call.limit_type).max_requests <
      ((resetStats (rate_limits call.limit_type) call (s.globalStats call)).requests_count +
        call.request_size : Int) := by
  rw [HasRoom, ← counted_globalStats call.now, ← requests_count_resetStats, Int.not_lt]

theorem checkGlobalRateLimit_allowed :
    (checkGlobalRateLimit (rate_limits call.limit_type) s call).2.1 = true ↔
      s.HasRoom rate_limits call := by
  rw [checkGlobalRateLimit, hasRoom_iff]
  split_ifs with hfull
  · exact iff_of_false id (not_not.mpr hfull)
  · exact iff_of_true rfl hfull

/-- A call that the global limiter refuses leaves what is counted from then on as it is. -/
theorem counted_of_not_hasRoom (h : ¬s.HasRoom rate_limits call) (hnow : call.now ≤ now) :
    (checkGlobalRateLimit (rate_limits call.limit_type) s call).1.counted rate_limits limit_type now =
      s.counted rate_limits limit_type now := by
  rw [hasRoom_iff, not_not] at h
  rw [checkGlobalRateLimit, if_pos h, RateLimiter.counted, Dict.get?_set]
  split_ifs with htype
  · rw [htype, ← counted_globalStats now, ← counted_resetStats _ hnow]
    rfl
  · rfl

/-- A call that the global limiter lets through is counted from then on. -/
theorem counted_of_hasRoom (h : s.HasRoom rate_limits call) (now : Time) :
    (checkGlobalRateLimit (rate_limits call.limit_type) s call).1.counted rate_limits limit_type now =
      if limit_type = call.limit_type then
        if (rate_limits limit_type).time_window < now - call.now then 0
        else s.counted rate_limits limit_type call.now + call.request_size
      else s.counted rate_limits limit_type now := by
  rw [hasRoom_iff] at h
  rw [checkGlobalRateLimit, if_neg h, RateLimiter.counted, Dict.get?_set]
  split_ifs with htype hlate
  · exact if_pos hlate
  · rw [htype] at hlate ⊢
    rw [← counted_globalStats call.now, ← requests_count_resetStats]
    exact if_neg hlate
  · rfl

end Global

section Peers

/-- What the limiter keeps for one peer and type. -/
structure PeerRecord where
  stats : Option RateLimitStats
  tokens : Option Rat
  window : Option (List Time)
  rate : Option Rat

def RateLimiter.record (s : RateLimiter) (key : Key) : PeerRecord where
  stats := s.peer_stats.get? key
  tokens := s.token_buckets.get? key
  window := s.sliding_windows.get? key
  rate := s.adaptive_rates.get? key

theorem record_eq_iff : s.record key = s'.record key ↔
    s.peer_stats.get? key = s'.peer_stats.get? key ∧
      s.token_buckets.get? key = s'.token_buckets.get? key ∧
      s.sliding_windows.get? key = s'.sliding_windows.get? key ∧
      s.adaptive_rates.get? key = s'.adaptive_rates.get? key := by
  rw [RateLimiter.record, RateLimiter.record, PeerRecord.mk.injEq]

@[simp] theorem record_checkGlobalRateLimit :
    (checkGlobalRateLimit rate_limit s call).1.record key = s.record key := by
  rw [checkGlobalRateLimit]
  split_ifs
  · rfl
  · rfl

/-- A check of one peer and type touches no other record. -/
theorem record_checkWindow_ne (hkey : key ≠ call.key) (limit : Int) :
    (checkWindow rate_limit s call limit).1.record key = s.record key := by
  rw [checkWindow, record_eq_iff]
  split_ifs
  · exact ⟨rfl, rfl, Dict.get?_set_ne _ hkey _, rfl⟩
  · exact ⟨rfl, rfl, Dict.get?_set_ne _ hkey _, rfl⟩

theorem record_checkTokenBucket_ne (hkey : key ≠ call.key) (stats : RateLimitStats) :
    (checkTokenBucket rate_limit s call stats).1.record key = s.record key := by
  rw [record_eq_iff]
  dsimp only [checkTokenBucket]
  split_ifs
  · exact ⟨rfl, Dict.get?_set_ne _ hkey _, rfl, rfl⟩
  · refine ⟨rfl, ?_, rfl, rfl⟩
    exact (Dict.get?_set_ne _ hkey _).trans (Dict.get?_set_ne _ hkey _)
  · exact ⟨rfl, Dict.get?_set_ne _ hkey _, rfl, rfl⟩
  · exact ⟨rfl, Dict.get?_set_ne _ hkey _, rfl, rfl⟩

theorem record_checkPeerRateLimit_ne (hkey : key ≠ call.key) :
    (checkPeerRateLimit rate_limit s call).1.record key = s.record key := by
  have hstats (stats : RateLimitStats) :
      ({ s with peer_stats := s.peer_stats.set call.key stats } : RateLimiter).record key =
        s.record key := record_eq_iff.mpr ⟨Dict.get?_set_ne _ hkey _, rfl, rfl, rfl⟩
  rw [checkPeerRateLimit]
  cases rate_limit.algorithm with
  | token_bucket => exact (record_checkTokenBucket_ne hkey _).trans (hstats _)
  | sliding_window => exact (record_checkWindow_ne hkey _).trans (hstats _)
  | leaky_bucket => exact hstats _
  | adaptive =>
    refine (record_checkWindow_ne hkey _).trans (record_eq_iff.mpr ?_)
    exact ⟨Dict.get?_set_ne _ hkey _, rfl, rfl, Dict.get?_set_ne _ hkey _⟩

/-- What a token bucket makes of a call: the window of the limit is empty, there are enough tokens,
or there are not. -/
theorem checkTokenBucket_cases (call : Call) (stats : RateLimitStats) {tokens : Rat}
    (htokens : (s.token_buckets.get? call.key).getD rate_limit.max_requests = tokens) :
    let available := availableTokens rate_limit tokens stats.last_request call.now
    let result := checkTokenBucket rate_limit s call stats
    rate_limit.time_window = 0 ∧ result.2 = none ∧
        result.1.record call.key = { s.record call.key with tokens := some tokens } ∨
      rate_limit.time_window ≠ 0 ∧ call.request_size ≤ available ∧ result.2 = some (true, 0) ∧
        result.1.record call.key =
          { s.record call.key with tokens := some (available - call.request_size) } ∨
      rate_limit.time_window ≠ 0 ∧ available < call.request_size ∧
        result.2.map Prod.fst ≠ some true ∧
        result.1.record call.key = { s.record call.key with tokens := some tokens } := by
  have hrecord (tokens : Rat) :
      ({ s with token_buckets := s.token_buckets.set call.key tokens } : RateLimiter).record
        call.key = { s.record call.key with tokens := some tokens } := by
    rw [RateLimiter.record, Dict.get?_set_self]
    rfl
  dsimp only [checkTokenBucket]
  rw [htokens]
  split_ifs with hzero hsize hempty
  · exact Or.inl ⟨hzero, rfl, hrecord tokens⟩
  · refine Or.inr (Or.inl ⟨hzero, hsize, rfl, ?_⟩)
    rw [RateLimiter.record, Dict.get?_set_self]
    rfl
  · exact Or.inr (Or.inr ⟨hzero, lt_of_not_ge hsize, by simp, hrecord tokens⟩)
  · exact Or.inr (Or.inr ⟨hzero, lt_of_not_ge hsize, by simp, hrecord tokens⟩)

/-- The check of a peer depends on its own record alone. -/
theorem checkWindow_congr (h : s.record call.key = s'.record call.key) (limit : Int) :
    (checkWindow rate_limit s call limit).2 = (checkWindow rate_limit s' call limit).2 ∧
      (checkWindow rate_limit s call limit).1.record call.key =
        (checkWindow rate_limit s' call limit).1.record call.key := by
  obtain ⟨hstats, htokens, hwindow, hrate⟩ := record_eq_iff.mp h
  rw [checkWindow, checkWindow, hwindow]
  split_ifs
  · exact ⟨rfl, record_eq_iff.mpr ⟨hstats, htokens, by simp, hrate⟩⟩
  · exact ⟨rfl, record_eq_iff.mpr ⟨hstats, htokens, by simp, hrate⟩⟩

theorem checkTokenBucket_congr (h : s.record call.key = s'.record call.key) (stats : RateLimitStats) :
    (checkTokenBucket rate_limit s call stats).2 = (checkTokenBucket rate_limit s' call stats).2 ∧
      (checkTokenBucket rate_limit s call stats).1.record call.key =
        (checkTokenBucket rate_limit s' call stats).1.record call.key := by
  obtain ⟨hstats, htokens, hwindow, hrate⟩ := record_eq_iff.mp h
  dsimp only [checkTokenBucket]
  rw [htokens]
  split_ifs
  · exact ⟨rfl, record_eq_iff.mpr ⟨hstats, by simp, hwindow, hrate⟩⟩
  · exact ⟨rfl, record_eq_iff.mpr ⟨hstats, by simp, hwindow, hrate⟩⟩
  · exact ⟨rfl, record_eq_iff.mpr ⟨hstats, by simp, hwindow, hrate⟩⟩
  · exact ⟨rfl, record_eq_iff.mpr ⟨hstats, by simp, hwindow, hrate⟩⟩

theorem checkPeerRateLimit_congr (h : s.record call.key = s'.record call.key) :
    (checkPeerRateLimit rate_limit s call).2 = (checkPeerRateLimit rate_limit s' call).2 ∧
      (checkPeerRateLimit rate_limit s call).1.record call.key =
        (checkPeerRateLimit rate_limit s' call).1.record call.key := by
  obtain ⟨hstats, htokens, hwindow, hrate⟩ := record_eq_iff.mp h
  have hinit (stats : RateLimitStats) :
      ({ s with peer_stats := s.peer_stats.set call.key stats } : RateLimiter).record call.key =
        ({ s' with peer_stats := s'.peer_stats.set call.key stats } : RateLimiter).record call.key :=
    record_eq_iff.mpr ⟨by simp, htokens, hwindow, hrate⟩
  rw [checkPeerRateLimit, checkPeerRateLimit, hstats]
  cases rate_limit.algorithm with
  | token_bucket => exact checkTokenBucket_congr (hinit _) _
  | sliding_window => exact checkWindow_congr (hinit _) _
  | leaky_bucket => exact ⟨rfl, hinit _⟩
  | adaptive =>
    dsimp only [checkAdaptive]
    rw [hrate]
    apply checkWindow_congr
    refine record_eq_iff.mpr ⟨?_, htokens, hwindow, ?_⟩
    · exact (Dict.get?_set_self _ _ _).trans (Dict.get?_set_self _ _ _).symm
    · exact (Dict.get?_set_self _ _ _).trans (Dict.get?_set_self _ _ _).symm

theorem global_stats_checkPeerRateLimit :
    (checkPeerRateLimit rate_limit s call).1.global_stats = s.global_stats := by
  rw [checkPeerRateLimit]
  cases rate_limit.algorithm with
  | token_bucket =>
    dsimp only [checkTokenBucket]
    split_ifs
    · rfl
    · rfl
    · rfl
    · rfl
  | leaky_bucket => rfl
  | sliding_window =>
    dsimp only [checkSlidingWindow, checkWindow]
    split_ifs
    · rfl
    · rfl
  | adaptive =>
    dsimp only [checkAdaptive, checkWindow]
    split_ifs
    · rfl
    · rfl

end Peers

section Calls

theorem checkRateLimit_of_not_hasRoom (h : ¬s.HasRoom rate_limits call) :
    step rate_limits s call = (checkGlobalRateLimit (rate_limits call.limit_type) s call).1 ∧
      decision rate_limits s call = some false := by
  have hrefused : (checkGlobalRateLimit (rate_limits call.limit_type) s call).2.1 = false :=
    Bool.eq_false_of_not_eq_true fun hallowed => h (checkGlobalRateLimit_allowed.mp hallowed)
  rw [step, decision, checkRateLimit]
  dsimp only
  rw [hrefused]
  exact ⟨rfl, rfl⟩

/-- What the check of the peer does to a call that the global limiter lets through. -/
def RateLimiter.afterGlobal (rate_limits : RateLimits) (s : RateLimiter) (call : Call) :
    RateLimiter × Reply :=
  checkPeerRateLimit (rate_limits call.limit_type)
    (checkGlobalRateLimit (rate_limits call.limit_type) s call).1 call

theorem decision_of_hasRoom (h : s.HasRoom rate_limits call) :
    decision rate_limits s call = (afterGlobal rate_limits s call).2.map Prod.fst := by
  have hallowed := checkGlobalRateLimit_allowed.mpr h
  rw [decision, checkRateLimit]
  dsimp only [afterGlobal]
  rw [hallowed, if_neg (by decide)]
  split_ifs with hpeer
  · exact hpeer.symm
  · rfl

theorem step_of_hasRoom (h : s.HasRoom rate_limits call) : step rate_limits s call =
    if decision rate_limits s call = some true then
      updateRateLimitStats (afterGlobal rate_limits s call).1 call
    else (afterGlobal rate_limits s call).1 := by
  have hallowed := checkGlobalRateLimit_allowed.mpr h
  rw [decision_of_hasRoom h, step, checkRateLimit]
  dsimp only [afterGlobal]
  rw [hallowed, if_neg (by decide)]
  split_ifs with hpeer
  · exact (if_pos hpeer).symm
  · exact (if_neg hpeer).symm

/-- What is counted behind a call does not depend on what its peer's own limit makes of it. -/
theorem counted_step_of_hasRoom (h : s.HasRoom rate_limits call) (now : Time) :
    (step rate_limits s call).counted rate_limits limit_type now =
      if limit_type = call.limit_type then
        if (rate_limits limit_type).time_window < now - call.now then 0
        else s.counted rate_limits limit_type call.now + call.request_size
      else s.counted rate_limits limit_type now := by
  rw [← counted_of_hasRoom h, RateLimiter.counted, RateLimiter.counted]
  have hsame : (afterGlobal rate_limits s call).1.global_stats =
      (checkGlobalRateLimit (rate_limits call.limit_type) s call).1.global_stats :=
    global_stats_checkPeerRateLimit
  rw [← hsame, step_of_hasRoom h]
  split_ifs
  · rfl
  · rfl

theorem counted_step_of_not_hasRoom (h : ¬s.HasRoom rate_limits call) (hnow : call.now ≤ now) :
    (step rate_limits s call).counted rate_limits limit_type now =
      s.counted rate_limits limit_type now := by
  rw [(checkRateLimit_of_not_hasRoom h).1]
  exact counted_of_not_hasRoom h hnow

/-- A call touches no record but that of its own peer and type. -/
theorem record_step_ne (hkey : key ≠ call.key) : (step rate_limits s call).record key = s.record key := by
  by_cases h : s.HasRoom rate_limits call
  · have hafter : (afterGlobal rate_limits s call).1.record key = s.record key :=
      (record_checkPeerRateLimit_ne hkey).trans record_checkGlobalRateLimit
    rw [step_of_hasRoom h]
    split_ifs
    · refine Eq.trans (record_eq_iff.mpr ?_) hafter
      exact ⟨Dict.get?_set_ne _ hkey _, rfl, rfl, rfl⟩
    · exact hafter
  · rw [(checkRateLimit_of_not_hasRoom h).1, record_checkGlobalRateLimit]

theorem afterGlobal_congr (rate_limits : RateLimits) (h : s.record call.key = s'.record call.key) :
    (afterGlobal rate_limits s call).2 = (afterGlobal rate_limits s' call).2 ∧
      (afterGlobal rate_limits s call).1.record call.key =
        (afterGlobal rate_limits s' call).1.record call.key :=
  checkPeerRateLimit_congr (by rw [record_checkGlobalRateLimit, record_checkGlobalRateLimit, h])

/-- A call is decided by the room that the global limiter has and by the record of its peer. -/
theorem decision_congr (hroom : s.HasRoom rate_limits call ↔ s'.HasRoom rate_limits call)
    (h : s.record call.key = s'.record call.key) :
    decision rate_limits s call = decision rate_limits s' call ∧
      (step rate_limits s call).record call.key = (step rate_limits s' call).record call.key := by
  by_cases hs : s.HasRoom rate_limits call
  · have hs' := hroom.mp hs
    obtain ⟨hreply, hrecord⟩ := afterGlobal_congr rate_limits h
    have hdecision : decision rate_limits s call = decision rate_limits s' call := by
      rw [decision_of_hasRoom hs, decision_of_hasRoom hs', hreply]
    refine ⟨hdecision, ?_⟩
    rw [step_of_hasRoom hs, step_of_hasRoom hs', ← hdecision]
    split_ifs
    · obtain ⟨hstats, htokens, hwindow, hrate⟩ := record_eq_iff.mp hrecord
      refine record_eq_iff.mpr ⟨?_, htokens, hwindow, hrate⟩
      rw [updateRateLimitStats, updateRateLimitStats, hstats, Dict.get?_set_self, Dict.get?_set_self]
    · exact hrecord
  · have hs' := fun h => hs (hroom.mpr h)
    obtain ⟨hstep, hdecision⟩ := checkRateLimit_of_not_hasRoom hs
    obtain ⟨hstep', hdecision'⟩ := checkRateLimit_of_not_hasRoom hs'
    rw [hstep, hstep', hdecision, hdecision', record_checkGlobalRateLimit,
      record_checkGlobalRateLimit]
    exact ⟨rfl, h⟩

end Calls

end Spec

end RateLimiting

end Ccbt

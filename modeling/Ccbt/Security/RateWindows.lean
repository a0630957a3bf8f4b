import Mathlib.Logic.Function.Basic
import Ccbt.Metering.Ledger
import Ccbt.Security.RefusedCalls

/-!
# Windows of the rate limits

What the limiter lets through in a window of a limit stays within the limit, and so does what a
token bucket gives to one peer. The global counter starts again only after a pause as long as the
window, not when its requests are that old: it refuses requests that the window has room for.
-/

namespace Ccbt.RateLimiting

open Python Transition RateLimiter Metering Metering.Ledger

variable {rate_limits : RateLimits} {rate_limit : RateLimit} {call : Call} {now clock : Time}

section Meters

/-- The limiter, with ledgers of what it lets through for a type and of what each peer gets. -/
structure MeteredLimiter where
  limiter : RateLimiter := {}
  let_through : RateLimitType → Ledger Time := fun _ => []
  to_peer : Key → Ledger Time := fun _ => []

def GloballyAdmitted (rate_limits : RateLimits) (s : RateLimiter) (call : Call) : Prop :=
  (checkGlobalRateLimit (rate_limits call.limit_type) s call).2.1 = true

instance (s : RateLimiter) : Decidable (GloballyAdmitted rate_limits s call) :=
  inferInstanceAs (Decidable (_ = _))

def Call.entry (call : Call) : Entry Time := ⟨call.now, call.request_size⟩

def MeteredLimiter.step (rate_limits : RateLimits) (m : MeteredLimiter) (call : Call) :
    MeteredLimiter where
  limiter := RateLimiter.step rate_limits m.limiter call
  let_through :=
    if GloballyAdmitted rate_limits m.limiter call then
      Function.update m.let_through call.limit_type (call.entry :: m.let_through call.limit_type)
    else m.let_through
  to_peer :=
    if decision rate_limits m.limiter call = some true then
      Function.update m.to_peer call.key (call.entry :: m.to_peer call.key)
    else m.to_peer

variable (rate_limits) (m : MeteredLimiter)

/-- No window of a limit has more than the limit. -/
def WindowsBounded : Prop := ∀ limit_type start,
  (between start (start + (rate_limits limit_type).time_window) (m.let_through limit_type) : Int) ≤
    (rate_limits limit_type).max_requests

def precedingWindow (call : Call) : Nat :=
  between (call.now - (rate_limits call.limit_type).time_window) call.now
    (m.let_through call.limit_type)

/-- A call is refused globally only if it exceeds the limit along with the preceding window. -/
def RefusalSound (call : Call) : Prop :=
  ¬GloballyAdmitted rate_limits m.limiter call → (rate_limits call.limit_type).max_requests <
    (precedingWindow rate_limits m call + call.request_size : Int)

/-- No peer gets more from its token bucket than the size of the bucket and what flows in. -/
def BucketsBounded : Prop := ∀ key : Key, (rate_limits key.2).algorithm = .token_bucket →
  ∀ start elapsed, 0 ≤ elapsed → (between start (start + elapsed) (m.to_peer key) : Rat) ≤
    (rate_limits key.2).max_requests * (1 + elapsed / (rate_limits key.2).time_window)

/-- The rate limits are exact windows in a run of calls. -/
structure ExactWindows (calls : List Call) : Prop where
  windows : WindowsBounded rate_limits (run (MeteredLimiter.step rate_limits) {} calls)
  refusals : StepsMeet (MeteredLimiter.step rate_limits) (RefusalSound rate_limits) {} calls
  buckets : BucketsBounded rate_limits (run (MeteredLimiter.step rate_limits) {} calls)

/-- The limits are not negative, nor are the windows of token buckets. -/
structure Proper : Prop where
  max_nonneg : ∀ limit_type, 0 ≤ (rate_limits limit_type).max_requests
  refill : ∀ limit_type, (rate_limits limit_type).algorithm = .token_bucket →
    0 ≤ (rate_limits limit_type).time_window ∨ (rate_limits limit_type).max_requests = 0

/-- The window that ends with a call has room for it, but not with what else was let through since
the last pause that was longer than the window. -/
def CountsOldRequests (call : Call) : Prop :=
  let rate_limit := rate_limits call.limit_type
  (precedingWindow rate_limits m call + call.request_size : Int) ≤ rate_limit.max_requests ∧
    rate_limit.max_requests <
      (burst rate_limit.time_window (m.let_through call.limit_type) call.now + call.request_size : Int)

instance : Decidable (RefusalSound rate_limits m call) := inferInstanceAs (Decidable (_ → _))

instance : Decidable (CountsOldRequests rate_limits m call) := inferInstanceAs (Decidable (_ ∧ _))

end Meters

section Buckets

/-- The record of a peer is that of a bucket behind its ledger. -/
structure BucketOk (rate_limit : RateLimit) (r : PeerRecord) (clock : Time) (L : Ledger Time) :
    Prop where
  bucket : ∀ stats ∈ r.stats, stats.last_request ≤ clock ∧
    Bucket (rate_limit.max_requests : Rat) (rate_limit.max_requests / rate_limit.time_window)
      (r.tokens.getD rate_limit.max_requests) stats.last_request L
  fresh : r.stats = none → r.tokens = none ∧ L = []

variable {r : PeerRecord} {s : RateLimiter} {L : Ledger Time}

theorem BucketOk.later (h : BucketOk rate_limit r clock L) (hclock : clock ≤ now) :
    BucketOk rate_limit r now L where
  bucket stats hstats := ⟨(h.bucket stats hstats).1.trans hclock, (h.bucket stats hstats).2⟩
  fresh := h.fresh

theorem BucketOk.metered (h : BucketOk rate_limit r clock L) :
    Until clock L ∧ Metered (rate_limit.max_requests : Rat)
      (rate_limit.max_requests / rate_limit.time_window) L := by
  cases hstats : r.stats with
  | none =>
    rw [(h.fresh hstats).2]
    exact ⟨trivial, trivial⟩
  | some stats =>
    obtain ⟨hle, hbucket⟩ := h.bucket stats hstats
    exact ⟨hbucket.until_last.mono hle, hbucket.metered⟩

theorem bucketOk_of_stats {stats : RateLimitStats} (hstats : r.stats = some stats)
    (hle : stats.last_request ≤ clock)
    (hbucket : Bucket (rate_limit.max_requests : Rat)
      (rate_limit.max_requests / rate_limit.time_window) (r.tokens.getD rate_limit.max_requests)
        stats.last_request L) : BucketOk rate_limit r clock L where
  bucket stats' hstats' := by
    rw [← Option.some.inj (hstats.symm.trans hstats')]
    exact ⟨hle, hbucket⟩
  fresh hnone := absurd (hstats.symm.trans hnone) nofun

variable (hrate : 0 ≤ (rate_limit.max_requests : Rat) / rate_limit.time_window)
include hrate

theorem BucketOk.touched (h : BucketOk rate_limit r clock L) (hclock : clock ≤ now) :
    BucketOk rate_limit { r with stats := some (r.stats.getD { last_request := now }) } now L := by
  cases hstats : r.stats with
  | none =>
    obtain ⟨htokens, rfl⟩ := h.fresh hstats
    refine bucketOk_of_stats rfl le_rfl ?_
    rw [htokens]
    exact bucket_full hrate _ now
  | some stats =>
    obtain ⟨hle, hbucket⟩ := h.bucket stats hstats
    exact bucketOk_of_stats rfl (hle.trans hclock) hbucket

/-- A call behind the check of its peer: the ledger has it if it is admitted. -/
def Booked (rate_limit : RateLimit) (call : Call) (L : Ledger Time)
    (result : RateLimiter × Reply) : Prop :=
  if result.2.map Prod.fst = some true then
    BucketOk rate_limit ((updateRateLimitStats result.1 call).record call.key) call.now
      (call.entry :: L)
  else BucketOk rate_limit (result.1.record call.key) call.now L

theorem booked_checkTokenBucket {stats : RateLimitStats}
    (h : BucketOk rate_limit (s.record call.key) call.now L)
    (hstats : s.peer_stats.get? call.key = some stats) :
    Booked rate_limit call L (checkTokenBucket rate_limit s call stats) := by
  obtain ⟨hle, hbucket⟩ := h.bucket stats hstats
  rw [Booked]
  obtain ⟨-, hreply, hrecord⟩ | ⟨-, hsize, hreply, hrecord⟩ | ⟨-, -, hreply, hrecord⟩ :=
    checkTokenBucket_cases call stats rfl
  · rw [hreply, if_neg (by decide), hrecord]
    exact bucketOk_of_stats hstats hle hbucket
  · rw [hreply, if_pos (by decide)]
    obtain ⟨updated, hupdated, hrecord'⟩ := record_updateRateLimitStats
    rw [hrecord', hrecord]
    refine bucketOk_of_stats rfl hupdated.le ?_
    rw [hupdated]
    exact hbucket.cons hrate hle hsize
  · rw [if_neg hreply, hrecord]
    exact bucketOk_of_stats hstats hle hbucket

theorem booked_checkPeerRateLimit (h : BucketOk rate_limit (s.record call.key) clock L)
    (hclock : clock ≤ call.now) (halgorithm : rate_limit.algorithm = .token_bucket) :
    Booked rate_limit call L (checkPeerRateLimit rate_limit s call) := by
  have htouched := h.touched hrate hclock
  rw [← record_setStats] at htouched
  rw [checkPeerRateLimit, halgorithm]
  exact booked_checkTokenBucket hrate htouched (Dict.get?_set_self _ _ _)

end Buckets

section Runs

variable {m : MeteredLimiter}

theorem globallyAdmitted_iff {s : RateLimiter} :
    GloballyAdmitted rate_limits s call ↔ s.HasRoom rate_limits call := checkGlobalRateLimit_allowed

/-- The counters are bursts of the ledgers, and the records of peers are buckets behind theirs. -/
structure MeteredOk (rate_limits : RateLimits) (clock : Time) (m : MeteredLimiter) : Prop where
  until_clock : ∀ limit_type, Until clock (m.let_through limit_type)
  counted : ∀ limit_type now, clock ≤ now → m.limiter.counted rate_limits limit_type now =
    burst (rate_limits limit_type).time_window (m.let_through limit_type) now
  capped : ∀ limit_type, Capped (rate_limits limit_type).max_requests
    (rate_limits limit_type).time_window (m.let_through limit_type)
  bucket : ∀ key : Key, (rate_limits key.2).algorithm = .token_bucket →
    0 ≤ ((rate_limits key.2).max_requests : Rat) / (rate_limits key.2).time_window →
      BucketOk (rate_limits key.2) (m.limiter.record key) clock (m.to_peer key)

theorem meteredOk_empty (rate_limits : RateLimits) (clock : Time) :
    MeteredOk rate_limits clock {} where
  until_clock _ := trivial
  counted _ _ _ := rfl
  capped _ := trivial
  bucket _ _ _ := ⟨nofun, fun _ => ⟨rfl, rfl⟩⟩

theorem MeteredOk.hasRoom_iff (h : MeteredOk rate_limits clock m) (hclock : clock ≤ call.now) :
    m.limiter.HasRoom rate_limits call ↔
      (burst (rate_limits call.limit_type).time_window (m.let_through call.limit_type) call.now +
        call.request_size : Int) ≤ (rate_limits call.limit_type).max_requests := by
  rw [HasRoom, h.counted call.limit_type call.now hclock]

/-- A refusal is sound unless the burst has more than the preceding window. -/
theorem MeteredOk.refusalSound_iff (h : MeteredOk rate_limits clock m) (hclock : clock ≤ call.now) :
    RefusalSound rate_limits m call ↔ ¬CountsOldRequests rate_limits m call := by
  rw [RefusalSound, globallyAdmitted_iff, h.hasRoom_iff hclock, CountsOldRequests, not_le]
  constructor
  · rintro hsound ⟨hroom, hburst⟩
    exact (hsound hburst).not_ge hroom
  · intro hnot hburst
    by_contra hroom
    exact hnot ⟨le_of_not_gt hroom, hburst⟩

theorem entered_apply {κ : Type} [DecidableEq κ] (p : Prop) [Decidable p] (f : κ → Ledger Time)
    (k j : κ) (e : Entry Time) :
    (if p then Function.update f k (e :: f k) else f) j = if j = k ∧ p then e :: f j else f j := by
  by_cases hp : p
  · by_cases hj : j = k
    · rw [if_pos hp, if_pos ⟨hj, hp⟩, hj, Function.update_self]
    · rw [if_pos hp, if_neg fun h => hj h.1, Function.update_of_ne hj]
  · rw [if_neg hp, if_neg fun h => hp h.2]

theorem let_through_step (limit_type : RateLimitType) :
    (m.step rate_limits call).let_through limit_type =
      if limit_type = call.limit_type ∧ GloballyAdmitted rate_limits m.limiter call then
        call.entry :: m.let_through limit_type
      else m.let_through limit_type := entered_apply _ _ _ _ _

theorem to_peer_step (key : Key) : (m.step rate_limits call).to_peer key =
    if key = call.key ∧ decision rate_limits m.limiter call = some true then
      call.entry :: m.to_peer key
    else m.to_peer key := entered_apply _ _ _ _ _

theorem MeteredOk.bucket_step (h : MeteredOk rate_limits clock m) (hclock : clock ≤ call.now)
    {key : Key} (halgorithm : (rate_limits key.2).algorithm = .token_bucket)
    (hrate : 0 ≤ ((rate_limits key.2).max_requests : Rat) / (rate_limits key.2).time_window) :
    BucketOk (rate_limits key.2) ((m.step rate_limits call).limiter.record key) call.now
      ((m.step rate_limits call).to_peer key) := by
  have hbucket := h.bucket key halgorithm hrate
  rw [to_peer_step]
  by_cases hkey : key = call.key
  · subst hkey
    by_cases hroom : m.limiter.HasRoom rate_limits call
    · have hglobal : BucketOk (rate_limits call.limit_type)
          ((checkGlobalRateLimit (rate_limits call.limit_type) m.limiter call).1.record call.key)
            clock (m.to_peer call.key) := by
        rw [record_checkGlobalRateLimit]
        exact hbucket
      have hbooked : Booked (rate_limits call.limit_type) call (m.to_peer call.key)
          (afterGlobal rate_limits m.limiter call) :=
        booked_checkPeerRateLimit hrate hglobal hclock halgorithm
      rw [Booked, ← decision_of_hasRoom hroom] at hbooked
      dsimp only [MeteredLimiter.step]
      rw [step_of_hasRoom hroom]
      by_cases hadmitted : decision rate_limits m.limiter call = some true
      · rw [if_pos hadmitted] at hbooked ⊢
        rw [if_pos ⟨rfl, hadmitted⟩]
        exact hbooked
      · rw [if_neg hadmitted] at hbooked ⊢
        rw [if_neg fun h => hadmitted h.2]
        exact hbooked
    · obtain ⟨hstep, hrefused⟩ := checkRateLimit_of_not_hasRoom hroom
      dsimp only [MeteredLimiter.step]
      rw [hstep, hrefused, record_checkGlobalRateLimit, if_neg (by simp)]
      exact hbucket.later hclock
  · rw [if_neg fun h => hkey h.1]
    dsimp only [MeteredLimiter.step]
    rw [record_step_ne hkey]
    exact hbucket.later hclock

theorem MeteredOk.step (h : MeteredOk rate_limits clock m) (hclock : clock ≤ call.now) :
    MeteredOk rate_limits call.now (m.step rate_limits call) where
  until_clock limit_type := by
    rw [let_through_step]
    have hbefore := (h.until_clock limit_type).mono hclock
    split_ifs
    · exact ⟨le_rfl, hbefore⟩
    · exact hbefore
  counted limit_type now hnow := by
    have hbefore := h.counted limit_type
    rw [let_through_step]
    dsimp only [MeteredLimiter.step]
    by_cases hroom : m.limiter.HasRoom rate_limits call
    · rw [counted_step_of_hasRoom hroom, hbefore now (hclock.trans hnow), hbefore call.now hclock]
      by_cases htype : limit_type = call.limit_type
      · have hadmitted := globallyAdmitted_iff.mpr hroom
        rw [if_pos htype, if_pos (And.intro htype hadmitted), Nat.add_comm]
        rfl
      · rw [if_neg htype, if_neg fun h => htype h.1]
    · rw [counted_step_of_not_hasRoom hroom hnow, hbefore now (hclock.trans hnow),
        if_neg fun h => hroom (globallyAdmitted_iff.mp h.2)]
  capped limit_type := by
    have hbefore := h.capped limit_type
    rw [let_through_step]
    split_ifs with hin
    · obtain ⟨rfl, hroom⟩ := hin
      rw [globallyAdmitted_iff, h.hasRoom_iff hclock, add_comm] at hroom
      exact ⟨hroom, hbefore⟩
    · exact hbefore
  bucket key halgorithm hrate := h.bucket_step hclock halgorithm hrate

/-- Behind a run of calls in order the ledgers are still in step with the limiter, and the refusals
are sound just when no call found old requests counted. -/
theorem MeteredOk.run (h : MeteredOk rate_limits clock m) {calls : List Call}
    (hfrom : ∀ call ∈ calls, clock ≤ call.now) (horder : InOrder calls) :
    (∃ clock, MeteredOk rate_limits clock (run (MeteredLimiter.step rate_limits) m calls)) ∧
      (StepsMeet (MeteredLimiter.step rate_limits) (RefusalSound rate_limits) m calls ↔
        StepsMeet (MeteredLimiter.step rate_limits)
          (fun m call => ¬CountsOldRequests rate_limits m call) m calls) := by
  induction calls generalizing m clock with
  | nil => exact ⟨⟨clock, h⟩, Iff.rfl⟩
  | cons call calls ih =>
    have hclock := hfrom call List.mem_cons_self
    obtain ⟨hcall, hrest⟩ := List.pairwise_cons.mp horder
    obtain ⟨hok, hiff⟩ := ih (h.step hclock) hcall hrest
    exact ⟨hok, and_congr (h.refusalSound_iff hclock) hiff⟩

theorem meteredOk_run (rate_limits : RateLimits) {calls : List Call} (horder : InOrder calls) :
    (∃ clock, MeteredOk rate_limits clock (Transition.run (MeteredLimiter.step rate_limits) {} calls)) ∧
      (StepsMeet (MeteredLimiter.step rate_limits) (RefusalSound rate_limits) {} calls ↔
        StepsMeet (MeteredLimiter.step rate_limits)
          (fun m call => ¬CountsOldRequests rate_limits m call) {} calls) := by
  cases calls with
  | nil => exact (meteredOk_empty rate_limits 0).run (List.forall_mem_nil _) horder
  | cons call calls =>
    refine (meteredOk_empty rate_limits call.now).run (fun c hc => ?_) horder
    obtain rfl | hc := List.mem_cons.mp hc
    · exact le_rfl
    · exact (List.pairwise_cons.mp horder).1 c hc

theorem MeteredOk.windowsBounded (h : MeteredOk rate_limits clock m)
    (hmax : ∀ limit_type, 0 ≤ (rate_limits limit_type).max_requests) :
    WindowsBounded rate_limits m := by
  intro limit_type start
  apply between_le_of_capped (h.capped limit_type) (h.until_clock limit_type) (hmax limit_type)
  rw [add_sub_cancel_left]

theorem Proper.rate_nonneg (h : Proper rate_limits) {limit_type : RateLimitType}
    (halgorithm : (rate_limits limit_type).algorithm = .token_bucket) :
    0 ≤ ((rate_limits limit_type).max_requests : Rat) / (rate_limits limit_type).time_window := by
  obtain hwindow | hzero := h.refill limit_type halgorithm
  · exact div_nonneg (Int.cast_nonneg (h.max_nonneg limit_type)) hwindow
  · rw [hzero, Int.cast_zero, zero_div]

theorem MeteredOk.bucketsBounded (h : MeteredOk rate_limits clock m) (hproper : Proper rate_limits) :
    BucketsBounded rate_limits m := by
  intro key halgorithm start elapsed helapsed
  have hrate := hproper.rate_nonneg halgorithm
  obtain ⟨huntil, hmetered⟩ := (h.bucket key halgorithm hrate).metered
  calc (between start (start + elapsed) (m.to_peer key) : Rat)
    _ ≤ (rate_limits key.2).max_requests + (start + elapsed - start) *
        ((rate_limits key.2).max_requests / (rate_limits key.2).time_window) :=
      between_le_of_metered hmetered huntil (Int.cast_nonneg (hproper.max_nonneg key.2)) hrate
        (le_add_of_nonneg_right helapsed)
    _ = (rate_limits key.2).max_requests * (1 + elapsed / (rate_limits key.2).time_window) := by
      rw [add_sub_cancel_left]
      ring

/-- Exact windows need limits for which the bounds are no less than nothing. -/
theorem ExactWindows.proper {calls : List Call} (h : ExactWindows rate_limits calls) :
    Proper rate_limits := by
  have hmax (limit_type) : 0 ≤ (rate_limits limit_type).max_requests :=
    le_trans (Int.natCast_nonneg _) (h.windows limit_type 0)
  refine ⟨hmax, fun limit_type halgorithm => ?_⟩
  by_contra hnot
  obtain ⟨hwindow, hzero⟩ := not_or.mp hnot
  have hneg := lt_of_not_ge hwindow
  have hpos : (0 : Rat) < (rate_limits limit_type).max_requests :=
    Int.cast_pos.mpr (lt_of_le_of_ne (hmax limit_type) (Ne.symm hzero))
  have hbound := (Nat.cast_nonneg _).trans (h.buckets ([], limit_type) halgorithm 0
    (-2 * (rate_limits limit_type).time_window) (by linarith))
  rw [mul_div_assoc, div_self hneg.ne] at hbound
  linarith

end Runs

/-- The rate limits are exact windows in a run of calls in order if and only if they are proper and
no call of the run finds old requests counted against it. -/
theorem exactWindows_iff (rate_limits : RateLimits) (calls : List Call) (horder : InOrder calls) :
    ExactWindows rate_limits calls ↔ Proper rate_limits ∧
      StepsMeet (MeteredLimiter.step rate_limits)
        (fun m call => ¬CountsOldRequests rate_limits m call) {} calls := by
  obtain ⟨⟨clock, hok⟩, hrefusals⟩ := meteredOk_run rate_limits horder
  constructor
  · intro h
    exact ⟨h.proper, hrefusals.mp h.refusals⟩
  · rintro ⟨hproper, hcalls⟩
    exact ⟨hok.windowsBounded hproper.max_nonneg, hrefusals.mpr hcalls, hok.bucketsBounded hproper⟩

theorem proper_defaultLimits : Proper defaultLimits where
  max_nonneg limit_type := by
    cases limit_type with
    | connection | message | bytes | requests | pieces => decide
  refill limit_type _ := by
    cases limit_type with
    | connection | message | bytes | requests | pieces => exact Or.inl (by decide +kernel)

/-- Requests for pieces by one peer, each with its size and time. -/
def pieceCalls (requests : List (Nat × Time)) : List Call :=
  requests.map fun request =>
    { peer_id := ['p'], limit_type := .pieces, request_size := request.1, now := request.2 }

/-- A pause longer than the window comes before the request that does not fit. -/
theorem exactWindows_after_pause : ExactWindows defaultLimits (pieceCalls [(9, 0), (1, 50), (1, 111)]) :=
  (exactWindows_iff defaultLimits (pieceCalls [(9, 0), (1, 50), (1, 111)]) (by decide +kernel)).mpr
    ⟨proper_defaultLimits, by decide +kernel⟩

/-- One piece was asked for in the last minute, and a second is refused, nine being older. -/
theorem not_exactWindows_steady : InOrder (pieceCalls [(9, 0), (1, 50), (1, 100)]) ∧
    ¬ExactWindows defaultLimits (pieceCalls [(9, 0), (1, 50), (1, 100)]) := by
  refine ⟨by decide +kernel, fun h => ?_⟩
  have hsound := h.refusals
  revert hsound
  decide +kernel

end Ccbt.RateLimiting

import Mathlib.Data.List.TakeWhile
import Mathlib.Tactic.FieldSimp
import Mathlib.Tactic.Linarith
import Ccbt.Security.RateLimiter
import Ccbt.Transition.Run

/-!
# Refused calls

A call that is refused does not matter to the other peers. All peers have the same limit as each of
them, so while calls come in order the shared limiter refuses whatever the limit of a peer would
refuse, and it charges a call only when it lets it through.
-/

namespace Ccbt.RateLimiting

open Python Transition RateLimiter

variable {rate_limits : RateLimits} {rate_limit : RateLimit} {s s' : RateLimiter} {call : Call}
  {key : Key} {now clock : Time}

section Agreement

/-- Two limiters that count the same from a time on and have the same records but for one. -/
structure AgreeBut (rate_limits : RateLimits) (key : Key) (clock : Time) (s s' : RateLimiter) :
    Prop where
  counted : ∀ limit_type now, clock ≤ now →
    s.counted rate_limits limit_type now = s'.counted rate_limits limit_type now
  record : ∀ k, k ≠ key → s.record k = s'.record k

theorem AgreeBut.hasRoom_iff (h : AgreeBut rate_limits key clock s s') (hnow : clock ≤ call.now) :
    s.HasRoom rate_limits call ↔ s'.HasRoom rate_limits call := by
  rw [HasRoom, HasRoom, h.counted call.limit_type call.now hnow]

theorem AgreeBut.decision_eq (h : AgreeBut rate_limits key clock s s') (hnow : clock ≤ call.now)
    (hkey : call.key ≠ key) : decision rate_limits s call = decision rate_limits s' call :=
  (decision_congr (h.hasRoom_iff hnow) (h.record call.key hkey)).1

/-- The limiters still agree behind a call, whosever it is. -/
theorem AgreeBut.step (h : AgreeBut rate_limits key clock s s') (hnow : clock ≤ call.now) :
    AgreeBut rate_limits key call.now (step rate_limits s call) (step rate_limits s' call) where
  counted limit_type now hcall := by
    have hroom : s.HasRoom rate_limits call ↔ s'.HasRoom rate_limits call := h.hasRoom_iff hnow
    by_cases hs : s.HasRoom rate_limits call
    · rw [counted_step_of_hasRoom hs, counted_step_of_hasRoom (hroom.mp hs),
        h.counted limit_type call.now hnow, h.counted limit_type now (hnow.trans hcall)]
    · have hs' := fun h' => hs (hroom.mpr h')
      rw [counted_step_of_not_hasRoom hs hcall, counted_step_of_not_hasRoom hs' hcall,
        h.counted limit_type now (hnow.trans hcall)]
  record k hk := by
    by_cases hcall : k = call.key
    · rw [hcall] at hk ⊢
      exact (decision_congr (h.hasRoom_iff hnow) (h.record call.key hk)).2
    · rw [record_step_ne hcall, record_step_ne hcall, h.record k hk]

/-- The times of the calls do not go back. -/
def InOrder (calls : List Call) : Prop := calls.Pairwise fun a b => a.now ≤ b.now

instance (calls : List Call) : Decidable (InOrder calls) :=
  inferInstanceAs (Decidable (calls.Pairwise _))

/-- Later calls on other records are decided alike. -/
theorem AgreeBut.decision_run (h : AgreeBut rate_limits key clock s s') {after : List Call}
    {later : Call} (hfrom : ∀ c ∈ after ++ [later], clock ≤ c.now)
    (horder : InOrder (after ++ [later])) (hkey : later.key ≠ key) :
    decision rate_limits (run (RateLimiter.step rate_limits) s after) later =
      decision rate_limits (run (RateLimiter.step rate_limits) s' after) later := by
  induction after generalizing s s' clock with
  | nil => exact h.decision_eq (hfrom later List.mem_cons_self) hkey
  | cons call after ih =>
    obtain ⟨hcall, hrest⟩ := List.pairwise_cons.mp horder
    exact ih (h.step (hfrom call List.mem_cons_self)) hcall hrest

end Agreement

section Records

/-- What is counted from a time on when a call is let through then. -/
def charged (time_window : Time) (counts : Time → Nat) (start : Time) (size : Nat) (now : Time) :
    Nat :=
  if time_window < now - start then 0 else counts start + size

/-- The record of a peer leaves at least the room that the counts leave. -/
structure RecordOk (rate_limit : RateLimit) (r : PeerRecord) (clock : Time) (counts : Time → Nat) :
    Prop where
  stats_le : ∀ stats ∈ r.stats, stats.last_request ≤ clock
  tokens_algorithm : ∀ tokens ∈ r.tokens, rate_limit.algorithm = .token_bucket
  tokens_nonneg : ∀ tokens ∈ r.tokens, 0 ≤ tokens
  tokens_room : 0 < rate_limit.time_window → ∀ tokens ∈ r.tokens, ∃ stats ∈ r.stats, ∀ now,
    clock ≤ now → (rate_limit.max_requests : Rat) - counts now ≤
      tokens + (now - stats.last_request) * (rate_limit.max_requests / rate_limit.time_window)
  window_le : ∀ window ∈ r.window, ∀ time ∈ window, time ≤ clock
  window_room : ∀ window ∈ r.window, ∀ now, clock ≤ now →
    (window.dropWhile (· < now - rate_limit.time_window)).length ≤ counts now
  rate_eq : ∀ rate ∈ r.rate, rate = rate_limit.max_requests

variable {r : PeerRecord} {counts counts' : Time → Nat} {size : Nat}

theorem RecordOk.later (h : RecordOk rate_limit r clock counts) (hclock : clock ≤ now)
    (hcounts : ∀ t, now ≤ t → counts' t = counts t) : RecordOk rate_limit r now counts' where
  stats_le stats hstats := (h.stats_le stats hstats).trans hclock
  tokens_algorithm := h.tokens_algorithm
  tokens_nonneg := h.tokens_nonneg
  tokens_room hpos tokens htokens := by
    obtain ⟨stats, hstats, hroom⟩ := h.tokens_room hpos tokens htokens
    refine ⟨stats, hstats, fun t ht => ?_⟩
    rw [hcounts t ht]
    exact hroom t (hclock.trans ht)
  window_le window hwindow time htime := (h.window_le window hwindow time htime).trans hclock
  window_room window hwindow t ht := by
    rw [hcounts t ht]
    exact h.window_room window hwindow t (hclock.trans ht)
  rate_eq := h.rate_eq

/-- In a window's time a bucket is filled. -/
theorem max_le_refill {max_requests : Int} {time_window elapsed : Time} (hmax : 0 ≤ max_requests)
    (hpos : 0 < time_window) (helapsed : time_window ≤ elapsed) :
    (max_requests : Rat) ≤ elapsed * (max_requests / time_window) := by
  have hrate : 0 ≤ (max_requests : Rat) / time_window :=
    div_nonneg (Int.cast_nonneg hmax) hpos.le
  calc (max_requests : Rat)
    _ = time_window * (max_requests / time_window) := by field_simp
    _ ≤ elapsed * (max_requests / time_window) := mul_le_mul_of_nonneg_right helapsed hrate

theorem refill_mono {max_requests : Int} {time_window : Time} (hmax : 0 ≤ max_requests)
    (hpos : 0 < time_window) {a b : Time} (hab : a ≤ b) :
    a * ((max_requests : Rat) / time_window) ≤ b * (max_requests / time_window) :=
  mul_le_mul_of_nonneg_right hab (div_nonneg (Int.cast_nonneg hmax) hpos.le)

theorem length_dropWhile_mono {a b : Time} (hab : a ≤ b) (window : List Time) :
    (window.dropWhile (· < b)).length ≤ (window.dropWhile (· < a)).length := by
  induction window with
  | nil => exact Nat.le_refl _
  | cons time window ih =>
    rw [List.dropWhile_cons, List.dropWhile_cons]
    split_ifs with hb ha ha
    · exact ih
    · exact ih.trans ((List.dropWhile_sublist _).length_le.trans (Nat.le_succ _))
    · simp only [decide_eq_true_eq] at hb ha
      exact absurd (ha.trans_le hab) hb
    · exact Nat.le_refl _

theorem dropWhile_of_le {window : List Time} {last cutoff : Time} (h : ∀ time ∈ window, time ≤ last)
    (hlast : last < cutoff) : window.dropWhile (· < cutoff) = [] := by
  rw [List.dropWhile_eq_nil_iff]
  intro time htime
  exact decide_eq_true ((h time htime).trans_lt hlast)

/-- A charge leaves less room, until it is forgotten along with all before it. -/
theorem RecordOk.charged (h : RecordOk rate_limit r clock counts) (hclock : clock ≤ now)
    (hmax : 0 ≤ rate_limit.max_requests) (size : Nat) :
    RecordOk rate_limit r now (charged rate_limit.time_window counts now size) where
  stats_le stats hstats := (h.stats_le stats hstats).trans hclock
  tokens_algorithm := h.tokens_algorithm
  tokens_nonneg := h.tokens_nonneg
  tokens_room hpos tokens htokens := by
    obtain ⟨stats, hstats, hroom⟩ := h.tokens_room hpos tokens htokens
    have hlast := (h.stats_le stats hstats).trans hclock
    refine ⟨stats, hstats, fun t ht => ?_⟩
    rw [RateLimiting.charged]
    split_ifs with hlate
    · have hfull := max_le_refill hmax hpos
        (show rate_limit.time_window ≤ t - stats.last_request by linarith)
      have hnonneg := h.tokens_nonneg tokens htokens
      push_cast
      linarith
    · have hnow := hroom now hclock
      have hmono := refill_mono hmax hpos (sub_le_sub_right ht stats.last_request)
      have hsize : (0 : Rat) ≤ size := Nat.cast_nonneg size
      push_cast
      linarith
  window_le window hwindow time htime := (h.window_le window hwindow time htime).trans hclock
  window_room window hwindow t ht := by
    rw [RateLimiting.charged]
    split_ifs with hlate
    · rw [dropWhile_of_le (h.window_le window hwindow) (by linarith)]
      exact Nat.le_refl 0
    · refine (length_dropWhile_mono (sub_le_sub_right ht _) window).trans ?_
      exact (h.window_room window hwindow now hclock).trans (Nat.le_add_right _ _)
  rate_eq := h.rate_eq

/-- The record is there from the first look at it on. -/
theorem RecordOk.touched (h : RecordOk rate_limit r clock counts) (hclock : clock ≤ now) :
    RecordOk rate_limit { r with stats := some (r.stats.getD { last_request := now }) } now
      counts where
  stats_le := by
    rintro _ ⟨⟩
    cases hstats : r.stats with
    | none => exact le_refl now
    | some stats => exact (h.stats_le stats hstats).trans hclock
  tokens_algorithm := h.tokens_algorithm
  tokens_nonneg := h.tokens_nonneg
  tokens_room hpos tokens htokens := by
    obtain ⟨stats, hstats, hroom⟩ := h.tokens_room hpos tokens htokens
    refine ⟨stats, ?_, fun t ht => hroom t (hclock.trans ht)⟩
    rw [show r.stats = some stats from hstats]
    rfl
  window_le window hwindow time htime := (h.window_le window hwindow time htime).trans hclock
  window_room window hwindow t ht := h.window_room window hwindow t (hclock.trans ht)
  rate_eq := h.rate_eq

/-- The time of the last request matters to buckets only. -/
theorem RecordOk.stamped (h : RecordOk rate_limit r clock counts)
    (halgorithm : rate_limit.algorithm ≠ .token_bucket) {stats : RateLimitStats}
    (hstats : stats.last_request ≤ clock) :
    RecordOk rate_limit { r with stats := some stats } clock counts where
  stats_le := by
    rintro _ ⟨⟩
    exact hstats
  tokens_algorithm := h.tokens_algorithm
  tokens_nonneg := h.tokens_nonneg
  tokens_room _ tokens htokens := absurd (h.tokens_algorithm tokens htokens) halgorithm
  window_le := h.window_le
  window_room := h.window_room
  rate_eq := h.rate_eq

/-- A bucket with the room that the counts leave still has it when both are charged. -/
theorem RecordOk.spent (h : RecordOk rate_limit r now counts)
    (halgorithm : rate_limit.algorithm = .token_bucket) (hmax : 0 ≤ rate_limit.max_requests)
    {stats : RateLimitStats} (hstats : stats.last_request = now) {tokens : Rat}
    (hroom : (rate_limit.max_requests : Rat) - counts now ≤ tokens) (hsize : size ≤ tokens) :
    RecordOk rate_limit { r with stats := some stats, tokens := some (tokens - size) } now
      (RateLimiting.charged rate_limit.time_window counts now size) where
  stats_le := by
    rintro _ ⟨⟩
    exact hstats.le
  tokens_algorithm _ _ := halgorithm
  tokens_nonneg := by
    rintro _ ⟨⟩
    exact sub_nonneg_of_le hsize
  tokens_room hpos := by
    rintro _ ⟨⟩
    refine ⟨stats, rfl, fun t ht => ?_⟩
    rw [RateLimiting.charged, hstats]
    split_ifs with hlate
    · have hfull := max_le_refill hmax hpos hlate.le
      push_cast
      linarith
    · have hmono := refill_mono hmax hpos (sub_nonneg_of_le ht)
      push_cast
      linarith
  window_le := h.window_le
  window_room := (h.charged le_rfl hmax size).window_room
  rate_eq := h.rate_eq

/-- So has a window. -/
theorem RecordOk.appended (h : RecordOk rate_limit r now counts)
    (hmax : 0 ≤ rate_limit.max_requests) {window : List Time} (hle : ∀ time ∈ window, time ≤ now)
    (hroom : window.length ≤ counts now) :
    RecordOk rate_limit { r with window := some (window ++ List.replicate size now) } now
      (RateLimiting.charged rate_limit.time_window counts now size) := by
  have hall : ∀ time ∈ window ++ List.replicate size now, time ≤ now := by
    intro time htime
    obtain htime | htime := List.mem_append.mp htime
    · exact hle time htime
    · exact (List.eq_of_mem_replicate htime).le
  refine { h.charged le_rfl hmax size with window_le := ?_, window_room := ?_ }
  · rintro _ ⟨⟩
    exact hall
  · rintro _ ⟨⟩ t ht
    rw [RateLimiting.charged]
    split_ifs with hlate
    · rw [dropWhile_of_le hall (by linarith)]
      exact Nat.le_refl 0
    · calc (List.dropWhile _ (window ++ List.replicate size now)).length
        _ ≤ (window ++ List.replicate size now).length := (List.dropWhile_sublist _).length_le
        _ = window.length + size := by rw [List.length_append, List.length_replicate]
        _ ≤ counts now + size := Nat.add_le_add_right hroom size

/-- The bucket of a limit without a window, which no call gets to. -/
theorem RecordOk.stuck (h : RecordOk rate_limit r now counts)
    (halgorithm : rate_limit.algorithm = .token_bucket) (hzero : rate_limit.time_window = 0)
    {tokens : Rat} (htokens : 0 ≤ tokens) :
    RecordOk rate_limit { r with tokens := some tokens } now counts where
  stats_le := h.stats_le
  tokens_algorithm _ _ := halgorithm
  tokens_nonneg := by
    rintro _ ⟨⟩
    exact htokens
  tokens_room hpos := absurd hzero hpos.ne'
  window_le := h.window_le
  window_room := h.window_room
  rate_eq := h.rate_eq

/-- The rate of a peer is the limit's own from the first look at it on. -/
theorem RecordOk.rated (h : RecordOk rate_limit r now counts) {rate : Rat}
    (hrate : rate = rate_limit.max_requests) :
    RecordOk rate_limit { r with rate := some rate } now counts where
  stats_le := h.stats_le
  tokens_algorithm := h.tokens_algorithm
  tokens_nonneg := h.tokens_nonneg
  tokens_room := h.tokens_room
  window_le := h.window_le
  window_room := h.window_room
  rate_eq := by
    rintro _ ⟨⟩
    exact hrate

end Records

section Checks

variable {counts : Time → Nat}

theorem truncated_intCast (n : Int) : truncated n = n := by
  rw [truncated, Rat.num_intCast, Rat.den_intCast, Nat.cast_one, Int.tdiv_one]

/-- What an admitted call leaves of its peer's record. -/
theorem record_updateRateLimitStats : ∃ stats : RateLimitStats, stats.last_request = call.now ∧
    (updateRateLimitStats s call).record call.key =
      { s.record call.key with stats := some stats } := by
  rw [updateRateLimitStats, RateLimiter.record, Dict.get?_set_self]
  exact ⟨_, rfl, rfl⟩

theorem record_setStats {stats : RateLimitStats} :
    ({ s with peer_stats := s.peer_stats.set call.key stats } : RateLimiter).record call.key =
      { s.record call.key with stats := some stats } := by
  rw [RateLimiter.record, Dict.get?_set_self]
  rfl

theorem record_setRate {rate : Rat} :
    ({ s with adaptive_rates := s.adaptive_rates.set call.key rate } : RateLimiter).record call.key =
      { s.record call.key with rate := some rate } := by
  rw [RateLimiter.record, Dict.get?_set_self]
  rfl

/-- A call is let through, or is stuck with an error, and its peer's record stays in order. -/
def LetThrough (rate_limit : RateLimit) (call : Call) (counts : Time → Nat)
    (result : RateLimiter × Reply) : Prop :=
  let counts := charged rate_limit.time_window counts call.now call.request_size
  result.2 = some (true, 0) ∧
      RecordOk rate_limit ((updateRateLimitStats result.1 call).record call.key) call.now counts ∨
    result.2 = none ∧ RecordOk rate_limit (result.1.record call.key) call.now counts

variable (hroom : (counts call.now + call.request_size : Int) ≤ rate_limit.max_requests)
include hroom

theorem letThrough_checkTokenBucket {stats : RateLimitStats}
    (h : RecordOk rate_limit (s.record call.key) call.now counts)
    (hstats : s.peer_stats.get? call.key = some stats)
    (halgorithm : rate_limit.algorithm = .token_bucket) (hwindow : 0 ≤ rate_limit.time_window) :
    LetThrough rate_limit call counts (checkTokenBucket rate_limit s call stats) := by
  have hmax : 0 ≤ rate_limit.max_requests := by omega
  have hroom' : (counts call.now : Rat) + call.request_size ≤ rate_limit.max_requests := by
    exact_mod_cast hroom
  have hcounts : (0 : Rat) ≤ counts call.now := Nat.cast_nonneg _
  have hlast := h.stats_le stats hstats
  have hnonneg : 0 ≤ (s.token_buckets.get? call.key).getD rate_limit.max_requests := by
    cases hget : s.token_buckets.get? call.key with
    | none => exact Int.cast_nonneg hmax
    | some tokens => exact h.tokens_nonneg tokens hget
  have havailable : 0 < rate_limit.time_window →
      (rate_limit.max_requests : Rat) - counts call.now ≤ availableTokens rate_limit
        ((s.token_buckets.get? call.key).getD rate_limit.max_requests) stats.last_request
          call.now := by
    intro hpos
    refine le_min (by linarith) ?_
    cases hget : s.token_buckets.get? call.key with
    | none =>
      have hrefill := refill_mono hmax hpos (sub_nonneg_of_le hlast)
      rw [Option.getD_none]
      linarith
    | some tokens =>
      obtain ⟨stats', hstats', hle⟩ := h.tokens_room hpos tokens hget
      rw [Option.getD_some, Option.some.inj (hstats.symm.trans hstats')]
      exact hle call.now le_rfl
  obtain ⟨hzero, hreply, hrecord⟩ | ⟨hzero, hsize, hreply, hrecord⟩ | ⟨hzero, hsize, -, -⟩ :=
    checkTokenBucket_cases call stats rfl
  · refine Or.inr ⟨hreply, ?_⟩
    rw [hrecord]
    exact (h.charged le_rfl hmax call.request_size).stuck halgorithm hzero hnonneg
  · refine Or.inl ⟨hreply, ?_⟩
    obtain ⟨updated, hupdated, hrecord'⟩ := record_updateRateLimitStats
    rw [hrecord', hrecord]
    have hpos := lt_of_le_of_ne hwindow (Ne.symm hzero)
    exact h.spent halgorithm hmax hupdated (havailable hpos) hsize
  · have hpos := lt_of_le_of_ne hwindow (Ne.symm hzero)
    have hfew := havailable hpos
    linarith

theorem letThrough_checkWindow (h : RecordOk rate_limit (s.record call.key) call.now counts)
    (halgorithm : rate_limit.algorithm ≠ .token_bucket) {limit : Int}
    (hlimit : limit = rate_limit.max_requests) :
    LetThrough rate_limit call counts (checkWindow rate_limit s call limit) := by
  have hmax : 0 ≤ rate_limit.max_requests := by omega
  dsimp only [checkWindow]
  generalize hwindow : List.dropWhile (· < call.now - rate_limit.time_window)
    ((s.sliding_windows.get? call.key).getD []) = window
  have hfacts : (∀ time ∈ window, time ≤ call.now) ∧ window.length ≤ counts call.now := by
    rw [← hwindow]
    cases hget : s.sliding_windows.get? call.key with
    | none => exact ⟨List.forall_mem_nil _, Nat.zero_le _⟩
    | some window =>
      refine ⟨fun time htime => ?_, h.window_room window hget call.now le_rfl⟩
      exact h.window_le window hget time ((List.dropWhile_sublist _).mem htime)
  obtain ⟨hle, hlength⟩ := hfacts
  rw [if_pos (by omega)]
  refine Or.inl ⟨rfl, ?_⟩
  obtain ⟨updated, hupdated, hrecord⟩ := record_updateRateLimitStats
  rw [hrecord]
  convert (h.appended hmax hle hlength).stamped halgorithm hupdated.le using 1
  rw [RateLimiter.record, Dict.get?_set_self]
  rfl

/-- What the global limiter has room for is let through by the limit of a peer. -/
theorem letThrough_checkPeerRateLimit
    (h : RecordOk rate_limit (s.record call.key) clock counts) (hclock : clock ≤ call.now)
    (hwindow : 0 ≤ rate_limit.time_window) :
    LetThrough rate_limit call counts (checkPeerRateLimit rate_limit s call) := by
  have htouched := h.touched hclock
  rw [← record_setStats] at htouched
  rw [checkPeerRateLimit]
  cases halgorithm : rate_limit.algorithm with
  | token_bucket =>
    exact letThrough_checkTokenBucket hroom htouched (Dict.get?_set_self _ _ _) halgorithm hwindow
  | sliding_window =>
    exact letThrough_checkWindow hroom htouched (by rw [halgorithm]; decide) rfl
  | leaky_bucket =>
    refine Or.inl ⟨rfl, ?_⟩
    obtain ⟨updated, hupdated, hrecord⟩ := record_updateRateLimitStats
    rw [hrecord]
    exact (htouched.charged le_rfl (by omega) _).stamped (by rw [halgorithm]; decide) hupdated.le
  | adaptive =>
    have hrate : (s.adaptive_rates.get? call.key).getD rate_limit.max_requests =
        rate_limit.max_requests := by
      cases hget : s.adaptive_rates.get? call.key with
      | none => rfl
      | some rate => exact h.rate_eq rate hget
    dsimp only [checkAdaptive]
    rw [hrate]
    have hrated := htouched.rated (rfl : (rate_limit.max_requests : Rat) = rate_limit.max_requests)
    rw [← record_setRate] at hrated
    exact letThrough_checkWindow hroom hrated (by rw [halgorithm]; decide) (truncated_intCast _)

end Checks

section Calls

/-- The limiter behind calls in order, the last of them before the clock. -/
structure LimiterOk (rate_limits : RateLimits) (clock : Time) (s : RateLimiter) : Prop where
  record : ∀ key : Key, 0 ≤ (rate_limits key.2).time_window →
    RecordOk (rate_limits key.2) (s.record key) clock (s.counted rate_limits key.2)
  counted : ∀ limit_type, (rate_limits limit_type).time_window < 0 → ∀ now, clock ≤ now →
    s.counted rate_limits limit_type now = 0

theorem limiterOk_empty : LimiterOk rate_limits clock {} where
  record _ _ := by
    refine ⟨?_, ?_, ?_, ?_, ?_, ?_, ?_⟩
    · rintro _ ⟨⟩
    · rintro _ ⟨⟩
    · rintro _ ⟨⟩
    · rintro _ _ ⟨⟩
    · rintro _ ⟨⟩
    · rintro _ ⟨⟩
    · rintro _ ⟨⟩
  counted _ _ _ _ := rfl

/-- A call that the global limiter has room for is not refused, and its record stays in order. -/
theorem LimiterOk.letThrough (h : LimiterOk rate_limits clock s) (hclock : clock ≤ call.now)
    (hroom : s.HasRoom rate_limits call) (hwindow : 0 ≤ (rate_limits call.limit_type).time_window) :
    decision rate_limits s call ≠ some false ∧
      RecordOk (rate_limits call.limit_type) ((step rate_limits s call).record call.key) call.now
        (charged (rate_limits call.limit_type).time_window (s.counted rate_limits call.limit_type)
          call.now call.request_size) := by
  have hrecord := h.record call.key hwindow
  rw [← record_checkGlobalRateLimit] at hrecord
  rw [step_of_hasRoom hroom, decision_of_hasRoom hroom]
  obtain ⟨hreply, hok⟩ | ⟨hreply, hok⟩ := letThrough_checkPeerRateLimit hroom hrecord hclock hwindow
  · rw [afterGlobal, hreply]
    exact ⟨by decide, hok⟩
  · rw [afterGlobal, hreply]
    exact ⟨by decide, hok⟩

theorem LimiterOk.step (h : LimiterOk rate_limits clock s) (hclock : clock ≤ call.now) :
    LimiterOk rate_limits call.now (step rate_limits s call) := by
  by_cases hroom : s.HasRoom rate_limits call
  · refine ⟨fun key hwindow => ?_, fun limit_type hwindow now hnow => ?_⟩
    · by_cases htype : key.2 = call.limit_type
      · have hcounted : (RateLimiter.step rate_limits s call).counted rate_limits key.2 =
            charged (rate_limits key.2).time_window (s.counted rate_limits key.2) call.now
              call.request_size := by
          funext now
          rw [counted_step_of_hasRoom hroom, if_pos htype]
          rfl
        rw [hcounted]
        by_cases hkey : key = call.key
        · subst hkey
          exact (h.letThrough hclock hroom hwindow).2
        · rw [record_step_ne hkey]
          refine (h.record key hwindow).charged hclock ?_ _
          rw [HasRoom] at hroom
          rw [htype]
          omega
      · rw [record_step_ne fun hkey => htype (congrArg Prod.snd hkey)]
        refine (h.record key hwindow).later hclock fun t _ => ?_
        rw [counted_step_of_hasRoom hroom, if_neg htype]
    · rw [counted_step_of_hasRoom hroom]
      split_ifs with htype hlate
      · rfl
      · exact absurd (hwindow.trans_le (sub_nonneg_of_le hnow)) hlate
      · exact h.counted limit_type hwindow now (hclock.trans hnow)
  · obtain ⟨hstep, -⟩ := checkRateLimit_of_not_hasRoom hroom
    refine ⟨fun key hwindow => ?_, fun limit_type hwindow now hnow => ?_⟩
    · rw [hstep, record_checkGlobalRateLimit, ← hstep]
      exact (h.record key hwindow).later hclock fun t ht => counted_step_of_not_hasRoom hroom ht
    · rw [counted_step_of_not_hasRoom hroom hnow]
      exact h.counted limit_type hwindow now (hclock.trans hnow)

/-- A refused call leaves the counts from then on as they were. -/
theorem LimiterOk.counted_step_of_refused (h : LimiterOk rate_limits clock s)
    (hclock : clock ≤ call.now) (hrefused : decision rate_limits s call = some false)
    {limit_type : RateLimitType} (hnow : call.now ≤ now) :
    (RateLimiter.step rate_limits s call).counted rate_limits limit_type now =
      s.counted rate_limits limit_type now := by
  by_cases hroom : s.HasRoom rate_limits call
  · have hwindow : (rate_limits call.limit_type).time_window < 0 :=
      lt_of_not_ge fun hwindow => (h.letThrough hclock hroom hwindow).1 hrefused
    rw [counted_step_of_hasRoom hroom]
    split_ifs with htype hlate
    -- Nothing is ever counted in a window of negative length.
    · rw [h.counted limit_type (htype ▸ hwindow) now (hclock.trans hnow)]
    · rw [htype] at hlate
      exact absurd (hwindow.trans_le (sub_nonneg_of_le hnow)) hlate
    · rfl
  · exact counted_step_of_not_hasRoom hroom hnow

theorem LimiterOk.agreeBut (h : LimiterOk rate_limits clock s) (hclock : clock ≤ call.now)
    (hrefused : decision rate_limits s call = some false) :
    AgreeBut rate_limits call.key call.now (RateLimiter.step rate_limits s call) s where
  counted _ _ hnow := h.counted_step_of_refused hclock hrefused hnow
  record _ hkey := record_step_ne hkey

theorem limiterOk_run (rate_limits : RateLimits) {calls : List Call}
    (horder : InOrder (calls ++ [call])) :
    ∃ clock ≤ call.now, LimiterOk rate_limits clock (run (RateLimiter.step rate_limits) {} calls) := by
  induction calls using List.reverseRecOn generalizing call with
  | nil => exact ⟨call.now, le_rfl, limiterOk_empty⟩
  | append_singleton calls last ih =>
    obtain ⟨hcalls, -, hlast⟩ := List.pairwise_append.mp horder
    obtain ⟨clock, hclock, hok⟩ := ih hcalls
    refine ⟨last.now, hlast last (List.mem_append_right _ List.mem_cons_self) call
      List.mem_cons_self, ?_⟩
    rw [run_append]
    exact hok.step hclock

end Calls

end Ccbt.RateLimiting

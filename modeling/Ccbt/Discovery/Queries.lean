import Ccbt.Discovery.Announce

/-!
# Queries and their responses

`_send_query` files a future under a random transaction id and takes the entry of that id out
again when it ends; `handle_response` gives a message to the future under its transaction id,
wherever the datagram came from. Queries, timeouts and datagrams interleave: the steps of a
query are its beginning, the entry, the timeout and the end.
-/

namespace Ccbt

open Python Transition Torrent Bencode

namespace Discovery

abbrev Addr := Str × Nat

/-- Where a query is between its datagram and its end. An answer is kept with the address that
its datagram came from, which the client does not look at. -/
inductive Phase
  | sent
  | waiting
  | answered (message : PyDict) (origin : Addr)
  | cancelled
  | returned (result : Option (PyDict × Addr))

namespace Phase

/-- The future has been made and the query has not ended. -/
def isOpen : Phase → Bool
  | sent => false
  | returned _ => false
  | _ => true

def isWaiting : Phase → Bool
  | waiting => true
  | _ => false

/-- The message that has been given to the future. -/
def message? : Phase → Option (PyDict × Addr)
  | answered message origin => some (message, origin)
  | returned result => result
  | _ => none

end Phase

structure Query where
  tid : { tid : Bytes // tid.length = 2 }
  addr : Addr
  phase : Phase := .sent

/-- The queries in the order in which they were sent, and those that have an entry or had one,
the last one first. -/
structure QueryTable where
  queries : List Query
  pending_queries : Dict Bytes Nat
  started : List Nat

inductive QueryEvent
  /-- `_send_query` sends its datagram. -/
  | send (tid : { tid : Bytes // tid.length = 2 }) (addr : Addr)
  /-- `_wait_for_response` begins. -/
  | start (query : Nat)
  /-- A datagram comes; the decoder has this much fuel. -/
  | datagram (fuel : Nat) (data : Bytes) (addr : Addr)
  /-- The timer of `wait_for` fires, before or after an answer that has not been taken yet. -/
  | timeout (query : Nat)
  /-- `_wait_for_response` ends and `_send_query` returns. -/
  | finish (query : Nat)

namespace QueryTable

def empty : QueryTable := { queries := [], pending_queries := .empty, started := [] }

def setPhase (s : QueryTable) (q : Nat) (phase : Phase) : QueryTable :=
  { s with queries := s.queries.modify q fun query => { query with phase := phase } }

/-- The message in a datagram and the transaction id that it answers, if it is a response. -/
def response (fuel : Nat) (data : Bytes) : Option (PyDict × Bytes) :=
  match (decode data fuel ⟨0, false⟩).1 with
  | .ok (.dict message) =>
    if isResponse message then
      match getKey message "t" with
      | some (.bytes tid) => if tid.isEmpty then none else some (message, tid)
      | _ => none
    else none
  | _ => none

def handleResponse (s : QueryTable) (fuel : Nat) (data : Bytes) (addr : Addr) : QueryTable :=
  match response fuel data with
  | none => s
  | some (message, tid) =>
    match s.pending_queries.get? tid with
    | none => s
    | some q =>
      match s.queries[q]? with
      | none => s
      -- nobody compares `addr` with the address of the query
      | some query => if query.phase.isWaiting then s.setPhase q (.answered message addr) else s

def step (s : QueryTable) : QueryEvent → QueryTable
  | .send tid addr => { s with queries := s.queries ++ [{ tid := tid, addr := addr }] }
  | .start q =>
    match s.queries[q]? with
    | none => s
    | some query =>
      match query.phase with
      -- the entry of an older query with this id is overwritten
      | .sent => { s.setPhase q .waiting with
          pending_queries := s.pending_queries.set query.tid q
          started := q :: s.started }
      | _ => s
  | .datagram fuel data addr => s.handleResponse fuel data addr
  | .timeout q =>
    match s.queries[q]? with
    | none => s
    | some query =>
      match query.phase with
      | .waiting => s.setPhase q .cancelled
      | .answered _ _ => s.setPhase q .cancelled
      | _ => s
  | .finish q =>
    match s.queries[q]? with
    | none => s
    | some query =>
      match query.phase with
      -- the entry under the id is deleted, whichever query it belongs to by now
      | .answered message origin => { s.setPhase q (.returned (some (message, origin))) with
          pending_queries := s.pending_queries.erase query.tid }
      | .cancelled => { s.setPhase q (.returned none) with
          pending_queries := s.pending_queries.erase query.tid }
      | _ => s

/-- What a query returns answers it: a response with its transaction id from the address it was
sent to. -/
def ReturnsOwn (s : QueryTable) : Prop :=
  ∀ query ∈ s.queries, ∀ message origin, query.phase = .returned (some (message, origin)) →
    isResponse message ∧ getKey message "t" = some (.bytes query.tid) ∧ origin = query.addr

/-- The end of a query leaves the entries of the others alone. -/
def KeepsOthers (s : QueryTable) : QueryEvent → Prop
  | .finish q => ∀ tid q', q' ≠ q → s.pending_queries.get? tid = some q' →
      (s.step (.finish q)).pending_queries.get? tid = some q'
  | _ => True

/-- The query that was started last with a transaction id. -/
def lastStarted (s : QueryTable) (tid : Bytes) : Option Nat :=
  s.started.find? fun q => (s.queries[q]?).any fun query => query.tid.1 = tid

/-- A response that finds the last query with its transaction id waiting comes from the address
of that query; when a query ends, the last one with its transaction id is itself or has
ended. -/
def Undisturbed (s : QueryTable) : QueryEvent → Prop
  | .datagram fuel data addr =>
    ∀ m ∈ response fuel data, ∀ q ∈ s.lastStarted m.2, ∀ query ∈ s.queries[q]?,
      query.phase.isWaiting = true → addr = query.addr
  | .finish q =>
    ∀ query ∈ s.queries[q]?, query.phase.isOpen = true → ∀ q' ∈ s.lastStarted query.tid,
      q' = q ∨ ∀ query' ∈ s.queries[q']?, query'.phase.isOpen = false
  | _ => True

instance (s : QueryTable) : (e : QueryEvent) → Decidable (s.Undisturbed e)
  | .datagram _ _ _ => inferInstanceAs (Decidable (∀ m ∈ response _ _, _))
  | .finish _ => inferInstanceAs (Decidable (∀ query ∈ s.queries[_]?, _))
  | .send _ _ => isTrue trivial
  | .start _ => isTrue trivial
  | .timeout _ => isTrue trivial

theorem response_spec {fuel : Nat} {data : Bytes} {message : PyDict} {tid : Bytes}
    (h : response fuel data = some (message, tid)) :
    isResponse message ∧ getKey message "t" = some (.bytes tid) := by
  rw [response] at h
  split at h
  · split at h
    · next hisr =>
      split at h
      · next t ht =>
        split at h
        · exact nomatch h
        · obtain ⟨rfl, rfl⟩ := Prod.mk.inj (Option.some.inj h)
          exact ⟨hisr, ht⟩
      · exact nomatch h
    · exact nomatch h
  · exact nomatch h

section Phases

variable {s : QueryTable}

/-- The phase of one query is set, and all else of the queries stays. -/
theorem getElem?_setPhase (q q' : Nat) (phase : Phase) :
    (s.setPhase q phase).queries[q']? =
      if q = q' then (s.queries[q']?).map fun query => { query with phase := phase }
      else s.queries[q']? := by
  rw [setPhase, List.getElem?_modify]
  split
  · rfl
  · exact Option.map_id' ..

theorem getElem?_setPhase_self {q : Nat} {query : Query} (h : s.queries[q]? = some query)
    (phase : Phase) :
    (s.setPhase q phase).queries[q]? = some { query with phase := phase } := by
  rw [getElem?_setPhase, if_pos rfl, h, Option.map_some]

theorem getElem?_setPhase_ne {q q' : Nat} (h : q ≠ q') (phase : Phase) :
    (s.setPhase q phase).queries[q']? = s.queries[q']? := by
  rw [getElem?_setPhase, if_neg h]

/-- Which query was started last under a transaction id does not depend on the phases. -/
theorem lastStarted_setPhase (q : Nat) (phase : Phase) (tid : Bytes) :
    (s.setPhase q phase).lastStarted tid = s.lastStarted tid := by
  rw [lastStarted, lastStarted]
  congr 1
  funext q'
  rw [getElem?_setPhase]
  split
  · rw [Option.any_map]
  · rfl

theorem tid_of_lastStarted {tid : Bytes} {q : Nat} (h : s.lastStarted tid = some q) :
    ∃ query, s.queries[q]? = some query ∧ query.tid.1 = tid := by
  have hq := List.find?_some h
  cases hquery : s.queries[q]? with
  | none =>
    rw [hquery] at hq
    exact nomatch hq
  | some query =>
    rw [hquery, Option.any_some, decide_eq_true_eq] at hq
    exact ⟨query, rfl, hq⟩

end Phases

/-- Entries belong to open queries that were the last ones started under their ids, and what
futures hold answers their queries. -/
structure Orderly (s : QueryTable) : Prop where
  started : ∀ q ∈ s.started, q < s.queries.length
  entries : ∀ tid q, s.pending_queries.get? tid = some q → s.lastStarted tid = some q ∧
    ∃ query : Query, s.queries[q]? = some query ∧ query.phase.isOpen = true
  answers : ∀ (q : Nat) (query : Query), s.queries[q]? = some query → ∀ message origin,
    query.phase.message? = some (message, origin) →
    isResponse message ∧ getKey message "t" = some (.bytes query.tid) ∧ origin = query.addr

namespace Orderly

variable {s : QueryTable}

theorem empty : QueryTable.empty.Orderly where
  started := fun _ h => nomatch h
  entries := fun _ _ h => nomatch h
  answers := fun q query h => by
    rw [QueryTable.empty, List.getElem?_nil] at h
    exact nomatch h

/-- An open query goes on to another open phase. -/
theorem setPhase (h : s.Orderly) {q : Nat} {query : Query} (hq : s.queries[q]? = some query)
    {phase : Phase} (hopen : query.phase.isOpen = true → phase.isOpen = true)
    (hphase : ∀ message origin, phase.message? = some (message, origin) →
      isResponse message ∧ getKey message "t" = some (.bytes query.tid) ∧ origin = query.addr) :
    (s.setPhase q phase).Orderly where
  started := by
    rw [QueryTable.setPhase, List.length_modify]
    exact h.started
  entries := fun tid q' hget => by
    obtain ⟨hlast, query', hq', hopen'⟩ := h.entries tid q' hget
    rw [lastStarted_setPhase]
    refine ⟨hlast, ?_⟩
    by_cases hqq : q = q'
    · subst hqq
      obtain rfl := Option.some.inj (hq'.symm.trans hq)
      exact ⟨_, getElem?_setPhase_self hq phase, hopen hopen'⟩
    · exact ⟨query', (getElem?_setPhase_ne hqq phase).trans hq', hopen'⟩
  answers := fun q' query' hq' => by
    by_cases hqq : q = q'
    · subst hqq
      rw [getElem?_setPhase_self hq] at hq'
      obtain rfl := Option.some.inj hq'
      exact hphase
    · rw [getElem?_setPhase_ne hqq] at hq'
      exact h.answers q' query' hq'

theorem send (h : s.Orderly) (tid : { tid : Bytes // tid.length = 2 }) (addr : Addr) :
    (s.step (.send tid addr)).Orderly := by
  have hold : ∀ q < s.queries.length, (s.queries ++ [({ tid := tid, addr := addr } : Query)])[q]? =
      s.queries[q]? := fun q hq => List.getElem?_append_left hq
  have hlast : ∀ t, (s.step (.send tid addr)).lastStarted t = s.lastStarted t := by
    intro t
    rw [lastStarted, lastStarted, ← List.head?_filter, ← List.head?_filter]
    refine congrArg List.head? (List.filter_congr fun q hq => ?_)
    rw [QueryTable.step, hold q (h.started q hq)]
  constructor
  case started =>
    intro q hq
    rw [QueryTable.step, List.length_append]
    exact Nat.lt_add_right _ (h.started q hq)
  case entries =>
    intro t q hget
    obtain ⟨hstarted, query, hq, hopen⟩ := h.entries t q hget
    have hlt : q < s.queries.length := (List.getElem?_eq_some_iff.mp hq).1
    exact ⟨(hlast t).trans hstarted, query, (hold q hlt).trans hq, hopen⟩
  case answers =>
    intro q query hq
    by_cases hlt : q < s.queries.length
    · exact h.answers q query ((hold q hlt).symm.trans hq)
    · have hmem : query = { tid := tid, addr := addr } := by
        rw [QueryTable.step, List.getElem?_append_right (Nat.not_lt.mp hlt)] at hq
        exact List.mem_singleton.mp (List.mem_of_getElem? hq)
      rw [hmem]
      exact fun _ _ hm => nomatch hm

theorem start (h : s.Orderly) (q : Nat) : (s.step (.start q)).Orderly := by
  rw [QueryTable.step]
  split
  · exact h
  · next query hq =>
    split
    · next hsent =>
      have hset : (s.setPhase q .waiting).Orderly := by
        refine h.setPhase hq (fun hopen => ?_) fun _ _ hm => nomatch hm
        rfl
      constructor
      case started =>
        intro q' hq'
        rcases List.mem_cons.mp hq' with rfl | hq'
        · have hlt := (List.getElem?_eq_some_iff.mp hq).1
          rw [QueryTable.setPhase, List.length_modify]
          exact hlt
        · exact hset.started q' hq'
      case entries =>
        intro t q' hget
        dsimp only at hget
        rw [Dict.get?_set] at hget
        have htid : ((s.setPhase q .waiting).queries[q]?).any
            (fun query' => query'.tid.1 = t) = decide (query.tid.1 = t) := by
          rw [getElem?_setPhase_self hq, Option.any_some]
        by_cases ht : t = query.tid
        · rw [if_pos ht] at hget
          obtain rfl := Option.some.inj hget
          refine ⟨?_, _, getElem?_setPhase_self hq _, rfl⟩
          rw [lastStarted]
          exact List.find?_cons_of_pos (by rw [htid, decide_eq_true_eq, ht])
        · rw [if_neg ht] at hget
          obtain ⟨hlast, hopen⟩ := hset.entries t q' hget
          refine ⟨?_, hopen⟩
          rw [lastStarted, List.find?_cons_of_neg (by
            rw [htid, decide_eq_true_eq]
            exact Ne.symm ht)]
          exact hlast
      case answers => exact hset.answers
    · exact h

theorem timeout (h : s.Orderly) (q : Nat) : (s.step (.timeout q)).Orderly := by
  rw [QueryTable.step]
  split
  · exact h
  · next query hq =>
    split
    · exact h.setPhase hq (fun _ => rfl) fun _ _ hm => nomatch hm
    · exact h.setPhase hq (fun _ => rfl) fun _ _ hm => nomatch hm
    · exact h

/-- A response is for the last query started under its id, and comes from its address. -/
theorem datagram (h : s.Orderly) {fuel : Nat} {data : Bytes} {addr : Addr}
    (hclear : s.Undisturbed (.datagram fuel data addr)) :
    (s.step (.datagram fuel data addr)).Orderly := by
  rw [QueryTable.step, handleResponse]
  split
  · exact h
  · next message tid hresponse =>
    split
    · exact h
    · next q hget =>
      obtain ⟨hlast, query, hq, -⟩ := h.entries tid q hget
      rw [hq]
      dsimp only
      split
      · next hwaiting =>
        refine h.setPhase hq (fun _ => rfl) fun message' origin hm => ?_
        obtain ⟨rfl, rfl⟩ := Prod.mk.inj (Option.some.inj hm)
        have haddr := hclear _ hresponse q hlast query hq hwaiting
        obtain ⟨query', hq', htid⟩ := tid_of_lastStarted hlast
        obtain rfl := Option.some.inj (hq'.symm.trans hq)
        obtain ⟨hisr, hkey⟩ := response_spec hresponse
        exact ⟨hisr, htid ▸ hkey, haddr⟩
      · exact h

/-- The end of a query takes out its own entry, or none. -/
theorem keepsOthers (h : s.Orderly) {e : QueryEvent} (hclear : s.Undisturbed e) :
    s.KeepsOthers e := by
  cases e with
  | finish q =>
    intro tid q' hne hget
    have herase : ∀ query : Query, s.queries[q]? = some query → query.phase.isOpen = true →
        (s.pending_queries.erase query.tid).get? tid = some q' := by
      intro query hq hopen
      rw [Dict.get?_erase]
      split
      · next htid =>
        rw [htid] at hget
        obtain ⟨hlast, query', hq', hopen'⟩ := h.entries _ _ hget
        rcases hclear query hq hopen q' hlast with heq | hended
        · exact absurd heq hne
        · rw [hended query' hq'] at hopen'
          exact nomatch hopen'
      · exact hget
    rw [QueryTable.step]
    split
    · exact hget
    · next query hq =>
      split
      · next hphase => exact herase query hq (by rw [hphase]; rfl)
      · next hphase => exact herase query hq (by rw [hphase]; rfl)
      · exact hget
  | send tid addr => trivial
  | start q => trivial
  | datagram fuel data addr => trivial
  | timeout q => trivial

/-- A query ends with what its future holds, and its entry is taken out. -/
theorem returned (h : s.Orderly) {q : Nat} {query : Query} (hq : s.queries[q]? = some query)
    {result : Option (PyDict × Addr)} (hresult : result = query.phase.message?) :
    ({ s.setPhase q (.returned result) with
      pending_queries := s.pending_queries.erase query.tid }).Orderly := by
  constructor
  case started =>
    dsimp only
    rw [QueryTable.setPhase, List.length_modify]
    exact h.started
  case entries =>
    intro tid q' hget
    dsimp only at hget
    rw [Dict.get?_erase] at hget
    split at hget
    · exact nomatch hget
    · next htid =>
      obtain ⟨hlast, query', hq', hopen'⟩ := h.entries tid q' hget
      have hne : q ≠ q' := by
        rintro rfl
        obtain ⟨query'', hq'', hother⟩ := tid_of_lastStarted hlast
        obtain rfl := Option.some.inj (hq''.symm.trans hq)
        exact htid hother.symm
      exact ⟨(lastStarted_setPhase q _ tid).trans hlast, query',
        (getElem?_setPhase_ne hne _).trans hq', hopen'⟩
  case answers =>
    intro q' query' hq'
    dsimp only at hq'
    by_cases hqq : q = q'
    · subst hqq
      rw [getElem?_setPhase_self hq] at hq'
      obtain rfl := Option.some.inj hq'
      intro message origin hm
      exact h.answers q query hq message origin (hresult ▸ hm)
    · rw [getElem?_setPhase_ne hqq] at hq'
      exact h.answers q' query' hq'

theorem finish (h : s.Orderly) (q : Nat) : (s.step (.finish q)).Orderly := by
  rw [QueryTable.step]
  split
  · exact h
  · next query hq =>
    split
    · next hphase => exact h.returned hq (by rw [hphase]; rfl)
    · next hphase => exact h.returned hq (by rw [hphase]; rfl)
    · exact h

theorem step (h : s.Orderly) (e : QueryEvent) (hclear : s.Undisturbed e) : (s.step e).Orderly := by
  cases e with
  | send tid addr => exact h.send tid addr
  | start q => exact h.start q
  | datagram fuel data addr => exact h.datagram hclear
  | timeout q => exact h.timeout q
  | finish q => exact h.finish q

theorem returnsOwn (h : s.Orderly) : s.ReturnsOwn := by
  intro query hmem message origin hphase
  obtain ⟨q, hq⟩ := List.mem_iff_getElem?.mp hmem
  exact h.answers q query hq message origin (by rw [hphase]; rfl)

end Orderly

/-- In a run in which responses come from where the last query with their transaction id was
sent to, and queries end in no other order than the one their entries allow, a query returns
only its own answer and takes out no entry of another one. -/
theorem returnsOwn_of_undisturbed (es : List QueryEvent)
    (hes : StepsMeet step Undisturbed empty es) :
    Always step ReturnsOwn empty es ∧ StepsMeet step KeepsOthers empty es := by
  have hstep : ∀ (s : QueryTable) (e : QueryEvent), s.Orderly → s.Undisturbed e →
      (s.step e).Orderly := fun _ e h hclear => h.step e hclear
  have hkeeps : ∀ (s : QueryTable) (e : QueryEvent), s.Orderly → s.Undisturbed e →
      s.KeepsOthers e := fun _ _ h hclear => h.keepsOthers hclear
  exact ⟨(always_of_stepsMeet hstep .empty hes).mono fun _ h => h.returnsOwn,
    hes.imp_of_invariant hstep hkeeps .empty⟩

/-- An empty response to the transaction `aa`. -/
def responseData : Bytes := ascii "d1:rde1:t2:aa1:y1:re"

def hostA : Addr := ("10.0.0.1".toList, 6881)

def hostB : Addr := ("10.0.0.2".toList, 6881)

/-- A query that is answered from where it was sent to. -/
theorem answered_query_returnsOwn :
    Always step ReturnsOwn empty [.send ⟨ascii "aa", rfl⟩ hostA, .start 0,
      .datagram 100 responseData hostA, .finish 0] ∧
    StepsMeet step KeepsOthers empty [.send ⟨ascii "aa", rfl⟩ hostA, .start 0,
      .datagram 100 responseData hostA, .finish 0] :=
  returnsOwn_of_undisturbed _ (by decide +kernel)

/-- Where the message came from that a query returned. -/
def returnedFrom (query : Query) : Option Addr :=
  match query.phase with
  | .returned (some (_, origin)) => some origin
  | _ => none

theorem returnedFrom_of_returnsOwn {s : QueryTable} (h : s.ReturnsOwn) {addr origin : Addr}
    (hmem : (addr, some origin) ∈ s.queries.map fun query => (query.addr, returnedFrom query)) :
    origin = addr := by
  obtain ⟨query, hquery, heq⟩ := List.mem_map.mp hmem
  obtain ⟨rfl, hfrom⟩ := Prod.mk.inj heq
  rw [returnedFrom] at hfrom
  split at hfrom
  · next message origin' hphase =>
    obtain rfl := Option.some.inj hfrom
    exact (h query hquery message origin' hphase).2.2
  · exact nomatch hfrom

/-- An answer from another address is returned, and the end of a query takes out the entry of a
later one with the same transaction id. -/
theorem answers_are_mixed_up :
    ¬Always step ReturnsOwn empty [.send ⟨ascii "aa", rfl⟩ hostA, .start 0,
      .datagram 100 responseData hostB, .finish 0] ∧
    ¬StepsMeet step KeepsOthers empty [.send ⟨ascii "aa", rfl⟩ hostA, .start 0,
      .send ⟨ascii "aa", rfl⟩ hostB, .start 1, .timeout 0, .finish 0] := by
  constructor
  · intro h
    have hlast : hostB = hostA :=
      returnedFrom_of_returnsOwn (always_iff_take.mp h 4) (by decide +kernel)
    exact absurd hlast (by decide)
  · rintro ⟨-, -, -, -, -, h, -⟩
    exact absurd (h (ascii "aa") 1 (by decide) (by decide +kernel)) (by decide +kernel)

end QueryTable

end Discovery

end Ccbt

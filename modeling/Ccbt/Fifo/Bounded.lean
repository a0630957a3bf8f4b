import Ccbt.Transition.Run
import Mathlib.Data.List.Rotate

/-!
# Bounded queues

A queue of bounded size as a list, with what it answers to each request, and the history of a system
that is meant to be such a queue: what it has accepted and what has been taken out of it since it
was last reset. A list that is used in a circle holds a queue that may go around its end.
-/

namespace Fifo

variable {α : Type*}

/-- What a queue is asked. -/
inductive Request (α : Type*)
  | put (items : List α)
  | get (n : ℕ)
  /-- To show the first items, or all of them. -/
  | look (n : Option ℕ)
  | skip (n : ℕ)
  | reset

inductive Reply (α : Type*)
  | amount (n : ℕ)
  | items (l : List α)
  | done

/-- The queue after a request, and its answer. -/
def serve (capacity : ℕ) (queue : List α) : Request α → List α × Reply α
  | .put items =>
    (queue ++ items.take (capacity - queue.length),
      .amount (min items.length (capacity - queue.length)))
  | .get n => (queue.drop n, .items (queue.take n))
  | .look n => (queue, .items (queue.take (n.getD queue.length)))
  | .skip n => (queue.drop n, .amount (min n queue.length))
  | .reset => ([], .done)

/-- What has been accepted and taken out since the last reset. -/
structure History (α : Type*) where
  accepted : List α := []
  taken : List α := []

namespace History

/-- The history after a request to a system that held `queue`, by the answer it has given. -/
def record (h : History α) (queue : List α) : Request α → Reply α → History α
  | .put items, .amount n => { h with accepted := h.accepted ++ items.take n }
  | .get _, .items l => { h with taken := h.taken ++ l }
  | .skip _, .amount n => { h with taken := h.taken ++ queue.take n }
  | .reset, _ => {}
  | _, _ => h

/-- Nothing is lost and nothing changes its place: what has been taken out and what is still there
are what has been accepted. -/
def Accounts (h : History α) (queue : List α) : Prop := h.taken ++ queue = h.accepted

variable {h : History α} {queue : List α}

/-- The history of a queue accounts for what it holds. -/
theorem Accounts.serve (haccounts : h.Accounts queue) (capacity : ℕ) (request : Request α) :
    (h.record queue request (serve capacity queue request).2).Accounts
      (serve capacity queue request).1 := by
  rw [Accounts] at haccounts
  cases request with
  | put items =>
    have htake : items.take (min items.length (capacity - queue.length)) =
        items.take (capacity - queue.length) := by
      rw [Nat.min_comm, ← List.take_take, List.take_length]
    rw [Fifo.serve, record, Accounts, htake, ← haccounts, List.append_assoc]
  | get n => rw [Fifo.serve, record, Accounts, List.append_assoc, List.take_append_drop, haccounts]
  | look n => exact haccounts
  | skip n =>
    have htake : queue.take (min n queue.length) = queue.take n := by
      rw [← List.take_take, List.take_length]
    rw [Fifo.serve, record, Accounts, htake, List.append_assoc, List.take_append_drop, haccounts]
  | reset => rfl

end History

section Systems

variable {σ γ : Type*} (request : γ → Request α) (perform : σ → γ → σ × Reply α)
  (queue : σ → List α)

/-- A call of a system that keeps its history. -/
def step (s : σ × History α) (call : γ) : σ × History α :=
  ((perform s.1 call).1, s.2.record (queue s.1) (request call) (perform s.1 call).2)

/-- The call does what a queue of this size does on its request. -/
def Serves (capacity : ℕ) (s : σ) (call : γ) : Prop :=
  (queue (perform s call).1, (perform s call).2) = serve capacity (queue s) (request call)

variable {request perform queue} {capacity : ℕ}

theorem accounts_step {s : σ × History α} {call : γ}
    (hserves : Serves request perform queue capacity s.1 call) (h : s.2.Accounts (queue s.1)) :
    (step request perform queue s call).2.Accounts
      (queue (step request perform queue s call).1) := by
  have hnext : queue (perform s.1 call).1 = (serve capacity (queue s.1) (request call)).1 :=
    congrArg Prod.fst hserves
  have hreply : (perform s.1 call).2 = (serve capacity (queue s.1) (request call)).2 :=
    congrArg Prod.snd hserves
  rw [step, hreply, hnext]
  exact h.serve capacity (request call)

end Systems

section Circles

variable {l data : List α} {i j n : ℕ}

def replaceRange (l : List α) (i j : ℕ) (data : List α) : List α := l.take i ++ data ++ l.drop j

theorem length_replaceRange (hj : j = i + data.length) (hle : j ≤ l.length) :
    (replaceRange l i j data).length = l.length := by
  simp only [replaceRange, List.length_append, List.length_take, List.length_drop]
  omega

theorem rotate_append_of_length {front back : List α} (h : front.length = i) :
    (front ++ back).rotate i = back ++ front := by
  rw [← h, List.rotate_append_length_eq]

/-- A circle is known from wherever it is entered. -/
theorem rotate_eq_of_rotate_add {front back : List α} (hj : j ≤ l.length)
    (h : l.rotate (i + j) = front ++ back) (hfront : front.length = l.length - j) :
    l.rotate i = back ++ front := by
  have hround : (l.rotate (i + j)).rotate (l.length - j) = l.rotate i := by
    rw [List.rotate_rotate, Nat.add_assoc, Nat.add_sub_cancel' hj, ← List.rotate_rotate]
    conv_lhs => rw [← List.length_rotate l i]
    exact List.rotate_length _
  rw [← hround, h, rotate_append_of_length hfront]

/-- The first items of a circle, where they stand in the list. -/
theorem take_rotate (hi : i ≤ l.length) (hn : n ≤ l.length) :
    (l.rotate i).take n = (l.drop i).take n ++ l.take (n - (l.length - i)) := by
  rw [List.rotate_eq_drop_append_take hi, List.take_append, List.length_drop, List.take_take,
    Nat.min_eq_left (by omega)]

/-- Data that are written into a circle in two parts, up to the end of the list and from its
beginning, are the first items of the circle from there. -/
theorem rotate_replaceRange (data : List α) (hi : i < l.length) (hdata : data.length ≤ l.length) :
    (replaceRange (replaceRange l i (i + min data.length (l.length - i))
        (data.take (min data.length (l.length - i)))) 0
      (data.length - min data.length (l.length - i))
      (data.drop (min data.length (l.length - i)))).rotate i =
      data ++ (l.rotate i).drop data.length := by
  rw [List.rotate_eq_drop_append_take hi.le]
  rcases Nat.le_total data.length (l.length - i) with hfits | hwraps
  · have hhead : (l.take i).length = i := by
      rw [List.length_take, Nat.min_eq_left hi.le]
    rw [Nat.min_eq_left hfits, List.take_length, List.drop_length, Nat.sub_self]
    have hsame : replaceRange (replaceRange l i (i + data.length) data) 0 0 [] =
        l.take i ++ (data ++ l.drop (i + data.length)) := by
      rw [replaceRange, List.take_zero, List.nil_append, List.nil_append, List.drop_zero,
        replaceRange, List.append_assoc]
    rw [hsame, List.drop_append_of_le_length (by rw [List.length_drop]; omega), List.drop_drop]
    rw [rotate_append_of_length hhead, List.append_assoc]
  · have hhead : (data.drop (l.length - i) ++ (l.take i).drop (data.length - (l.length - i))).length
        = i := by
      simp only [List.length_append, List.length_drop, List.length_take]
      omega
    rw [Nat.min_eq_right hwraps, Nat.add_sub_cancel' hi.le]
    have hsplit : replaceRange (replaceRange l i l.length (data.take (l.length - i))) 0
        (data.length - (l.length - i)) (data.drop (l.length - i)) =
        (data.drop (l.length - i) ++ (l.take i).drop (data.length - (l.length - i))) ++
          data.take (l.length - i) := by
      rw [replaceRange, List.take_zero, List.nil_append, replaceRange, List.drop_length,
        List.append_nil, List.drop_append_of_le_length (by rw [List.length_take]; omega),
        List.append_assoc]
    rw [hsplit, rotate_append_of_length hhead]
    rw [← List.append_assoc, List.take_append_drop, List.drop_append, List.length_drop,
      List.drop_of_length_le (l := l.drop i) (by rw [List.length_drop]; omega), List.nil_append]

end Circles

end Fifo

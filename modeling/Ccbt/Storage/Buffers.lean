import Ccbt.Fifo.Bounded
import Ccbt.Python.Bytes

/-!
# Buffers

`RingBuffer` and `ZeroCopyBuffer` of `storage/buffers.py` against queues of bounded size. Every
operation holds the lock of its buffer from beginning to end.
-/

namespace Ccbt

open Python Fifo Transition

namespace Storage

structure RingBuffer where
  size : Nat
  buffer : Bytes
  read_pos : Nat := 0
  write_pos : Nat := 0
  used : Nat := 0

namespace RingBuffer

def new (size : Nat) : RingBuffer := { size, buffer := List.replicate size 0 }

/-- The part of `n` octets from `pos` on that lies in front of the end. -/
def firstChunk (size pos n : Nat) : Nat := min n (size - pos)

def secondChunk (size pos n : Nat) : Nat := n - firstChunk size pos n

/-- Where a position goes over `n` octets. -/
def advance (size pos n : Nat) : Nat :=
  if secondChunk size pos n > 0 then secondChunk size pos n
  else (pos + firstChunk size pos n) % size

variable (r : RingBuffer)

/-- The buffer of `write`, with the two chunks of the data in it. -/
def copyIn (data : Bytes) (to_write : Nat) : Bytes :=
  let first_chunk := firstChunk r.size r.write_pos to_write
  let second_chunk := secondChunk r.size r.write_pos to_write
  let buffer := replaceRange r.buffer r.write_pos (r.write_pos + first_chunk)
    (data.take first_chunk)
  if second_chunk > 0 then
    replaceRange buffer 0 second_chunk ((data.drop first_chunk).take second_chunk)
  else buffer

def write (data : Bytes) : RingBuffer × Nat :=
  if data = [] then (r, 0) else
    let to_write := min data.length (r.size - r.used)
    if to_write = 0 then (r, 0) else
      ({ r with
          buffer := r.copyIn data to_write
          write_pos := advance r.size r.write_pos to_write
          used := r.used + to_write }, to_write)

/-- The `result` of `read` and `peek`, put together from the two chunks. -/
def copyOut (to_read : Nat) : Bytes :=
  let first_chunk := firstChunk r.size r.read_pos to_read
  let second_chunk := secondChunk r.size r.read_pos to_read
  let result := replaceRange (List.replicate to_read 0) 0 first_chunk
    ((r.buffer.drop r.read_pos).take first_chunk)
  if second_chunk > 0 then
    replaceRange result first_chunk result.length (r.buffer.take second_chunk)
  else result

def read (size : Nat) : RingBuffer × Bytes :=
  if r.used = 0 ∨ size = 0 then (r, []) else
    let to_read := min size r.used
    ({ r with
        read_pos := advance r.size r.read_pos to_read
        used := r.used - to_read }, r.copyOut to_read)

def peekViews (size : Option Nat) : List Bytes :=
  if r.used = 0 then [] else
    let to_read := match size with
      | none => r.used
      | some size => min size r.used
    let first_chunk := firstChunk r.size r.read_pos to_read
    let second_chunk := secondChunk r.size r.read_pos to_read
    (if first_chunk > 0 then [(r.buffer.drop r.read_pos).take first_chunk] else []) ++
      (if second_chunk > 0 then [r.buffer.take second_chunk] else [])

def consume (size : Nat) : RingBuffer × Nat :=
  if size = 0 ∨ r.used = 0 then (r, 0) else
    let to_consume := min size r.used
    ({ r with
        read_pos := advance r.size r.read_pos to_consume
        used := r.used - to_consume }, to_consume)

def peek (size : Nat) : Bytes :=
  if r.used = 0 ∨ size = 0 then [] else r.copyOut (min size r.used)

def clear : RingBuffer := { r with read_pos := 0, write_pos := 0, used := 0 }

inductive Call
  | write (data : Bytes)
  | read (size : Nat)
  | peek (size : Nat)
  | peekViews (size : Option Nat)
  | consume (size : Nat)
  | clear

def Call.request : Call → Request UInt8
  | write data => .put data
  | read size => .get size
  | peek size => .look (some size)
  | peekViews size => .look size
  | consume size => .skip size
  | clear => .reset

/-- The buffer after a call and what the call returns; of views, what is seen in them. -/
def perform : Call → RingBuffer × Reply UInt8
  | .write data => ((r.write data).1, .amount (r.write data).2)
  | .read size => ((r.read size).1, .items (r.read size).2)
  | .peek size => (r, .items (r.peek size))
  | .peekViews size => (r, .items (r.peekViews size).flatten)
  | .consume size => ((r.consume size).1, .amount (r.consume size).2)
  | .clear => (r.clear, .done)

def readable : Bytes := (r.buffer.rotate r.read_pos).take r.used

/-- What every operation keeps. -/
structure WellFormed : Prop where
  size_pos : 0 < r.size
  length_buffer : r.buffer.length = r.size
  read_pos_lt : r.read_pos < r.size
  used_le : r.used ≤ r.size
  write_pos_eq : r.write_pos = (r.read_pos + r.used) % r.size

/-- How the counter goes with the positions. -/
def PointersAgree : Prop :=
  r.used ≤ r.size ∧
    (r.write_pos = r.read_pos ∧ (r.used = 0 ∨ r.used = r.size) ∨
      r.write_pos ≠ r.read_pos ∧ (r.used : Int) = ((r.write_pos : Int) - r.read_pos) % r.size)

section Chunks

variable {size pos n : Nat}

theorem add_mod_of_lt (hpos : pos < size) (hn : n ≤ size) :
    (pos + n) % size = if pos + n < size then pos + n else pos + n - size := by
  split
  · exact Nat.mod_eq_of_lt ‹_›
  · rw [Nat.mod_eq_sub_mod (by omega), Nat.mod_eq_of_lt (by omega)]

theorem advance_eq (hpos : pos < size) (hn : n ≤ size) : advance size pos n = (pos + n) % size := by
  rw [advance, secondChunk, firstChunk]
  rcases Nat.le_total n (size - pos) with h | h
  · rw [Nat.min_eq_left h, Nat.sub_self, if_neg (Nat.lt_irrefl 0)]
  · rw [Nat.min_eq_right h, Nat.add_sub_cancel' hpos.le, Nat.mod_self, add_mod_of_lt hpos hn]
    split <;> split <;> omega

end Chunks

variable {r} {data : Bytes} {n : Nat}

theorem length_readable (hr : r.WellFormed) : r.readable.length = r.used := by
  rw [readable, List.length_take, List.length_rotate, hr.length_buffer, Nat.min_eq_left hr.used_le]

/-- The two chunks are the next octets. -/
theorem chunks_eq (hr : r.WellFormed) (hn : n ≤ r.used) :
    (r.buffer.drop r.read_pos).take (firstChunk r.size r.read_pos n) ++
      r.buffer.take (secondChunk r.size r.read_pos n) = r.readable.take n := by
  have hle : n ≤ r.buffer.length := hr.length_buffer ▸ hn.trans hr.used_le
  have hpos : r.read_pos ≤ r.buffer.length := hr.length_buffer ▸ hr.read_pos_lt.le
  have hdrop : (r.buffer.drop r.read_pos).length = r.size - r.read_pos := by
    rw [List.length_drop, hr.length_buffer]
  rw [readable, List.take_take, Nat.min_eq_left hn, take_rotate hpos hle, secondChunk, firstChunk,
    hr.length_buffer, ← hdrop]
  congr 1
  · rw [← List.take_take, List.take_length]
  · congr 1
    omega

theorem copyOut_eq (hr : r.WellFormed) (hn : n ≤ r.used) : r.copyOut n = r.readable.take n := by
  have hfirst : ((r.buffer.drop r.read_pos).take (firstChunk r.size r.read_pos n)).length =
      firstChunk r.size r.read_pos n := by
    rw [List.length_take, List.length_drop, hr.length_buffer, firstChunk]
    omega
  have hresult : replaceRange (List.replicate n 0) 0 (firstChunk r.size r.read_pos n)
      ((r.buffer.drop r.read_pos).take (firstChunk r.size r.read_pos n)) =
      (r.buffer.drop r.read_pos).take (firstChunk r.size r.read_pos n) ++
        List.replicate (secondChunk r.size r.read_pos n) 0 := by
    rw [replaceRange, List.take_zero, List.nil_append, List.drop_replicate, secondChunk]
  rw [← chunks_eq hr hn, copyOut]
  simp only [hresult]
  by_cases hsecond : secondChunk r.size r.read_pos n > 0
  · rw [if_pos hsecond, replaceRange, List.take_left' hfirst, List.drop_length, List.append_nil]
  · rw [if_neg hsecond, Nat.eq_zero_of_not_pos hsecond, List.replicate_zero, List.take_zero]

theorem readable_eq_nil (h : r.used = 0) : r.readable = [] := by
  rw [readable, h, List.take_zero]

theorem circle_eq (r : RingBuffer) :
    r.buffer.rotate r.read_pos = r.readable ++ (r.buffer.rotate r.read_pos).drop r.used :=
  (List.take_append_drop _ _).symm

/-- The circle from where the next octets are written. -/
theorem circle_write_pos (hr : r.WellFormed) : r.buffer.rotate r.write_pos =
    (r.buffer.rotate r.read_pos).drop r.used ++ r.readable := by
  rw [hr.write_pos_eq, ← hr.length_buffer, List.rotate_mod, ← List.rotate_rotate, circle_eq r,
    rotate_append_of_length (length_readable hr), ← circle_eq r]

theorem wellFormed_new {size : Nat} (hsize : 0 < size) : (new size).WellFormed where
  size_pos := hsize
  length_buffer := List.length_replicate
  read_pos_lt := hsize
  used_le := Nat.zero_le size
  write_pos_eq := (Nat.zero_mod size).symm

theorem WellFormed.pointersAgree (hr : r.WellFormed) : r.PointersAgree := by
  have hpos := hr.read_pos_lt
  have hused := hr.used_le
  have hwrite := hr.write_pos_eq
  rw [add_mod_of_lt hpos hused] at hwrite
  refine ⟨hused, ?_⟩
  by_cases hmeet : r.write_pos = r.read_pos
  · refine .inl ⟨hmeet, ?_⟩
    split at hwrite <;> omega
  · refine .inr ⟨hmeet, ?_⟩
    have hlt : r.used < r.size := by
      split at hwrite <;> omega
    rw [hr.write_pos_eq, Int.natCast_mod, Int.emod_sub_emod, Nat.cast_add, add_sub_cancel_left,
      Int.emod_eq_of_lt (Int.natCast_nonneg _) (Int.ofNat_lt.mpr hlt)]

section Operations

/-- The buffer once `n` of its octets have been taken. -/
def dropped (r : RingBuffer) (n : Nat) : RingBuffer :=
  { r with read_pos := advance r.size r.read_pos n, used := r.used - n }

theorem wellFormed_dropped (hr : r.WellFormed) (hn : n ≤ r.used) : (r.dropped n).WellFormed where
  size_pos := hr.size_pos
  length_buffer := hr.length_buffer
  read_pos_lt := by
    show advance r.size r.read_pos n < r.size
    rw [advance_eq hr.read_pos_lt (hn.trans hr.used_le)]
    exact Nat.mod_lt _ hr.size_pos
  used_le := (Nat.sub_le _ _).trans hr.used_le
  write_pos_eq := by
    show r.write_pos = (advance r.size r.read_pos n + (r.used - n)) % r.size
    rw [advance_eq hr.read_pos_lt (hn.trans hr.used_le), Nat.mod_add_mod, Nat.add_assoc,
      Nat.add_sub_cancel' hn, hr.write_pos_eq]

theorem readable_dropped (hr : r.WellFormed) (hn : n ≤ r.used) :
    (r.dropped n).readable = r.readable.drop n := by
  have hhead : (r.readable.take n).length = n := by
    rw [List.length_take, length_readable hr, Nat.min_eq_left hn]
  have hrest : (r.readable.drop n).length = r.used - n := by
    rw [List.length_drop, length_readable hr]
  show (r.buffer.rotate (advance r.size r.read_pos n)).take (r.used - n) = _
  rw [advance_eq hr.read_pos_lt (hn.trans hr.used_le), ← hr.length_buffer, List.rotate_mod,
    ← List.rotate_rotate, circle_eq r]
  conv_lhs => rw [← List.take_append_drop n r.readable, List.append_assoc]
  rw [rotate_append_of_length hhead, List.append_assoc, List.take_left' hrest]

theorem dropped_zero (hr : r.WellFormed) : r.dropped 0 = r := by
  rw [dropped, advance_eq hr.read_pos_lt (Nat.zero_le _), Nat.add_zero,
    Nat.mod_eq_of_lt hr.read_pos_lt, Nat.sub_zero]

theorem take_min_used (hr : r.WellFormed) (n : Nat) :
    r.readable.take (min n r.used) = r.readable.take n := by
  rw [← List.take_take, ← length_readable hr, List.take_length]

theorem drop_min_used (hr : r.WellFormed) (n : Nat) :
    r.readable.drop (min n r.used) = r.readable.drop n := by
  rcases Nat.le_total n r.used with h | h
  · rw [Nat.min_eq_left h]
  · rw [Nat.min_eq_right h, List.drop_of_length_le (length_readable hr).le,
      List.drop_of_length_le ((length_readable hr).trans_le h)]

/-- Nothing is read. -/
theorem take_eq_nil (hr : r.WellFormed) (h : r.used = 0 ∨ n = 0) : r.readable.take n = [] := by
  rcases h with h | rfl
  · rw [List.eq_nil_of_length_eq_zero ((length_readable hr).trans h), List.take_nil]
  · exact List.take_zero

theorem read_eq (hr : r.WellFormed) (n : Nat) :
    r.read n = (r.dropped (min n r.used), r.readable.take n) := by
  rw [read]
  split
  · have hzero : min n r.used = 0 := by omega
    rw [hzero, dropped_zero hr, take_eq_nil hr ‹_›]
  · rw [← take_min_used hr]
    exact Prod.ext rfl (copyOut_eq hr (Nat.min_le_right _ _))

theorem peek_eq (hr : r.WellFormed) (n : Nat) : r.peek n = r.readable.take n := by
  rw [peek]
  split
  · exact (take_eq_nil hr ‹_›).symm
  · rw [copyOut_eq hr (Nat.min_le_right _ _), take_min_used hr]

theorem consume_eq (hr : r.WellFormed) (n : Nat) :
    r.consume n = (r.dropped (min n r.used), min n r.used) := by
  rw [consume]
  split
  · have hzero : min n r.used = 0 := by omega
    rw [hzero, dropped_zero hr]
  · rfl

theorem flatten_peekViews (hr : r.WellFormed) (n : Option Nat) :
    (r.peekViews n).flatten = r.readable.take (n.getD r.used) := by
  unfold peekViews
  split
  · exact (take_eq_nil hr (.inl ‹_›)).symm
  · have hviews (k : Nat) (hk : k ≤ r.used) :
        ((if firstChunk r.size r.read_pos k > 0 then
            [(r.buffer.drop r.read_pos).take (firstChunk r.size r.read_pos k)] else []) ++
          (if secondChunk r.size r.read_pos k > 0 then
            [r.buffer.take (secondChunk r.size r.read_pos k)] else [])).flatten =
          r.readable.take k := by
      rw [← chunks_eq hr hk, List.flatten_append]
      congr 1 <;> split <;> simp_all
    cases n with
    | none => exact hviews r.used le_rfl
    | some n => exact (hviews _ (Nat.min_le_right _ _)).trans (take_min_used hr n)

/-- The circle from the write position, with the new octets in front. -/
theorem rotate_copyIn (hr : r.WellFormed) (hdata : n ≤ data.length) (hn : n ≤ r.size - r.used) :
    (r.copyIn data n).rotate r.write_pos =
      data.take n ++ (r.buffer.rotate r.write_pos).drop n := by
  have hpos : r.write_pos < r.buffer.length := by
    rw [hr.length_buffer, hr.write_pos_eq]
    exact Nat.mod_lt _ hr.size_pos
  have hlength : (data.take n).length = n := by
    rw [List.length_take, Nat.min_eq_left hdata]
  have hcircle := rotate_replaceRange (data.take n) hpos
    (by rw [hlength, hr.length_buffer]; omega)
  rw [hlength, hr.length_buffer] at hcircle
  rw [← hcircle, copyIn, secondChunk, firstChunk]
  simp only [List.take_take, List.drop_take]
  rw [Nat.min_eq_left (Nat.min_le_left n _)]
  by_cases hsecond : n - min n (r.size - r.write_pos) > 0
  · rw [if_pos hsecond]
  · rw [if_neg hsecond, Nat.eq_zero_of_not_pos hsecond]
    simp [replaceRange]

theorem length_copyIn (hr : r.WellFormed) (hdata : n ≤ data.length) (hn : n ≤ r.size - r.used) :
    (r.copyIn data n).length = r.size := by
  have h := congrArg List.length (rotate_copyIn hr hdata hn)
  rw [List.length_rotate, List.length_append, List.length_take, List.length_drop,
    List.length_rotate, hr.length_buffer, Nat.min_eq_left hdata] at h
  omega

/-- The buffer once `n` octets of the data have been put into it. -/
def extended (r : RingBuffer) (data : Bytes) (n : Nat) : RingBuffer :=
  { r with
    buffer := r.copyIn data n
    write_pos := advance r.size r.write_pos n
    used := r.used + n }

theorem wellFormed_extended (hr : r.WellFormed) (hdata : n ≤ data.length)
    (hn : n ≤ r.size - r.used) : (r.extended data n).WellFormed where
  size_pos := hr.size_pos
  length_buffer := length_copyIn hr hdata hn
  read_pos_lt := hr.read_pos_lt
  used_le := by
    have hused := hr.used_le
    show r.used + n ≤ r.size
    omega
  write_pos_eq := by
    have hpos : r.write_pos < r.size := by
      rw [hr.write_pos_eq]
      exact Nat.mod_lt _ hr.size_pos
    show advance r.size r.write_pos n = (r.read_pos + (r.used + n)) % r.size
    rw [advance_eq hpos (by omega), hr.write_pos_eq, Nat.mod_add_mod, Nat.add_assoc]

theorem readable_extended (hr : r.WellFormed) (hdata : n ≤ data.length)
    (hn : n ≤ r.size - r.used) : (r.extended data n).readable = r.readable ++ data.take n := by
  have hused := hr.used_le
  have hfree : ((r.buffer.rotate r.read_pos).drop r.used).length = r.size - r.used := by
    rw [List.length_drop, List.length_rotate, hr.length_buffer]
  have hrotated := rotate_copyIn hr hdata hn
  rw [circle_write_pos hr, List.drop_append_of_le_length (hfree ▸ hn), ← List.append_assoc,
    hr.write_pos_eq] at hrotated
  have hlength := length_copyIn hr hdata hn
  conv_lhs at hrotated => rw [← hlength, List.rotate_mod]
  have hfront : (data.take n ++ ((r.buffer.rotate r.read_pos).drop r.used).drop n).length =
      (r.copyIn data n).length - r.used := by
    rw [List.length_append, List.length_take, List.length_drop, hfree, hlength]
    omega
  have hround := rotate_eq_of_rotate_add (hlength ▸ hused) hrotated hfront
  show ((r.copyIn data n).rotate r.read_pos).take (r.used + n) = _
  have hkept : (r.readable ++ data.take n).length = r.used + n := by
    rw [List.length_append, length_readable hr, List.length_take, Nat.min_eq_left hdata]
  rw [hround, ← List.append_assoc, List.take_left' hkept]

theorem extended_zero (hr : r.WellFormed) (data : Bytes) : r.extended data 0 = r := by
  have hpos : r.write_pos < r.size := by
    rw [hr.write_pos_eq]
    exact Nat.mod_lt _ hr.size_pos
  have hbuffer : r.copyIn data 0 = r.buffer := by
    simp [copyIn, secondChunk, firstChunk, replaceRange]
  rw [extended, hbuffer, advance_eq hpos (Nat.zero_le _), Nat.add_zero, Nat.mod_eq_of_lt hpos,
    Nat.add_zero]

/-- What is written is what fits. -/
theorem write_eq (hr : r.WellFormed) (data : Bytes) :
    r.write data = (r.extended data (min data.length (r.size - r.used)),
      min data.length (r.size - r.used)) := by
  rw [write]
  split
  · have hzero : min data.length (r.size - r.used) = 0 := by
      subst data
      exact Nat.zero_min _
    rw [hzero, extended_zero hr]
  · simp only
    split
    · rw [‹min data.length (r.size - r.used) = 0›, extended_zero hr]
    · rfl

end Operations

section Refinement

theorem wellFormed_perform (hr : r.WellFormed) (call : Call) : (r.perform call).1.WellFormed := by
  cases call with
  | write data =>
    rw [perform, write_eq hr]
    exact wellFormed_extended hr (Nat.min_le_left _ _) (Nat.min_le_right _ _)
  | read n =>
    rw [perform, read_eq hr]
    exact wellFormed_dropped hr (Nat.min_le_right _ _)
  | peek n => exact hr
  | peekViews n => exact hr
  | consume n =>
    rw [perform, consume_eq hr]
    exact wellFormed_dropped hr (Nat.min_le_right _ _)
  | clear => exact ⟨hr.size_pos, hr.length_buffer, hr.size_pos, Nat.zero_le _, (Nat.zero_mod _).symm⟩

theorem size_perform (hr : r.WellFormed) (call : Call) : (r.perform call).1.size = r.size := by
  cases call with
  | write data =>
    rw [perform, write_eq hr]
    rfl
  | read n =>
    rw [perform, read_eq hr]
    rfl
  | peek n => rfl
  | peekViews n => rfl
  | consume n =>
    rw [perform, consume_eq hr]
    rfl
  | clear => rfl

/-- Every call does what the bounded queue does. -/
theorem serves (hr : r.WellFormed) (call : Call) :
    Serves Call.request perform readable r.size r call := by
  have hlength := length_readable hr
  cases call with
  | write data =>
    rw [Serves, perform, write_eq hr, Call.request, serve, hlength,
      readable_extended hr (Nat.min_le_left _ _) (Nat.min_le_right _ _), Nat.min_comm,
      ← List.take_take, List.take_length]
  | read n =>
    rw [Serves, perform, read_eq hr, Call.request, serve,
      readable_dropped hr (Nat.min_le_right _ _), drop_min_used hr]
  | peek n => rw [Serves, perform, peek_eq hr, Call.request, serve, Option.getD_some]
  | peekViews n => rw [Serves, perform, flatten_peekViews hr, Call.request, serve, hlength]
  | consume n =>
    rw [Serves, perform, consume_eq hr, Call.request, serve,
      readable_dropped hr (Nat.min_le_right _ _), drop_min_used hr, hlength]
  | clear => exact Prod.ext (readable_eq_nil rfl) rfl

/-- In every run every call of a ring buffer is served as by a bounded queue, the history accounts
for what is readable, and the counter goes with the positions. -/
theorem refines_queue {size : Nat} (hsize : 1 ≤ size) (calls : List Call) :
    StepsMeet (step Call.request perform readable)
        (fun s call => Serves Call.request perform readable size s.1 call) (new size, {}) calls ∧
      Always (step Call.request perform readable)
        (fun s => s.2.Accounts s.1.readable ∧ s.1.PointersAgree) (new size, {}) calls := by
  let Inv (s : RingBuffer × History UInt8) : Prop :=
    s.1.WellFormed ∧ s.1.size = size ∧ s.2.Accounts s.1.readable
  have h0 : Inv (new size, {}) := ⟨wellFormed_new hsize, rfl, readable_eq_nil rfl⟩
  have hserves (s : RingBuffer × History UInt8) (call : Call) (hs : Inv s) :
      Serves Call.request perform readable size s.1 call := hs.2.1 ▸ serves hs.1 call
  have hstep (s : RingBuffer × History UInt8) (call : Call) (hs : Inv s) :
      Inv (step Call.request perform readable s call) :=
    ⟨wellFormed_perform hs.1 call, (size_perform hs.1 call).trans hs.2.1,
      accounts_step (hserves s call hs) hs.2.2⟩
  constructor
  · exact stepsMeet_of_invariant hstep hserves h0 calls
  · exact (always_of_invariant hstep h0 calls).mono fun s hs => ⟨hs.2.2, hs.1.pointersAgree⟩

theorem refines_queue_of_three : 1 ≤ 3 ∧
    StepsMeet (step Call.request perform readable)
        (fun s call => Serves Call.request perform readable 3 s.1 call) (new 3, {})
        [.write [1, 2], .read 1, .write [3, 4, 5], .peekViews none] ∧
      Always (step Call.request perform readable)
        (fun s => s.2.Accounts s.1.readable ∧ s.1.PointersAgree) (new 3, {})
        [.write [1, 2], .read 1, .write [3, 4, 5], .peekViews none] :=
  ⟨by decide, refines_queue (by decide) _⟩

example : ((((new 3).write [1, 2]).1.read 1).1.write [3, 4, 5]).1.peekViews none = [[2, 3], [4]] := by
  decide

end Refinement

end RingBuffer

structure ZeroCopyBuffer where
  size : Nat
  buffer : Bytes
  pos : Nat := 0

/-- A view: of no octets at all, or of the first octets of the storage. -/
inductive View
  | empty
  | front (n : Nat)

/-- What is seen in a view while the storage holds these octets. -/
def View.contents (storage : Bytes) : View → Bytes
  | empty => []
  | front n => storage.take n

namespace ZeroCopyBuffer

def new (size : Nat) : ZeroCopyBuffer := { size, buffer := List.replicate size 0 }

variable (b : ZeroCopyBuffer)

def write (data : Bytes) : ZeroCopyBuffer × Nat :=
  if data = [] then (b, 0) else
    let to_write := min data.length (b.size - b.pos)
    if to_write = 0 then (b, 0) else
      ({ b with
          buffer := replaceRange b.buffer b.pos (b.pos + to_write) (data.take to_write)
          pos := b.pos + to_write }, to_write)

/-- The view is taken before what remains is moved to the front of the storage. -/
def read (size : Nat) : ZeroCopyBuffer × View :=
  if size = 0 ∨ b.pos = 0 then (b, .empty) else
    let to_read := min size b.pos
    let pos := b.pos - to_read
    ({ b with
        buffer := if pos > 0 then
            replaceRange b.buffer 0 pos ((b.buffer.drop to_read).take pos)
          else b.buffer
        pos }, .front to_read)

def peek (size : Nat) : View :=
  if size = 0 ∨ b.pos = 0 then .empty else .front (min size b.pos)

def clear : ZeroCopyBuffer := { b with pos := 0 }

inductive Call
  | write (data : Bytes)
  | read (size : Nat)
  | peek (size : Nat)
  | clear

def Call.request : Call → Request UInt8
  | write data => .put data
  | read size => .get size
  | peek size => .look (some size)
  | clear => .reset

/-- The buffer after a call and what the call returns; of a view, what is seen in it then. -/
def perform : Call → ZeroCopyBuffer × Reply UInt8
  | .write data => ((b.write data).1, .amount (b.write data).2)
  | .read size => ((b.read size).1, .items ((b.read size).2.contents (b.read size).1.buffer))
  | .peek size => (b, .items ((b.peek size).contents b.buffer))
  | .clear => (b.clear, .done)

def readable : Bytes := b.buffer.take b.pos

structure WellFormed : Prop where
  length_buffer : b.buffer.length = b.size
  pos_le : b.pos ≤ b.size

/-- What remains and is moved over the octets that are read are the same octets. -/
def Undisturbed (n : Nat) : Prop :=
  (b.readable.drop n).take n = b.readable.take (min n (b.readable.length - n))

/-- Octets are read only where they are not disturbed. -/
def Meets : Call → Prop
  | .read n => b.Undisturbed n
  | _ => True

variable {b} {n : Nat}

theorem length_readable (hb : b.WellFormed) : b.readable.length = b.pos := by
  rw [readable, List.length_take, hb.length_buffer, Nat.min_eq_left hb.pos_le]

theorem wellFormed_new (size : Nat) : (new size).WellFormed :=
  ⟨List.length_replicate, Nat.zero_le _⟩

theorem take_min_pos (hb : b.WellFormed) (n : Nat) :
    b.readable.take (min n b.pos) = b.readable.take n := by
  rw [← List.take_take, ← length_readable hb, List.take_length]

theorem peek_contents (hb : b.WellFormed) (n : Nat) :
    (b.peek n).contents b.buffer = b.readable.take n := by
  rw [peek]
  split
  · rcases ‹n = 0 ∨ b.pos = 0› with rfl | h
    · exact List.take_zero.symm
    · rw [readable, h, List.take_zero, List.take_nil]
      rfl
  · rw [← take_min_pos hb, readable, List.take_take, Nat.min_eq_left (Nat.min_le_right _ _)]
    rfl

section Writing

theorem write_spec (hb : b.WellFormed) (data : Bytes) :
    (b.write data).1.WellFormed ∧ (b.write data).1.size = b.size ∧
      (b.write data).2 = min data.length (b.size - b.pos) ∧
      (b.write data).1.readable = b.readable ++ data.take (min data.length (b.size - b.pos)) := by
  have hnothing (h : min data.length (b.size - b.pos) = 0) :
      b.WellFormed ∧ b.size = b.size ∧ 0 = min data.length (b.size - b.pos) ∧
        b.readable = b.readable ++ data.take (min data.length (b.size - b.pos)) := by
    rw [h, List.take_zero, List.append_nil]
    exact ⟨hb, rfl, rfl, rfl⟩
  have hpos := hb.pos_le
  rw [write]
  split
  · subst data
    exact hnothing (Nat.zero_min _)
  · simp only
    split
    · exact hnothing ‹_›
    · have hlength : (data.take (min data.length (b.size - b.pos))).length =
          min data.length (b.size - b.pos) := by
        rw [List.length_take]
        omega
      have hbuffer : (replaceRange b.buffer b.pos (b.pos + min data.length (b.size - b.pos))
          (data.take (min data.length (b.size - b.pos)))).length = b.buffer.length :=
        length_replaceRange (by rw [hlength]) (by rw [hb.length_buffer]; omega)
      refine ⟨⟨hbuffer.trans hb.length_buffer, ?_⟩, rfl, rfl, ?_⟩
      · show b.pos + _ ≤ b.size
        omega
      · have hhead : (b.readable ++ data.take (min data.length (b.size - b.pos))).length =
            b.pos + min data.length (b.size - b.pos) := by
          rw [List.length_append, length_readable hb, hlength]
        exact List.take_left' hhead

end Writing

section Reading

/-- The storage after a read: what remains, and what stood behind. -/
theorem buffer_read (b : ZeroCopyBuffer) (n : Nat) :
    (b.read n).1.buffer = b.readable.drop n ++ b.buffer.drop (b.pos - n) := by
  rw [read]
  split
  · rcases ‹n = 0 ∨ b.pos = 0› with rfl | h
    · exact (List.take_append_drop _ _).symm
    · rw [readable, h, List.take_zero, List.drop_nil, Nat.zero_sub, List.drop_zero, List.nil_append]
  · show (if b.pos - min n b.pos > 0 then _ else _) = _
    rcases Nat.lt_or_ge n b.pos with h | h
    · rw [Nat.min_eq_left h.le, if_pos (Nat.sub_pos_of_lt h), replaceRange, List.take_zero,
        List.nil_append, readable, List.drop_take]
    · rw [Nat.min_eq_right h, Nat.sub_self, if_neg (Nat.lt_irrefl 0), readable, List.drop_take,
        Nat.sub_eq_zero_of_le h, List.take_zero, List.drop_zero, List.nil_append]

theorem pos_read (b : ZeroCopyBuffer) (n : Nat) : (b.read n).1.pos = b.pos - n := by
  rw [read]
  split
  · show b.pos = b.pos - n
    omega
  · show b.pos - min n b.pos = _
    omega

theorem size_read (b : ZeroCopyBuffer) (n : Nat) : (b.read n).1.size = b.size := by
  rw [read]
  split <;> rfl

/-- What is seen in the view that a read returns. -/
theorem contents_read (b : ZeroCopyBuffer) (n : Nat) :
    (b.read n).2.contents (b.read n).1.buffer =
      (b.readable.drop n ++ b.buffer.drop (b.pos - n)).take (min n b.pos) := by
  rw [buffer_read, read]
  split
  · have hzero : min n b.pos = 0 := by omega
    rw [hzero, List.take_zero]
    rfl
  · rfl

theorem length_rest (hb : b.WellFormed) (n : Nat) : (b.readable.drop n).length = b.pos - n := by
  rw [List.length_drop, length_readable hb]

theorem wellFormed_read (hb : b.WellFormed) (n : Nat) : (b.read n).1.WellFormed where
  length_buffer := by
    have hpos := hb.pos_le
    rw [buffer_read, List.length_append, length_rest hb, List.length_drop, hb.length_buffer,
      size_read]
    omega
  pos_le := by
    rw [pos_read, size_read]
    exact (Nat.sub_le _ _).trans hb.pos_le

/-- What remains stays readable, in order. -/
theorem readable_read (hb : b.WellFormed) (n : Nat) :
    (b.read n).1.readable = b.readable.drop n := by
  rw [readable, buffer_read, pos_read, List.take_left' (length_rest hb n)]

/-- A read shows the octets that were next exactly when they are not disturbed. -/
theorem contents_read_iff (hb : b.WellFormed) (n : Nat) :
    (b.read n).2.contents (b.read n).1.buffer = b.readable.take n ↔ b.Undisturbed n := by
  have hrest := length_rest hb n
  rw [contents_read, Undisturbed, length_readable hb, ← take_min_pos hb n, List.take_append, hrest]
  rcases Nat.lt_or_ge (b.pos - n) n with hlong | hshort
  · have hrest_all : (b.readable.drop n).take n = b.readable.drop n :=
      List.take_of_length_le (by omega)
    have hrest_all' : (b.readable.drop n).take (min n b.pos) = b.readable.drop n :=
      List.take_of_length_le (by omega)
    have hsplit : b.readable.take (min n b.pos) = b.readable.take (b.pos - n) ++
        (b.buffer.drop (b.pos - n)).take (min n b.pos - (b.pos - n)) := by
      rw [readable, List.take_take, List.take_take, Nat.min_eq_left (Nat.min_le_right _ _),
        Nat.min_eq_left (Nat.sub_le _ _), ← List.take_add]
      congr 1
      omega
    rw [hrest_all, hrest_all', hsplit, List.append_left_inj, Nat.min_eq_right (by omega)]
  · -- the view ends in front of where the rest has been moved from
    have hn : min n b.pos = n := by omega
    rw [hn, Nat.sub_eq_zero_of_le (by omega), List.take_zero, List.append_nil,
      Nat.min_eq_left (by omega)]

end Reading

section Refinement

theorem wellFormed_perform (hb : b.WellFormed) (call : Call) : (b.perform call).1.WellFormed := by
  cases call with
  | write data => exact (write_spec hb data).1
  | read n => exact wellFormed_read hb n
  | peek n => exact hb
  | clear => exact ⟨hb.length_buffer, Nat.zero_le _⟩

/-- A call that does not disturb what it reads does what the bounded queue does. -/
theorem serves (hb : b.WellFormed) {call : Call} (hmeets : b.Meets call) :
    Serves Call.request perform readable b.size b call := by
  have hlength := length_readable hb
  cases call with
  | write data =>
    obtain ⟨-, -, haccepted, hreadable⟩ := write_spec hb data
    rw [Serves, perform, Call.request, serve, haccepted, hreadable, hlength, Nat.min_comm,
      ← List.take_take, List.take_length]
  | read n =>
    rw [Serves, perform, Call.request, serve, readable_read hb, (contents_read_iff hb n).mpr hmeets]
  | peek n => rw [Serves, perform, peek_contents hb, Call.request, serve, Option.getD_some]
  | clear =>
    rw [Serves, perform, Call.request, serve, readable, clear, List.take_zero]

/-- What has been seen and what is readable are what has been accepted, in every state of a run,
exactly when no read disturbs what it shows. -/
theorem always_accounts_iff (size : Nat) (calls : List Call) :
    Always (step Call.request perform readable) (fun s => s.2.Accounts s.1.readable)
        (new size, {}) calls ↔
      StepsMeet (step Call.request perform readable) (fun s call => s.1.Meets call)
        (new size, {}) calls := by
  have hkept (s : ZeroCopyBuffer × History UInt8)
      (hs : s.1.WellFormed ∧ s.2.Accounts s.1.readable) : s.2.Accounts s.1.readable := hs.2
  apply always_iff_stepsMeet_of hkept
  · rintro ⟨b, h⟩ call ⟨hb, haccounts⟩ hnext
    cases call with
    | read n =>
      replace hnext : (h.taken ++ (b.read n).2.contents (b.read n).1.buffer) ++
          (b.read n).1.readable = h.accepted := hnext
      rw [readable_read hb, ← (haccounts : h.taken ++ b.readable = h.accepted), List.append_assoc,
        List.append_cancel_left_eq] at hnext
      conv_rhs at hnext => rw [← List.take_append_drop n b.readable]
      exact (contents_read_iff hb n).mp (List.append_cancel_right hnext)
    | write data => trivial
    | peek n => trivial
    | clear => trivial
  · rintro s call ⟨hb, haccounts⟩ hmeets
    exact ⟨wellFormed_perform hb call, accounts_step (serves hb hmeets) haccounts⟩
  · exact ⟨wellFormed_new size, rfl⟩

/-- Two octets are written and the first one is read. -/
def readOne : List Call := [.write [1, 2], .read 1]

/-- The read shows the second octet. -/
theorem not_always_accounts_readOne :
    ¬Always (step Call.request perform readable) (fun s => s.2.Accounts s.1.readable)
      (new 4, {}) readOne := by
  intro h
  have hlast := always_iff_take.mp h 2
  revert hlast
  unfold History.Accounts
  decide

end Refinement

end ZeroCopyBuffer

/-- An object as `put` of a pool sees it: a byte array, an object with a `clear`, or neither. -/
inductive Pooled (β : Type*)
  | octets (data : Bytes)
  | clearable (state : β)
  | plain (state : β)

namespace Pooled

variable {β : Type*}

/-- The state in which `put` leaves an object that it keeps. -/
def reset (clear : β → β) : Pooled β → Pooled β
  | octets data => octets (List.replicate data.length 0)
  | clearable state => clearable (clear state)
  | plain state => plain state

/-- An object after its holder has worked on it: it stays of its kind. -/
def changedTo : Pooled β → Pooled β → Pooled β
  | octets _, octets data => octets data
  | clearable _, clearable state => clearable state
  | plain _, plain state => plain state
  | object, _ => object

end Pooled

structure BufferStats where
  total_allocations : Int := 0
  total_deallocations : Int := 0
  peak_usage : Int := 0
  current_usage : Int := 0
  cache_hits : Int := 0
  cache_misses : Int := 0

/-- A pool holds references: an object is named by its place among all objects that there are. -/
structure MemoryPool (β : Type*) where
  size : Nat
  count : Nat
  /-- The state in which the factory makes an object. -/
  factory : Pooled β
  pool : List Nat := []
  stats : BufferStats := {}

namespace MemoryPool

variable {β : Type*}

/-- A pool with the objects that it has made: the first ones that there are. -/
def new (size count : Nat) (factory : Option (Pooled β)) : MemoryPool β × List (Pooled β) :=
  let made := factory.getD (.octets (List.replicate size 0))
  ({ size, count, factory := made, pool := List.range count
     stats := { total_allocations := count } }, List.replicate count made)

variable (m : MemoryPool β) (objects : List (Pooled β))

/-- The pool and the objects behind `get`, and the object that it hands out. -/
def get : MemoryPool β × List (Pooled β) × Nat :=
  let current_usage := m.stats.current_usage + 1
  let peak_usage := max m.stats.peak_usage current_usage
  match m.pool with
  | obj :: pool =>
    ({ m with pool, stats := { m.stats with
        cache_hits := m.stats.cache_hits + 1, current_usage, peak_usage } }, objects, obj)
  | [] =>
    ({ m with stats := { m.stats with
        cache_misses := m.stats.cache_misses + 1
        total_allocations := m.stats.total_allocations + 1
        current_usage, peak_usage } }, objects ++ [m.factory], objects.length)

def put (clear : β → β) (obj : Nat) : MemoryPool β × List (Pooled β) :=
  let stats := { m.stats with
    current_usage := m.stats.current_usage - 1
    total_deallocations := m.stats.total_deallocations + 1 }
  if m.pool.length < m.count then
    ({ m with pool := m.pool ++ [obj], stats }, objects.modify obj (Pooled.reset clear))
  -- what does not fit is left as it is
  else ({ m with stats }, objects)

end MemoryPool

/-- A pool among its clients: all objects, and the ones that clients have been handed and have not
put back. -/
structure Lending (β : Type*) where
  pool : MemoryPool β
  objects : List (Pooled β)
  held : List Nat := []

namespace Lending

variable {β : Type*}

def start (size count : Nat) (factory : Option (Pooled β)) : Lending β :=
  { pool := (MemoryPool.new size count factory).1, objects := (MemoryPool.new size count factory).2 }

/-- What clients do: besides the calls of the pool, they work on any object that they can still
reach, and make objects of their own. -/
inductive Call (β : Type*)
  | get
  | put (obj : Nat)
  | change (obj : Nat) (content : Pooled β)
  | make (content : Pooled β)

def step (clear : β → β) (s : Lending β) : Call β → Lending β
  | .get =>
    let handed := s.pool.get s.objects
    { pool := handed.1, objects := handed.2.1, held := handed.2.2 :: s.held }
  | .put obj =>
    let taken := s.pool.put s.objects clear obj
    { pool := taken.1, objects := taken.2, held := s.held.erase obj }
  | .change obj content => { s with objects := s.objects.modify obj (·.changedTo content) }
  | .make content => { s with objects := s.objects ++ [content] }

variable (s : Lending β)

/-- Nothing is in the pool twice or while a client holds it, what is in the pool is as if just made,
and the numbers tell what has happened. -/
structure Sound : Prop where
  exclusive : (s.held ++ s.pool.pool).Nodup
  fresh : ∀ obj ∈ s.pool.pool, s.objects[obj]? = some s.pool.factory
  fits : s.pool.pool.length ≤ s.pool.count
  usage : s.pool.stats.current_usage = s.held.length
  peak : s.pool.stats.current_usage ≤ s.pool.stats.peak_usage
  returned : s.pool.stats.cache_hits + s.pool.stats.cache_misses =
    s.pool.stats.total_deallocations + s.held.length
  allocated : s.pool.stats.total_allocations = s.pool.count + s.pool.stats.cache_misses

/-- What `get` would hand out is in nobody's hands and as if just made, and no object that there is
changes. -/
def Delivers : Prop :=
  let handed := s.pool.get s.objects
  handed.2.2 ∉ s.held ∧ handed.2.1[handed.2.2]? = some s.pool.factory ∧ s.objects <+: handed.2.1

/-- A client puts back only what it holds, in a state that `reset` takes back to a new one if the
pool keeps the object; and leaves alone what is in the pool. -/
def Careful (clear : β → β) : Call β → Prop
  | .put obj => obj ∈ s.held ∧ (s.pool.pool.length < s.pool.count →
      (s.objects[obj]?).map (Pooled.reset clear) = some s.pool.factory)
  | .change obj content => obj ∈ s.pool.pool → s.pool.factory.changedTo content = s.pool.factory
  | .get => True
  | .make _ => True

/-- The invariant: beside soundness, what clients hold is among the objects that there are. -/
structure Kept (s : Lending β) : Prop extends s.Sound where
  known : ∀ obj ∈ s.held, obj < s.objects.length

variable {s : Lending β} {clear : β → β}

theorem kept_start (size count : Nat) (factory : Option (Pooled β)) :
    (start size count factory).Kept where
  exclusive := List.nodup_range
  fresh obj hobj := by
    apply List.getElem?_eq_some_iff.mpr
    simpa [start, MemoryPool.new] using hobj
  fits := List.length_range.le
  usage := rfl
  peak := le_rfl
  returned := rfl
  allocated := (Int.add_zero _).symm
  known obj hobj := absurd hobj List.not_mem_nil

theorem Kept.lt_of_mem_pool (hs : s.Kept) {obj : Nat} (hobj : obj ∈ s.pool.pool) :
    obj < s.objects.length :=
  (List.getElem?_eq_some_iff.mp (hs.fresh obj hobj)).1

theorem Kept.delivers (hs : s.Kept) : s.Delivers := by
  cases hpool : s.pool.pool with
  | cons obj pool =>
    have hmem : obj ∈ s.pool.pool := by simp [hpool]
    simp only [Delivers, MemoryPool.get, hpool]
    refine ⟨fun hheld => ?_, hs.fresh obj hmem, List.prefix_rfl⟩
    exact (List.nodup_append.mp hs.exclusive).2.2 obj hheld obj hmem rfl
  | nil =>
    simp only [Delivers, MemoryPool.get, hpool]
    refine ⟨fun hheld => (hs.known _ hheld).false, ?_, List.prefix_append ..⟩
    simp

section Steps

theorem Kept.get (hs : s.Kept) : (step clear s .get).Kept := by
  have hpeak := hs.peak
  have husage := hs.usage
  have hreturned := hs.returned
  cases hpool : s.pool.pool with
  | cons obj pool =>
    simp only [step, MemoryPool.get, hpool]
    have hnodup := hs.exclusive
    have hfits := hs.fits
    rw [hpool, List.nodup_middle] at hnodup
    rw [hpool, List.length_cons] at hfits
    have hmem : obj ∈ s.pool.pool := by simp [hpool]
    refine ⟨⟨hnodup, fun other h => hs.fresh other (by simp [hpool, h]), ?_, ?_, ?_, ?_,
      hs.allocated⟩, ?_⟩
    · show pool.length ≤ s.pool.count
      omega
    · show s.pool.stats.current_usage + 1 = (s.held.length + 1 : Nat)
      omega
    · exact le_max_right ..
    · show s.pool.stats.cache_hits + 1 + s.pool.stats.cache_misses =
        s.pool.stats.total_deallocations + (s.held.length + 1 : Nat)
      omega
    · exact List.forall_mem_cons.mpr ⟨hs.lt_of_mem_pool hmem, hs.known⟩
  | nil =>
    simp only [step, MemoryPool.get, hpool]
    have hallocated := hs.allocated
    have hnodup := hs.exclusive
    rw [hpool, List.append_nil] at hnodup
    refine ⟨⟨?_, fun other h => absurd h List.not_mem_nil, Nat.zero_le _, ?_, ?_, ?_, ?_⟩, ?_⟩
    · show (s.objects.length :: s.held ++ []).Nodup
      rw [List.append_nil]
      exact List.nodup_cons.mpr ⟨fun h => (hs.known _ h).false, hnodup⟩
    · show s.pool.stats.current_usage + 1 = (s.held.length + 1 : Nat)
      omega
    · exact le_max_right ..
    · show s.pool.stats.cache_hits + (s.pool.stats.cache_misses + 1) =
        s.pool.stats.total_deallocations + (s.held.length + 1 : Nat)
      omega
    · show s.pool.stats.total_allocations + 1 =
        s.pool.count + (s.pool.stats.cache_misses + 1)
      omega
    · intro other hother
      show other < (s.objects ++ [s.pool.factory]).length
      rw [List.length_append, List.length_singleton]
      rcases List.mem_cons.mp hother with rfl | h
      · exact Nat.lt_succ_self _
      · exact (hs.known _ h).trans (Nat.lt_succ_self _)

/-- The numbers behind `put` of something that is held. -/
theorem length_erase_held {obj : Nat} (hobj : obj ∈ s.held) :
    ((s.held.erase obj).length : Int) = s.held.length - 1 := by
  have hpos := List.length_pos_of_mem hobj
  rw [List.length_erase_of_mem hobj]
  omega

theorem Kept.put (hs : s.Kept) {obj : Nat} (hcareful : s.Careful clear (.put obj)) :
    (step clear s (.put obj)).Kept := by
  obtain ⟨hheld, hreset⟩ := hcareful
  have hlength := length_erase_held hheld
  have hpeak := hs.peak
  have husage := hs.usage
  have hreturned := hs.returned
  obtain ⟨hnodup, hpool, hapart⟩ := List.nodup_append.mp hs.exclusive
  have hout : obj ∉ s.pool.pool := fun h => hapart obj hheld obj h rfl
  have hknown : ∀ other ∈ s.held.erase obj, other < s.objects.length :=
    fun other h => hs.known other (List.mem_of_mem_erase h)
  by_cases hroom : s.pool.pool.length < s.pool.count
  · simp only [step, MemoryPool.put, hroom, if_true]
    refine ⟨⟨?_, ?_, ?_, ?_, ?_, ?_, hs.allocated⟩, ?_⟩
    · show (s.held.erase obj ++ (s.pool.pool ++ [obj])).Nodup
      rw [← List.append_assoc, ← List.concat_eq_append, List.nodup_concat]
      refine ⟨?_, hs.exclusive.sublist (List.erase_sublist.append_right _)⟩
      rw [List.mem_append, not_or]
      exact ⟨hnodup.not_mem_erase, hout⟩
    · intro other hother
      show (s.objects.modify obj _)[other]? = some s.pool.factory
      rcases List.mem_append.mp hother with h | h
      · have hne : obj ≠ other := fun heq => hout (heq ▸ h)
        rw [List.getElem?_modify_ne _ _ hne]
        exact hs.fresh other h
      · rw [List.mem_singleton.mp h, List.getElem?_modify_eq]
        exact hreset hroom
    · show (s.pool.pool ++ [obj]).length ≤ s.pool.count
      rw [List.length_append]
      exact hroom
    · show s.pool.stats.current_usage - 1 = ((s.held.erase obj).length : Int)
      omega
    · show s.pool.stats.current_usage - 1 ≤ s.pool.stats.peak_usage
      omega
    · show s.pool.stats.cache_hits + s.pool.stats.cache_misses =
        s.pool.stats.total_deallocations + 1 + (s.held.erase obj).length
      omega
    · simpa using hknown
  · simp only [step, MemoryPool.put, hroom, if_false]
    refine ⟨⟨hs.exclusive.sublist (List.erase_sublist.append_right _), hs.fresh, hs.fits, ?_, ?_, ?_,
      hs.allocated⟩, hknown⟩
    · show s.pool.stats.current_usage - 1 = ((s.held.erase obj).length : Int)
      omega
    · show s.pool.stats.current_usage - 1 ≤ s.pool.stats.peak_usage
      omega
    · show s.pool.stats.cache_hits + s.pool.stats.cache_misses =
        s.pool.stats.total_deallocations + 1 + (s.held.erase obj).length
      omega

theorem Kept.change (hs : s.Kept) {obj : Nat} {content : Pooled β}
    (hcareful : s.Careful clear (.change obj content)) :
    (step clear s (.change obj content)).Kept where
  exclusive := hs.exclusive
  fresh other hother := by
    show (s.objects.modify obj _)[other]? = some s.pool.factory
    by_cases hother' : obj = other
    · subst hother'
      rw [List.getElem?_modify_eq, hs.fresh obj hother]
      exact congrArg some (hcareful hother)
    · rw [List.getElem?_modify_ne _ _ hother']
      exact hs.fresh other hother
  fits := hs.fits
  usage := hs.usage
  peak := hs.peak
  returned := hs.returned
  allocated := hs.allocated
  known other hother := by
    show other < (s.objects.modify obj _).length
    rw [List.length_modify]
    exact hs.known other hother

theorem Kept.make (hs : s.Kept) (content : Pooled β) : (step clear s (.make content)).Kept where
  exclusive := hs.exclusive
  fresh other hother := by
    show (s.objects ++ [content])[other]? = some s.pool.factory
    rw [List.getElem?_append_left (hs.lt_of_mem_pool hother)]
    exact hs.fresh other hother
  fits := hs.fits
  usage := hs.usage
  peak := hs.peak
  returned := hs.returned
  allocated := hs.allocated
  known other hother := by
    show other < (s.objects ++ [content]).length
    rw [List.length_append]
    exact (hs.known other hother).trans_le (Nat.le_add_right ..)

/-- A step that leaves the numbers and the objects right was a careful one. -/
theorem Kept.careful (hs : s.Kept) {call : Call β} (hnext : (step clear s call).Sound) :
    s.Careful clear call := by
  cases call with
  | get => trivial
  | make content => trivial
  | change obj content =>
    intro hobj
    have hfresh : (s.objects.modify obj _)[obj]? = some s.pool.factory := hnext.fresh obj hobj
    rw [List.getElem?_modify_eq, hs.fresh obj hobj] at hfresh
    exact Option.some.inj hfresh
  | put obj =>
    have husage := hs.usage
    have hless : s.pool.stats.current_usage - 1 = ((s.held.erase obj).length : Int) := by
      have h := hnext.usage
      by_cases hroom : s.pool.pool.length < s.pool.count
      · simpa only [step, MemoryPool.put, hroom, if_true] using h
      · simpa only [step, MemoryPool.put, hroom, if_false] using h
    refine ⟨?_, fun hroom => ?_⟩
    · by_contra hobj
      rw [List.erase_of_not_mem hobj] at hless
      omega
    · have hfresh := hnext.fresh obj
      simp only [step, MemoryPool.put, hroom, if_true] at hfresh
      have hlast := hfresh (List.mem_append_right _ (List.mem_singleton_self obj))
      rwa [List.getElem?_modify_eq] at hlast

end Steps

-- what is put back twice, while something else is out, is in the pool twice
example : (run (step (id : Unit → Unit)) (start 1 3 none)
    [.get, .get, .put 0, .put 0]).pool.pool = [2, 0, 0] := rfl

end Lending

end Storage

end Ccbt

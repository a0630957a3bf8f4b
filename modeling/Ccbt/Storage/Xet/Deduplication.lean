import Ccbt.Python.Dict
import Ccbt.Storage.Xet.Xorb
import Ccbt.Transition.Run
import Mathlib.Logic.Function.Basic

/-!
# Reference counts of chunks: `XetDeduplication` of `storage/xet_deduplication.py`

The table of the database and the files of the chunk store, with the calls that add and remove
references. What has been asked for is a ledger beside them. A chunk that is written through the
disk manager although it exists is not counted.
-/

namespace Ccbt

open Python Transition

namespace Xet

/-- A row of the table. The times in it are left out. -/
structure ChunkRow where
  size : Nat
  storage_path : String
  ref_count : Int := 1

/-- The table, with the hash as its primary key, and the files below `chunk_store_path`. -/
structure XetDeduplication where
  chunks : Dict Bytes ChunkRow := .empty
  files : Dict String Bytes := .empty

/-- The calls that add or remove a reference. -/
inductive Call
  | write_xet_chunk (chunk_hash chunk_data : Bytes)
  | store_chunk (chunk_hash chunk_data : Bytes)
  | remove_chunk_reference (chunk_hash : Bytes)

/-- The number of references that have been asked for. -/
abbrev Ledger := Bytes → Nat

namespace XetDeduplication

def checkChunkExists (d : XetDeduplication) (chunk_hash : Bytes) : Option String :=
  (d.chunks.get? chunk_hash).map (·.storage_path)

def storeChunk (d : XetDeduplication) (chunk_hash chunk_data : Bytes) : XetDeduplication :=
  match d.chunks.get? chunk_hash with
  | some row =>
    { d with chunks := d.chunks.set chunk_hash { row with ref_count := row.ref_count + 1 } }
  | none =>
    { files := d.files.set (hex chunk_hash) chunk_data
      chunks := d.chunks.set chunk_hash
        { size := chunk_data.length, storage_path := hex chunk_hash } }

/-- `remove_chunk_reference`: whether the chunk has been removed. -/
def removeChunkReference (d : XetDeduplication) (chunk_hash : Bytes) : Bool × XetDeduplication :=
  match d.chunks.get? chunk_hash with
  | none => (false, d)
  | some row =>
    if row.ref_count ≤ 1 then
      (true, { files := d.files.erase row.storage_path, chunks := d.chunks.erase chunk_hash })
    else
      (false,
        { d with chunks := d.chunks.set chunk_hash { row with ref_count := row.ref_count - 1 } })

/-- `DiskIOManager.write_xet_chunk` with a hash of 32 octets: what `_link_chunk_reference` does to
the database is nothing. Without Xet the data goes to the file alone. -/
def writeXetChunk (xet_enabled : Bool) (d : XetDeduplication) (chunk_hash chunk_data : Bytes) :
    XetDeduplication :=
  if xet_enabled then
    match d.checkChunkExists chunk_hash with
    | some _ => d
    | none => d.storeChunk chunk_hash chunk_data
  else d

/-- `ref_count`, and 0 for a hash that is absent. -/
def refCount (d : XetDeduplication) (chunk_hash : Bytes) : Int :=
  ((d.chunks.get? chunk_hash).map (·.ref_count)).getD 0

end XetDeduplication

namespace Call

/-- The calls that return. The disk manager refuses a hash of another length, and the empty hash is
the directory of the chunk store. -/
def succeeds : Call → Bool
  | write_xet_chunk chunk_hash _ => chunk_hash.length = 32
  | store_chunk chunk_hash _ => chunk_hash ≠ []
  | remove_chunk_reference _ => true

def apply (xet_enabled : Bool) (d : XetDeduplication) : Call → XetDeduplication
  | write_xet_chunk chunk_hash chunk_data => d.writeXetChunk xet_enabled chunk_hash chunk_data
  | store_chunk chunk_hash chunk_data => d.storeChunk chunk_hash chunk_data
  | remove_chunk_reference chunk_hash => (d.removeChunkReference chunk_hash).2

/-- What the call means: a reference more, or one less if there is one. -/
def enter (l : Ledger) : Call → Ledger
  | write_xet_chunk chunk_hash _ => Function.update l chunk_hash (l chunk_hash + 1)
  | store_chunk chunk_hash _ => Function.update l chunk_hash (l chunk_hash + 1)
  | remove_chunk_reference chunk_hash => Function.update l chunk_hash (l chunk_hash - 1)

end Call

/-- A call that returns, on the store and in the ledger. -/
def step (xet_enabled : Bool) (s : XetDeduplication × Ledger) (call : Call) :
    XetDeduplication × Ledger :=
  if call.succeeds then (call.apply xet_enabled s.1, call.enter s.2) else s

/-- The counts are those of the ledger, and the files are there as long as they are positive. -/
def Exact (s : XetDeduplication × Ledger) : Prop :=
  ∀ chunk_hash, s.1.refCount chunk_hash = s.2 chunk_hash ∧
    ((s.1.files.get? (hex chunk_hash)).isSome = true ↔ 0 < s.2 chunk_hash)

/-- A chunk is written through the disk manager only with Xet, and only if it is absent. -/
def Counted (xet_enabled : Bool) (s : XetDeduplication × Ledger) : Call → Prop
  | .write_xet_chunk chunk_hash _ =>
    chunk_hash.length = 32 → xet_enabled = true ∧ s.1.chunks.get? chunk_hash = none
  | _ => True

theorem hexDigit_injective : ∀ a < 16, ∀ b < 16, PyObj.hexDigit a = PyObj.hexDigit b → a = b := by
  decide

theorem hex_injective {a b : Bytes} (h : hex a = hex b) : a = b := by
  have hchars := String.ofList_injective h
  clear h
  induction a generalizing b with
  | nil =>
    cases b with
    | nil => rfl
    | cons y b => cases hchars
  | cons x a ih =>
    cases b with
    | nil => cases hchars
    | cons y b =>
      simp only [List.flatMap_cons, List.cons_append, List.nil_append, List.cons.injEq] at hchars
      obtain ⟨hhigh, hlow, hrest⟩ := hchars
      have hx := x.toNat_lt
      have hy := y.toNat_lt
      have hhigh' := hexDigit_injective _ (by omega) _ (by omega) hhigh
      have hlow' := hexDigit_injective _ (by omega) _ (by omega) hlow
      have hxy : x = y := UInt8.toNat_inj.mp (by omega)
      rw [hxy, ih hrest]

/-- A row leads to its file, a file belongs to a row, and a reference is left. -/
structure Sound (d : XetDeduplication) : Prop where
  rows : ∀ chunk_hash row, d.chunks.get? chunk_hash = some row →
    row.storage_path = hex chunk_hash ∧ 1 ≤ row.ref_count
  files : ∀ chunk_hash,
    (d.files.get? (hex chunk_hash)).isSome = (d.chunks.get? chunk_hash).isSome

variable {xet_enabled : Bool} {d : XetDeduplication} {l : Ledger} {s : XetDeduplication × Ledger}
  {call : Call} {calls : List Call} {chunk_hash chunk_data : Bytes} {row : ChunkRow}

namespace Sound

theorem new : Sound {} where
  rows _ _ h := by cases h
  files _ := rfl

/-- A change of a row that leaves its path and a reference. -/
theorem setRow (h : Sound d) (hrow : d.chunks.get? chunk_hash = some row) {n : Int} (hn : 1 ≤ n) :
    Sound { d with chunks := d.chunks.set chunk_hash { row with ref_count := n } } where
  rows j r hr := by
    rw [Dict.get?_set] at hr
    split at hr
    · next hj =>
      obtain rfl := Option.some.inj hr
      rw [hj]
      exact ⟨(h.rows _ _ hrow).1, hn⟩
    · exact h.rows j r hr
  files j := by
    rw [h.files, Dict.get?_set]
    split
    · next hj => rw [hj, hrow]; rfl
    · rfl

theorem storeChunk (h : Sound d) (chunk_hash chunk_data : Bytes) :
    Sound (d.storeChunk chunk_hash chunk_data) := by
  unfold XetDeduplication.storeChunk
  split
  · next row hrow =>
    have hone := (h.rows _ _ hrow).2
    exact h.setRow hrow (by omega)
  · constructor
    · intro j r hr
      rw [Dict.get?_set] at hr
      split at hr
      · next hj =>
        obtain rfl := Option.some.inj hr
        rw [hj]
        exact ⟨rfl, le_rfl⟩
      · exact h.rows j r hr
    · intro j
      rw [Dict.get?_set, Dict.get?_set]
      by_cases hj : j = chunk_hash
      · rw [if_pos hj, if_pos (congrArg hex hj)]
        rfl
      · rw [if_neg hj, if_neg fun heq => hj (hex_injective heq), h.files]

theorem removeChunkReference (h : Sound d) (chunk_hash : Bytes) :
    Sound (d.removeChunkReference chunk_hash).2 := by
  unfold XetDeduplication.removeChunkReference
  split
  · exact h
  · next row hrow =>
    split
    · constructor
      · intro j r hr
        rw [Dict.get?_erase] at hr
        split at hr
        · cases hr
        · exact h.rows j r hr
      · intro j
        rw [Dict.get?_erase, Dict.get?_erase, (h.rows _ _ hrow).1]
        by_cases hj : j = chunk_hash
        · rw [if_pos hj, if_pos (congrArg hex hj)]
          rfl
        · rw [if_neg hj, if_neg fun heq => hj (hex_injective heq), h.files]
    · exact h.setRow hrow (by omega)

theorem apply (h : Sound d) (call : Call) : Sound (call.apply xet_enabled d) := by
  cases call with
  | write_xet_chunk chunk_hash chunk_data =>
    rw [Call.apply, XetDeduplication.writeXetChunk]
    split
    · split
      · exact h
      · exact h.storeChunk chunk_hash chunk_data
    · exact h
  | store_chunk chunk_hash chunk_data => exact h.storeChunk chunk_hash chunk_data
  | remove_chunk_reference chunk_hash => exact h.removeChunkReference chunk_hash

/-- For a store in order, what counts is the number of references. -/
theorem exact_iff (h : Sound d) :
    Exact (d, l) ↔ ∀ chunk_hash, d.refCount chunk_hash = l chunk_hash := by
  refine forall_congr' fun chunk_hash => and_iff_left_of_imp fun hcount => ?_
  have hfile := h.files chunk_hash
  rw [hfile, ← Int.natCast_pos, ← hcount, XetDeduplication.refCount]
  cases hrow : d.chunks.get? chunk_hash with
  | none => exact iff_of_false Bool.false_ne_true (lt_irrefl _)
  | some row =>
    have hone := (h.rows _ _ hrow).2
    exact iff_of_true rfl (by show 0 < row.ref_count; omega)

end Sound

/-!
## Which runs keep the reference counts exact

A chunk that is stored gets a reference, whether it is there or not, and a removal takes one away.
The disk manager asks whether the chunk exists, and then only a chunk that does not is counted.
So the counts stay exact as long as the disk manager is given chunks that are absent.
-/

variable {call : Call} {calls : List Call}

theorem refCount_set (d : XetDeduplication) (files : Dict String Bytes) (chunk_hash : Bytes)
    (row : ChunkRow) (j : Bytes) :
    XetDeduplication.refCount { files := files, chunks := d.chunks.set chunk_hash row } j =
      if j = chunk_hash then row.ref_count else d.refCount j := by
  rw [XetDeduplication.refCount, Dict.get?_set]
  split
  · rfl
  · rfl

theorem refCount_storeChunk (d : XetDeduplication) (chunk_hash chunk_data j : Bytes) :
    (d.storeChunk chunk_hash chunk_data).refCount j =
      if j = chunk_hash then d.refCount chunk_hash + 1 else d.refCount j := by
  unfold XetDeduplication.storeChunk
  split
  · next row hrow =>
    have hcount : d.refCount chunk_hash = row.ref_count := by
      rw [XetDeduplication.refCount, hrow]
      rfl
    rw [refCount_set, hcount]
  · next hrow =>
    have hcount : d.refCount chunk_hash = 0 := by
      rw [XetDeduplication.refCount, hrow]
      rfl
    rw [refCount_set, hcount]
    rfl

theorem Sound.refCount_removeChunkReference (h : Sound d) (chunk_hash j : Bytes) :
    (d.removeChunkReference chunk_hash).2.refCount j =
      if j = chunk_hash then max (d.refCount chunk_hash - 1) 0 else d.refCount j := by
  unfold XetDeduplication.removeChunkReference
  split
  · next hrow =>
    have hcount : d.refCount chunk_hash = 0 := by
      rw [XetDeduplication.refCount, hrow]
      rfl
    split
    · next hj =>
      rw [hj, hcount]
      rfl
    · rfl
  · next row hrow =>
    have hone := (h.rows _ _ hrow).2
    have hcount : d.refCount chunk_hash = row.ref_count := by
      rw [XetDeduplication.refCount, hrow]
      rfl
    rw [hcount]
    split
    · next hlast =>
      show (((d.chunks.erase chunk_hash).get? j).map (·.ref_count)).getD 0 = _
      rw [Dict.get?_erase, max_eq_right (by omega)]
      split
      · rfl
      · rfl
    · rw [refCount_set, max_eq_left (by omega)]

/-- Exact counts stay exact when a chunk is stored. -/
theorem refCount_storeChunk_eq (h : ∀ j, d.refCount j = l j) (chunk_hash chunk_data j : Bytes) :
    (d.storeChunk chunk_hash chunk_data).refCount j =
      (Call.store_chunk chunk_hash chunk_data).enter l j := by
  rw [refCount_storeChunk, Call.enter, Function.update_apply, h, h]
  split
  · exact (Nat.cast_succ _).symm
  · rfl

theorem Sound.refCount_removeChunkReference_eq (hsound : Sound d) (h : ∀ j, d.refCount j = l j)
    (chunk_hash j : Bytes) : (d.removeChunkReference chunk_hash).2.refCount j =
      (Call.remove_chunk_reference chunk_hash).enter l j := by
  rw [hsound.refCount_removeChunkReference, Call.enter, Function.update_apply, h, h]
  split
  · have hsub : ((l chunk_hash - 1 : ℕ) : ℤ) = max ((l chunk_hash : ℤ) - 1) 0 := by omega
    exact hsub.symm
  · rfl

/-- A call of the disk manager that leaves the store as it was is a reference too few. -/
theorem not_exact_of_unchanged (hsound : Sound d) (h : ∀ j, d.refCount j = l j)
    (chunk_hash chunk_data : Bytes) :
    ¬Exact (d, (Call.write_xet_chunk chunk_hash chunk_data).enter l) := by
  intro hexact
  have hat := hsound.exact_iff.mp hexact chunk_hash
  rw [Call.enter, Function.update_self, h] at hat
  omega

theorem sound_step (hsound : Sound s.1) (call : Call) : Sound (step xet_enabled s call).1 := by
  rw [step]
  split
  · exact hsound.apply call
  · exact hsound

/-- The counts after a call are exact if and only if the call is not a write of the disk manager
that finds the chunk, or no chunk store. -/
theorem exact_step_iff (hsound : Sound s.1) (h : Exact s) :
    Exact (step xet_enabled s call) ↔ Counted xet_enabled s call := by
  obtain ⟨d, l⟩ := s
  have hcounts := hsound.exact_iff.mp h
  cases call with
  | write_xet_chunk chunk_hash chunk_data =>
    by_cases hlen : chunk_hash.length = 32
    · have hsucceeds : (Call.write_xet_chunk chunk_hash chunk_data).succeeds = true :=
        decide_eq_true hlen
      rw [step, if_pos hsucceeds, Call.apply, XetDeduplication.writeXetChunk]
      cases xet_enabled with
      | false =>
        refine iff_of_false (not_exact_of_unchanged hsound hcounts _ _) fun hcounted => ?_
        exact Bool.false_ne_true (hcounted hlen).1
      | true =>
        rw [if_pos rfl, XetDeduplication.checkChunkExists]
        cases hrow : d.chunks.get? chunk_hash with
        | some row =>
          refine iff_of_false (not_exact_of_unchanged hsound hcounts _ _) fun hcounted => ?_
          exact Option.some_ne_none row (hrow.symm.trans (hcounted hlen).2)
        | none =>
          refine iff_of_true ?_ fun _ => ⟨rfl, hrow⟩
          apply (hsound.storeChunk chunk_hash chunk_data).exact_iff.mpr
          exact refCount_storeChunk_eq hcounts chunk_hash chunk_data
    · have hfails : ¬(Call.write_xet_chunk chunk_hash chunk_data).succeeds = true :=
        fun hsucceeds => hlen (of_decide_eq_true hsucceeds)
      rw [step, if_neg hfails]
      exact iff_of_true h fun hlen' => absurd hlen' hlen
  | store_chunk chunk_hash chunk_data =>
    refine iff_of_true ?_ trivial
    rw [step]
    split
    · apply (hsound.storeChunk chunk_hash chunk_data).exact_iff.mpr
      exact refCount_storeChunk_eq hcounts chunk_hash chunk_data
    · exact h
  | remove_chunk_reference chunk_hash =>
    refine iff_of_true ?_ trivial
    rw [step]
    split
    · apply (hsound.removeChunkReference chunk_hash).exact_iff.mpr
      exact hsound.refCount_removeChunkReference_eq hcounts chunk_hash
    · exact h

theorem exact_new : Exact ({}, fun _ => 0) :=
  fun _ => ⟨rfl, iff_of_false Bool.false_ne_true (lt_irrefl 0)⟩

/-- The counts are exact in every state of a run that starts with an empty store, if and only if
every chunk that the disk manager writes is absent at that moment. -/
theorem always_counts_exact_iff (xet_enabled : Bool) (calls : List Call) :
    Always (step xet_enabled) Exact ({}, fun _ => 0) calls ↔
      StepsMeet (step xet_enabled) (Counted xet_enabled) ({}, fun _ => 0) calls := by
  apply always_iff_stepsMeet_of fun s (h : Sound s.1 ∧ Exact s) => h.2
  · exact fun _ _ h hexact => (exact_step_iff h.1 h.2).mp hexact
  · exact fun _ e h hcounted => ⟨sound_step h.1 e, (exact_step_iff h.1 h.2).mpr hcounted⟩
  · exact ⟨Sound.new, exact_new⟩

/-- Two users of a chunk that both write it through the disk manager, and the first of them gives
it up. -/
def sharedRun : List Call :=
  [.write_xet_chunk (List.replicate 32 0) [1, 2, 3],
    .write_xet_chunk (List.replicate 32 0) [1, 2, 3],
    .remove_chunk_reference (List.replicate 32 0)]

/-- The other user's chunk is gone. -/
theorem not_exact_sharedRun : ¬Always (step true) Exact ({}, fun _ => 0) sharedRun := by
  intro h
  have hend := always_iff_take.mp h 3 (List.replicate 32 0)
  have hfile : ((run (step true) ({}, fun _ => 0) sharedRun).1.files.get?
      (hex (List.replicate 32 0))).isSome = false := by decide +kernel
  have hledger : (run (step true) ({}, fun _ => 0) sharedRun).2 (List.replicate 32 0) = 1 := by
    decide +kernel
  have hpos := hend.2.mpr (hledger ▸ one_pos)
  exact Bool.false_ne_true (hfile.symm.trans hpos)

end Xet

end Ccbt

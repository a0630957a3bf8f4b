import Ccbt.Peer.PieceManager
import Ccbt.Python.Bytes
import Mathlib.Data.Finset.Basic

/-!
# Pieces and their blocks: `PieceData` of `piece/async_piece_manager.py`

A block that has been received is never written again: `addBlock` only takes the data of a
block that is still open.
-/

namespace Ccbt

open Python

namespace Piece

structure PieceBlock where
  piece_index : Nat
  begin : Nat
  length : Nat
  data : Bytes := []
  received : Bool := false
  requested_from : Finset String := ∅
  deriving DecidableEq

structure PieceData where
  piece_index : Nat
  length : Nat
  blocks : List PieceBlock
  state : PieceState := .MISSING
  hash_verified : Bool := false
  priority : Int := 0
  request_count : Nat := 0
  deriving DecidableEq

def initialBlocks (block_size piece_index length : Nat) : List PieceBlock :=
  (List.range ((length + block_size - 1) / block_size)).map fun n =>
    { piece_index := piece_index
      begin := n * block_size
      length := min block_size (length - n * block_size) }

namespace PieceData

def new (block_size piece_index length : Nat) : PieceData where
  piece_index := piece_index
  length := length
  blocks := initialBlocks block_size piece_index length

/-- The loop of `add_block`: `none` where it returns `False`. -/
def fillBlock (begin : Nat) (data : Bytes) : List PieceBlock → Option (List PieceBlock)
  | [] => none
  | block :: blocks =>
    if block.begin = begin ∧ block.received = false then
      if data.length ≠ block.length then none
      else some ({ block with data := data, received := true } :: blocks)
    else (fillBlock begin data blocks).map (block :: ·)

/-- The block at an offset that has no data yet. -/
def openBlock (begin : Nat) (blocks : List PieceBlock) : Option PieceBlock :=
  blocks.find? fun block => block.begin = begin ∧ block.received = false

variable (p : PieceData)

def isComplete : Bool := p.blocks.all PieceBlock.received

/-- `add_block`: whether the block was added, and the piece afterwards. -/
def addBlock (begin : Nat) (data : Bytes) : Bool × PieceData :=
  match fillBlock begin data p.blocks with
  | none => (false, p)
  | some blocks =>
    (true, { p with
      blocks := blocks
      state := if blocks.all PieceBlock.received then .COMPLETE else p.state })

def getData : Option Bytes :=
  if p.isComplete then some ((sortOn PieceBlock.begin p.blocks).flatMap PieceBlock.data) else none

/-- The positions of the blocks that `get_missing_blocks` returns. -/
def getMissingBlocks : List Nat :=
  (List.range p.blocks.length).filter fun n => (p.blocks[n]?.map PieceBlock.received) = some false

/-- A piece that is said to be complete without being so is missing again. -/
def correct : PieceData :=
  if (p.state = .COMPLETE ∨ p.state = .VERIFIED) ∧ p.isComplete = false then
    { p with state := .MISSING, hash_verified := false }
  else p

/-- `blocks[n].requested_from.add(peer_key)` -/
def addRequestedFrom (n : Nat) (peer_key : String) : PieceData :=
  { p with blocks := p.blocks.modify n fun block =>
      { block with requested_from := insert peer_key block.requested_from } }

/-- What the blocks of a piece hold, whoever was asked for them. -/
def contents : List (Nat × Nat × Bytes × Bool) :=
  p.blocks.map fun block => (block.begin, block.length, block.data, block.received)

end PieceData

section Blocks

variable {begin n : Nat} {data : Bytes} {p : PieceData} {block : PieceBlock}
  {blocks filled : List PieceBlock}

namespace PieceData

theorem isComplete_iff : p.isComplete = true ↔ ∀ block ∈ p.blocks, block.received = true := by
  rw [isComplete, List.all_eq_true]

/-- What a block that is added changes. -/
theorem fillBlock_eq_some (h : fillBlock begin data blocks = some filled) :
    ∃ front block back, blocks = front ++ block :: back ∧ block.begin = begin ∧
      block.received = false ∧ data.length = block.length ∧
      filled = front ++ { block with data := data, received := true } :: back := by
  induction blocks generalizing filled with
  | nil => cases h
  | cons first blocks ih =>
    rw [fillBlock] at h
    split at h
    · next hopen =>
      split at h
      · cases h
      · next hlen =>
        cases h
        exact ⟨[], first, blocks, rfl, hopen.1, hopen.2, not_not.mp hlen, rfl⟩
    · obtain ⟨filled', h', rfl⟩ := Option.map_eq_some_iff.mp h
      obtain ⟨front, block, back, rfl, hbegin, hreceived, hlen, rfl⟩ := ih h'
      exact ⟨first :: front, block, back, rfl, hbegin, hreceived, hlen, rfl⟩

/-- The first open block at the place decides whether the data is taken. -/
theorem isSome_fillBlock : (fillBlock begin data blocks).isSome ↔
    ∃ block, openBlock begin blocks = some block ∧ block.length = data.length := by
  induction blocks with
  | nil => simp [fillBlock, openBlock]
  | cons first blocks ih =>
    rw [fillBlock, openBlock, List.find?_cons]
    by_cases hopen : first.begin = begin ∧ first.received = false
    · by_cases hlen : data.length = first.length
      · simp [hopen, hlen]
      · simp [hopen, hlen, Ne.symm hlen]
    · rw [if_neg hopen, decide_eq_false hopen, Option.isSome_map, ih, openBlock]

theorem fillBlock_of_complete (h : ∀ block ∈ blocks, block.received = true) :
    fillBlock begin data blocks = none := by
  cases hfill : fillBlock begin data blocks with
  | none => rfl
  | some filled =>
    obtain ⟨front, block, back, rfl, -, hreceived, -⟩ := fillBlock_eq_some hfill
    have hblock := h block (by simp)
    rw [hreceived] at hblock
    cases hblock

/-- A complete piece takes no more blocks. -/
theorem addBlock_of_isComplete (h : p.isComplete = true) : p.addBlock begin data = (false, p) := by
  rw [addBlock, fillBlock_of_complete (isComplete_iff.mp h)]

theorem isComplete_of_addBlock (h : (p.addBlock begin data).1 = true) : p.isComplete = false := by
  by_contra hcomplete
  rw [addBlock_of_isComplete (Bool.not_eq_false _ ▸ hcomplete)] at h
  cases h

theorem addBlock_fst : (p.addBlock begin data).1 = (fillBlock begin data p.blocks).isSome := by
  rw [addBlock]
  cases fillBlock begin data p.blocks <;> rfl

theorem addBlock_fst_iff : (p.addBlock begin data).1 = true ↔
    ∃ block, openBlock begin p.blocks = some block ∧ block.length = data.length := by
  rw [addBlock_fst, isSome_fillBlock]

/-- What adding a block does to the blocks. -/
theorem addBlock_eq_true (h : (p.addBlock begin data).1 = true) :
    ∃ front block back, p.blocks = front ++ block :: back ∧ block.begin = begin ∧
      block.received = false ∧ data.length = block.length ∧
      (p.addBlock begin data).2.blocks =
        front ++ { block with data := data, received := true } :: back := by
  rw [addBlock_fst] at h
  obtain ⟨filled, hfill⟩ := Option.isSome_iff_exists.mp h
  obtain ⟨front, block, back, hblocks, hbegin, hreceived, hlen, hfilled⟩ := fillBlock_eq_some hfill
  refine ⟨front, block, back, hblocks, hbegin, hreceived, hlen, ?_⟩
  rw [addBlock, hfill, ← hfilled]

theorem isComplete_iff_countP : p.isComplete = true ↔
    p.blocks.countP (fun b => !b.received) = 0 := by
  rw [isComplete_iff, List.countP_eq_zero]
  simp

/-- A block completes its piece if it is the last one. -/
theorem isComplete_addBlock_iff (h : (p.addBlock begin data).1 = true) :
    (p.addBlock begin data).2.isComplete = true ↔
      p.blocks.countP (fun b => !b.received) = 1 := by
  obtain ⟨front, block, back, hblocks, -, hopen, -, hblocks'⟩ := addBlock_eq_true h
  rw [isComplete_iff_countP, hblocks', hblocks, List.countP_append, List.countP_append,
    List.countP_cons_of_neg (by simp), List.countP_cons_of_pos (by simp [hopen])]
  omega

/-- A piece that a block completes is in the state COMPLETE; else its state stays. -/
theorem addBlock_state (h : (p.addBlock begin data).1 = true) :
    (p.addBlock begin data).2.state =
      if (p.addBlock begin data).2.isComplete then .COMPLETE else p.state := by
  rw [addBlock_fst] at h
  obtain ⟨filled, hfill⟩ := Option.isSome_iff_exists.mp h
  simp only [addBlock, hfill, isComplete]

theorem isComplete_of_getMissingBlocks (h : p.getMissingBlocks = []) : p.isComplete = true := by
  rw [getMissingBlocks, List.filter_eq_nil_iff] at h
  rw [isComplete_iff]
  intro block hblock
  obtain ⟨n, hn⟩ := List.getElem?_of_mem hblock
  have hlt := (List.getElem?_eq_some_iff.mp hn).1
  have hreceived := h n (List.mem_range.mpr hlt)
  rw [hn, Option.map_some, decide_eq_true_eq, Option.some_inj, Bool.not_eq_false] at hreceived
  exact hreceived

theorem correct_of_isComplete (h : p.isComplete = true) : p.correct = p := by
  rw [correct, if_neg]
  rintro ⟨-, hnot⟩
  rw [h] at hnot
  cases hnot

theorem isComplete_contents : p.isComplete = p.contents.all fun c => c.2.2.2 := by
  rw [isComplete, contents, List.all_map]
  rfl

theorem isComplete_congr {q : PieceData} (h : p.contents = q.contents) :
    p.isComplete = q.isComplete := by
  rw [isComplete_contents, isComplete_contents, h]

/-- The data of a piece is in its contents. -/
theorem getData_congr {q : PieceData} (h : p.contents = q.contents) : p.getData = q.getData := by
  have hdata (r : PieceData) : (sortOn PieceBlock.begin r.blocks).flatMap PieceBlock.data =
      (sortOn Prod.fst r.contents).flatMap fun c => c.2.2.1 := by
    rw [contents, sortOn_map, List.flatMap_map]
  rw [getData, getData, hdata, hdata, h, isComplete_congr h]

@[simp] theorem contents_addRequestedFrom (n : Nat) (peer_key : String) :
    (p.addRequestedFrom n peer_key).contents = p.contents := by
  refine List.ext_getElem? fun k => ?_
  rw [contents, contents, addRequestedFrom, List.getElem?_map, List.getElem?_map,
    List.getElem?_modify]
  cases p.blocks[k]? with
  | none => rfl
  | some block =>
    simp only [Option.map_eq_map, Option.map_some]
    split <;> rfl

end PieceData

end Blocks

end Piece

end Ccbt

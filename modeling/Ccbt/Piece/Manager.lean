import Ccbt.Piece.FileSelection
import Ccbt.Piece.PieceData
import Ccbt.Python.Grouping
import Ccbt.Python.Hashlib

/-!
# `AsyncPieceManager` of `piece/async_piece_manager.py`: its state

The tables of the manager, what it makes of a new torrent, which pieces it counts as missing,
what a received block changes and how a piece is compared with its hash. The callbacks are
told apart only by whether they are set.
-/

namespace Ccbt

open Python

namespace Piece

inductive PieceSelectionStrategy
  | ROUND_ROBIN
  | RAREST_FIRST
  | SEQUENTIAL
  deriving DecidableEq

theorem default_block_size_pos : 0 < 16384 := by decide

theorem default_hash_chunk_size_pos : 0 < 65536 := by decide

theorem default_endgame_duplicates_pos : 0 < 2 := by decide

structure Config where
  block_size : Nat := 16384
  hash_chunk_size : Nat := 65536
  endgame_duplicates : Nat := 2
  endgame_threshold : Rat := 19 / 20
  streaming_mode : Bool := false
  piece_selection : PieceSelectionStrategy := .RAREST_FIRST
  sequential_window : Nat := 10
  block_size_pos : 0 < block_size := by first | exact default_block_size_pos | decide
  hash_chunk_size_pos : 0 < hash_chunk_size := by
    first | exact default_hash_chunk_size_pos | decide
  endgame_duplicates_pos : 0 < endgame_duplicates := by
    first | exact default_endgame_duplicates_pos | decide

structure TorrentData where
  num_pieces : Nat
  piece_length : Nat
  piece_hashes : List Bytes
  /-- `file_info["total_length"]` of a `file_info` that is not empty. -/
  file_info_total_length : Option Nat := none
  total_length : Option Nat := none
  piece_layers : Option (Dict Bytes (List Bytes)) := none
  meta_version : Int := 1

structure PeerAvailability where
  pieces : Finset Nat := ∅
  reliability_score : Rat := 1

structure AsyncPieceManager where
  torrent_data : TorrentData
  num_pieces : Nat
  piece_length : Nat
  piece_hashes : List Bytes
  piece_layers : Option (Dict Bytes (List Bytes))
  meta_version : Int
  file_selection_manager : Option FileSelectionManager
  pieces : List PieceData := []
  completed_pieces : Finset Nat := ∅
  verified_pieces : Finset Nat := ∅
  peer_availability : Dict String PeerAvailability := .empty
  piece_frequency : Counter Nat := .empty
  endgame_mode : Bool := false
  download_complete : Bool := false
  current_sequential_piece : Nat := 0
  on_piece_completed : Bool := false
  on_piece_verified : Bool := false
  on_download_complete : Bool := false

namespace AsyncPieceManager

section Pieces

variable (config : Config) (m : AsyncPieceManager)

def initialPriority (piece_index : Nat) : Int :=
  let streaming : Int :=
    if config.streaming_mode then
      if piece_index = 0 then 1000
      else if piece_index + 1 = m.num_pieces then 100
      else max 0 (1000 - piece_index)
    else 0
  match m.file_selection_manager with
  | some fm => max streaming (fm.getPiecePriority piece_index * 100 : Nat)
  | none => streaming

def newPiece (piece_index length : Nat) : PieceData :=
  { PieceData.new config.block_size piece_index length with
    priority := m.initialPriority config piece_index }

/-- The length of a piece as `__init__` has it: the last one may be shorter. -/
def initialLength (t : TorrentData) (piece_index : Nat) : Nat :=
  if piece_index + 1 = t.num_pieces then
    let total_length :=
      match t.file_info_total_length, t.total_length with
      | some n, _ => n
      | none, some n => n
      | none, none => t.num_pieces * t.piece_length
    let piece_length := total_length - piece_index * t.piece_length
    if piece_length = 0 then t.piece_length else piece_length
  else t.piece_length

/-- `AsyncPieceManager(torrent_data, file_selection_manager)` -/
def new (t : TorrentData) (fm : Option FileSelectionManager) : AsyncPieceManager :=
  let m : AsyncPieceManager :=
    { torrent_data := t
      num_pieces := t.num_pieces
      piece_length := t.piece_length
      piece_hashes := t.piece_hashes
      piece_layers := t.piece_layers
      meta_version := t.meta_version
      file_selection_manager := fm }
  { m with
    pieces := (List.range t.num_pieces).map fun i => m.newPiece config i (initialLength t i) }

/-- The pieces that `request_piece_from_peers` and `_select_pieces` make when there are none. -/
def initializePieces : AsyncPieceManager :=
  if 0 < m.num_pieces ∧ m.pieces = [] then
    let m :=
      if m.piece_length = 0 then { m with piece_length := m.torrent_data.piece_length } else m
    { m with pieces := (List.range m.num_pieces).map fun i => m.newPiece config i m.piece_length }
  else m

def modifyPiece (piece_index : Nat) (f : PieceData → PieceData) : AsyncPieceManager :=
  { m with pieces := m.pieces.modify piece_index f }

/-- Selected by its files, if files are selected at all. -/
def isPieceNeeded (piece_index : Nat) : Bool :=
  match m.file_selection_manager with
  | some fm => fm.isPieceNeeded piece_index
  | none => true

def missingIn (pieces : List PieceData) : List Nat :=
  (List.range pieces.length).filter fun i => (pieces[i]?.map PieceData.state) = some .MISSING

/-- What `get_missing_pieces` counts as missing before it asks which pieces are needed. -/
def allMissing : List Nat :=
  let corrected := m.pieces.map PieceData.correct
  if m.pieces = [] ∧ 0 < m.num_pieces then List.range m.num_pieces
  else if m.pieces.length ≠ m.num_pieces ∧ 0 < m.num_pieces then
    missingIn corrected ++ List.range' m.pieces.length (m.num_pieces - m.pieces.length)
  else missingIn corrected

def getMissingPieces : List Nat × AsyncPieceManager :=
  (m.allMissing.filter m.isPieceNeeded, { m with pieces := m.pieces.map PieceData.correct })

theorem mem_missingIn {pieces : List PieceData} {i : Nat} :
    i ∈ missingIn pieces ↔ ∃ piece, pieces[i]? = some piece ∧ piece.state = .MISSING := by
  simp only [missingIn, List.mem_filter, List.mem_range, decide_eq_true_eq, Option.map_eq_some_iff]
  constructor
  · exact And.right
  · rintro ⟨piece, hpiece, hstate⟩
    exact ⟨(List.getElem?_eq_some_iff.mp hpiece).1, piece, hpiece, hstate⟩

theorem mem_missingIn_correct {i : Nat} : i ∈ missingIn (m.pieces.map PieceData.correct) ↔
    ∃ piece, m.pieces[i]? = some piece ∧ piece.correct.state = .MISSING := by
  rw [mem_missingIn]
  simp

/-- A piece is missing if it is so after the correction or is not there yet. -/
theorem mem_getMissingPieces {i : Nat} : i ∈ m.getMissingPieces.1 ↔ m.isPieceNeeded i = true ∧
    ((∃ piece, m.pieces[i]? = some piece ∧ piece.correct.state = .MISSING) ∨
      (m.pieces.length ≤ i ∧ i < m.num_pieces)) := by
  rw [getMissingPieces, List.mem_filter, and_comm]
  refine and_congr_right fun _ => ?_
  unfold allMissing
  dsimp only
  split
  · next hempty => simp [hempty.1]
  · split
    · rw [List.mem_append, mem_missingIn_correct, List.mem_range'_1]
      refine or_congr_right ?_
      omega
    · next hempty hlength =>
      rw [mem_missingIn_correct, iff_self_or]
      rintro ⟨hle, hlt⟩
      omega

theorem nodup_getMissingPieces : m.getMissingPieces.1.Nodup := by
  have hcorrected : (missingIn (m.pieces.map PieceData.correct)).Nodup := List.nodup_range.filter _
  refine List.Nodup.filter _ ?_
  unfold allMissing
  dsimp only
  split
  · exact List.nodup_range
  · split
    · refine List.Nodup.append hcorrected List.nodup_range' ?_
      intro i hi hi'
      obtain ⟨piece, hpiece, -⟩ := (mem_missingIn_correct m).mp hi
      have hlt := (List.getElem?_eq_some_iff.mp hpiece).1
      rw [List.mem_range'_1] at hi'
      omega
    · exact hcorrected

end Pieces

section Blocks

variable (m : AsyncPieceManager)

/-- The update of the file progress in `handle_piece_block`. -/
def updateProgress (fm : FileSelectionManager) (piece_index : Nat) : FileSelectionManager :=
  (fm.getFilesForPiece piece_index).foldl (fun fm file_index =>
    let file_segments := (fm.mapper.segments piece_index).filter fun s => s.file_index = file_index
    let bytes_for_file := (file_segments.map Segment.length).sum
    match fm.bytesDownloaded file_index with
    | some current_bytes => fm.updateFileProgress file_index (current_bytes + bytes_for_file)
    | none => fm) fm

/-- What a block that was added to a piece changes. -/
def acceptBlock (piece_index : Nat) (piece : PieceData) : AsyncPieceManager :=
  { m with
    pieces := m.pieces.set piece_index piece
    completed_pieces :=
      if piece.state = .COMPLETE then insert piece_index m.completed_pieces else m.completed_pieces
    file_selection_manager := m.file_selection_manager.map fun fm => updateProgress fm piece_index }

/-- `handle_piece_block` up to its callback: whether the block was added, and the manager. -/
def handlePieceBlock (piece_index begin : Nat) (data : Bytes) : Bool × AsyncPieceManager :=
  match m.pieces[piece_index]? with
  | none => (false, m)
  | some piece =>
    match piece.addBlock begin data with
    | (true, piece) => (true, m.acceptBlock piece_index piece)
    | (false, _) => (false, m)

/-- What a block that is handled does: nothing, or it is added to its piece. -/
theorem handlePieceBlock_cases (piece_index begin : Nat) (data : Bytes) :
    m.handlePieceBlock piece_index begin data = (false, m) ∨
      ∃ piece, m.pieces[piece_index]? = some piece ∧ (piece.addBlock begin data).1 = true ∧
        m.handlePieceBlock piece_index begin data =
          (true, m.acceptBlock piece_index (piece.addBlock begin data).2) := by
  unfold handlePieceBlock
  cases hpiece : m.pieces[piece_index]? with
  | none => exact .inl rfl
  | some piece =>
    dsimp only
    rcases hadded : piece.addBlock begin data with ⟨_ | _, piece'⟩
    · exact .inl rfl
    · exact .inr ⟨piece, rfl, by rw [hadded], by rw [hadded]⟩

theorem getElem?_acceptBlock {piece_index : Nat} {piece piece' : PieceData}
    (h : m.pieces[piece_index]? = some piece) (i : Nat) :
    (m.acceptBlock piece_index piece').pieces[i]? =
      if i = piece_index then some piece' else m.pieces[i]? := by
  have hlt := (List.getElem?_eq_some_iff.mp h).1
  rw [acceptBlock, List.getElem?_set]
  split
  · next hi => rw [if_pos hi.symm]
  · next hi => rw [if_neg fun h => hi h.symm]

end Blocks

section Hashes

variable (config : Config) (m : AsyncPieceManager)

/-- `_hash_piece_optimized`, which takes an error for a failure. -/
def hashPieceOptimized (piece : PieceData) (expected_hash : Bytes) : Bool :=
  match piece.getData with
  | none => false
  | some data =>
    let hashed := (Python.pieces config.hash_chunk_size data).flatten
    if expected_hash.length = 32 then sha256 hashed == expected_hash
    else if expected_hash.length = 20 then sha1 hashed == expected_hash
    else false

/-- The loop of `_get_v2_piece_hash` over the layers. -/
def v2HashFrom (piece_index : Nat) : Nat → List (List Bytes) → Option Bytes
  | _, [] => none
  | current_offset, piece_list :: rest =>
    if current_offset ≤ piece_index ∧ piece_index < current_offset + piece_list.length then
      piece_list[piece_index - current_offset]?
    else v2HashFrom piece_index (current_offset + piece_list.length) rest

def getV2PieceHash (piece_index : Nat) : Option Bytes :=
  match m.piece_layers with
  | none => none
  | some piece_layers => v2HashFrom piece_index 0 piece_layers.values

/-- The first hash that `_verify_piece_hash` compares with, and whether it is the last one;
`none` where it gives up. -/
def firstHash (piece_index : Nat) : Option (Bytes × Bool) :=
  if m.meta_version = 2 then (m.getV2PieceHash piece_index).map fun h => (h, true)
  else if m.meta_version = 3 then m.piece_hashes[piece_index]?.map fun h => (h, false)
  else m.piece_hashes[piece_index]?.map fun h => (h, true)

/-- The comparisons of `_verify_piece_hash` taken together. -/
def hashesToExpected (piece_index : Nat) (piece : PieceData) : Bool :=
  match m.firstHash piece_index with
  | none => false
  | some (expected_hash, true) => hashPieceOptimized config piece expected_hash
  | some (expected_hash_v1, false) =>
    hashPieceOptimized config piece expected_hash_v1 &&
      match m.getV2PieceHash piece_index with
      | none => false
      | some expected_hash_v2 => hashPieceOptimized config piece expected_hash_v2

end Hashes

end AsyncPieceManager

end Piece

end Ccbt

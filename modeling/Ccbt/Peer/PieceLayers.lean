import Ccbt.Peer.FileTree
import Ccbt.Piece.Availability
import Ccbt.Python.SetOrder

/-!
# Pieces that a piece layer shows

`_handle_piece_layer_response` of `peer/async_peer_connection.py` collects the numbers of pieces in
a set and hands the set to `update_peer_availability`, which takes it for a bitfield: every number
is read as eight bits, in the order in which the set is iterated over.
-/

namespace Ccbt

open Python

namespace Piece.AsyncPieceManager

variable (m : AsyncPieceManager)

/-- The pieces whose bits are set in the numbers. -/
def parseNumbers (num_pieces : Nat) (numbers : List Nat) : Finset Nat :=
  (Finset.range (8 * numbers.length)).filter fun piece_idx => piece_idx < num_pieces ∧
    (numbers[piece_idx / 8]?.map fun byte_val => byte_val.testBit (7 - piece_idx % 8)) = some true

/-- What `update_peer_availability` does with the pieces that it has read. -/
def recordPieces (peer_key : String) (pieces : Finset Nat) : AsyncPieceManager :=
  let old_pieces := m.piecesOf peer_key
  { m.setPieces peer_key pieces with
    piece_frequency :=
      (pieces \ old_pieces).sort.foldl (Counter.add 1)
        ((old_pieces \ pieces).sort.foldl (Counter.add (-1)) m.piece_frequency) }

theorem mem_parseNumbers {num_pieces i : Nat} {numbers : List Nat} :
    i ∈ parseNumbers num_pieces numbers ↔
      i < num_pieces ∧ ∃ byte_val, numbers[i / 8]? = some byte_val ∧
        byte_val.testBit (7 - i % 8) = true := by
  rw [parseNumbers, Finset.mem_filter, Finset.mem_range, Option.map_eq_some_iff]
  refine and_iff_right_of_imp ?_
  rintro ⟨-, byte_val, hbyte, -⟩
  have := (List.getElem?_eq_some_iff.mp hbyte).1
  omega

@[simp] theorem piecesOf_recordPieces (peer_key : String) (pieces : Finset Nat) :
    (m.recordPieces peer_key pieces).piecesOf peer_key = pieces :=
  m.piecesOf_setPieces peer_key pieces

end Piece.AsyncPieceManager

namespace Peer.TorrentData

open Piece

variable {torrent_data : TorrentData} {pieces_root : Bytes} {piece_hashes : List Bytes} {i : Nat}

/-- `_handle_piece_layer_response`, with what becomes of the piece manager. `order` is the order of
the set. -/
def receivePieceLayer (torrent_data : TorrentData) (order : List Nat) (m : AsyncPieceManager)
    (peer_key : String) (pieces_root : Bytes) (piece_hashes : List Bytes) : AsyncPieceManager :=
  match torrent_data.handlePieceLayerResponse pieces_root piece_hashes with
  | some (.update_peer_availability piece_indices) =>
    m.recordPieces peer_key (AsyncPieceManager.parseNumbers m.num_pieces
      (iterSet order piece_indices))
  | _ => m

/-- The hash of the torrent's piece is in the list. -/
def Shown (torrent_data : TorrentData) (piece_hashes : List Bytes) (i : Nat) : Prop :=
  ∃ torrent_hash, (torrent_data.piece_hashes.getD [])[i]? = some torrent_hash ∧
    torrent_hash ∈ piece_hashes

/-- The torrent has a piece layer under the root. -/
def HasLayer (torrent_data : TorrentData) (pieces_root : Bytes) : Prop :=
  ∃ piece_layers, torrent_data.piece_layers = some piece_layers ∧
    piece_layers.contains pieces_root = true

theorem mem_pieceIndices : i ∈ torrent_data.pieceIndices pieces_root piece_hashes ↔
    torrent_data.HasLayer pieces_root ∧ torrent_data.Shown piece_hashes i := by
  unfold pieceIndices HasLayer Shown
  cases torrent_data.piece_layers with
  | none => simp
  | some piece_layers =>
    cases torrent_data.piece_hashes with
    | none => simp
    | some torrent_piece_hashes =>
      by_cases hroot : piece_layers.contains pieces_root = true
      · simp [hroot, List.mem_zipIdx_iff_getElem?, and_comm]
      · simp [hroot]

/-- The response adds to the pieces of the peer those that it shows, and no others. -/
def RecordsLayer (torrent_data : TorrentData) (order : List Nat) (m : AsyncPieceManager)
    (peer_key : String) (pieces_root : Bytes) (piece_hashes : List Bytes) : Prop :=
  ∀ i, i ∈ (torrent_data.receivePieceLayer order m peer_key pieces_root piece_hashes).piecesOf
    peer_key ↔ i ∈ m.piecesOf peer_key ∨ torrent_data.Shown piece_hashes i

/-- The bit for the piece is set in the numbers of the pieces that the response shows, in the
order of their set. -/
def BitSet (torrent_data : TorrentData) (order : List Nat) (pieces_root : Bytes)
    (piece_hashes : List Bytes) (i : Nat) : Prop :=
  ∃ k, (iterSet order (torrent_data.pieceIndices pieces_root piece_hashes))[i / 8]? = some k ∧
    k.testBit (7 - i % 8) = true

/-- The numbers of the pieces are, by accident, a bitfield of what the peer has. -/
structure ReadsAsBitfield (torrent_data : TorrentData) (order : List Nat) (m : AsyncPieceManager)
    (peer_key : String) (pieces_root : Bytes) (piece_hashes : List Bytes) : Prop where
  shown : ∀ i, torrent_data.Shown piece_hashes i →
    i < m.num_pieces ∧ torrent_data.BitSet order pieces_root piece_hashes i
  previous : ∀ i ∈ m.piecesOf peer_key,
    i < m.num_pieces ∧ torrent_data.BitSet order pieces_root piece_hashes i
  others : ∀ i < m.num_pieces, torrent_data.BitSet order pieces_root piece_hashes i →
    i ∈ m.piecesOf peer_key ∨ torrent_data.Shown piece_hashes i

variable {order : List Nat} {m : AsyncPieceManager} {peer_key : String}

theorem receivePieceLayer_of_nil (h : torrent_data.pieceIndices pieces_root piece_hashes = []) :
    torrent_data.receivePieceLayer order m peer_key pieces_root piece_hashes = m := by
  rw [receivePieceLayer, handlePieceLayerResponse, if_pos h]

/-- The numbers of the pieces are taken for octets. -/
theorem mem_receivePieceLayer (h : torrent_data.pieceIndices pieces_root piece_hashes ≠ []) :
    i ∈ (torrent_data.receivePieceLayer order m peer_key pieces_root piece_hashes).piecesOf
      peer_key ↔ i < m.num_pieces ∧ torrent_data.BitSet order pieces_root piece_hashes i := by
  rw [receivePieceLayer, handlePieceLayerResponse, if_neg h,
    AsyncPieceManager.piecesOf_recordPieces, AsyncPieceManager.mem_parseNumbers, BitSet]

/-- A torrent of 16 pieces, whose hashes are their numbers. -/
def sixteenPieces : TorrentData where
  file_tree := none
  piece_layers := some ⟨[([0], [])], by decide⟩
  piece_hashes := some ((List.range 16).map fun i => [i.toUInt8])

/-- The piece manager of a torrent of 16 pieces, one of whose peers has piece 3. -/
def hasPieceThree : AsyncPieceManager :=
  (AsyncPieceManager.new {} ⟨16, 16, [], none, none, none, 2⟩ none).updatePeerHave
    "10.0.0.1:6881" 3

end Peer.TorrentData

end Ccbt

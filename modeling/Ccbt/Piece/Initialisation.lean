import Ccbt.Piece.Layout

/-!
# How the pieces come to be known: `start_download` of `piece/async_piece_manager.py`

A manager for a magnet link starts without metadata. The number of its pieces can then come from
the metadata, from what connected peers seem to have, or from a checkpoint. `start_download`
takes over the metadata only while the number is zero, so whichever comes first stays.

`start_download` is one step here; the piece selection that it makes a task for is an event of
its own, like everything that `System` can do.
-/

namespace Ccbt

open Python Transition

namespace Piece

/-- `torrent_data["pieces_info"]`, with `none` for a key that is absent. -/
structure PiecesInfo where
  num_pieces : Option Nat := none
  piece_length : Option Nat := none
  piece_hashes : Option (List Bytes) := none

structure TorrentDict where
  pieces_info : PiecesInfo := ⟨some 0, some 16384, some []⟩
  /-- `file_info["total_length"]` of a `file_info` that is not empty. -/
  file_info_total_length : Option Nat := none
  total_length : Option Nat := none
  piece_layers : Option (Dict Bytes (List Bytes)) := none
  meta_version : Int := 1

/-- The values that `__init__` takes from `torrent_data`. -/
def TorrentDict.data (t : TorrentDict) : TorrentData where
  num_pieces := t.pieces_info.num_pieces.getD 0
  piece_length := t.pieces_info.piece_length.getD 16384
  piece_hashes := t.pieces_info.piece_hashes.getD []
  file_info_total_length := t.file_info_total_length
  total_length := t.total_length
  piece_layers := t.piece_layers
  meta_version := t.meta_version

/-- A connection of the peer manager, as far as `start_download` looks at it. -/
structure PeerConnection where
  pieces_we_have : Finset Nat := ∅
  bitfield : Bytes := []

/-- The float next to an integer, ties to even. -/
def toFloat (n : Nat) : Nat :=
  let spare := n.log2 + 1 - 53
  let quotient := n / 2 ^ spare
  let remainder := n % 2 ^ spare
  let half := 2 ^ spare / 2
  if spare = 0 ∨ remainder < half ∨ remainder = half ∧ quotient % 2 = 0 then quotient * 2 ^ spare
  else (quotient + 1) * 2 ^ spare

/-- `int(n * 1.2) + 1`. The float that 1.2 stands for is `5404319552844595 / 2 ^ 52`. -/
def withSafetyMargin (n : Nat) : Nat := toFloat (toFloat n * 5404319552844595) / 2 ^ 52 + 1

/-- One turn of the loop over the connections: `max_piece_index` and `inferred_num_pieces`. -/
def inferFrom (inferred : Int × Nat) (c : PeerConnection) : Int × Nat :=
  let max_piece_index :=
    if c.pieces_we_have = ∅ then inferred.1
    else max inferred.1 ((c.pieces_we_have.sup id : Nat) : Int)
  -- the last byte of a bitfield may stand for one piece only
  let inferred_num_pieces :=
    if c.bitfield = [] then inferred.2 else max inferred.2 (max 1 (c.bitfield.length * 8 - 7))
  (max_piece_index,
    if 0 ≤ max_piece_index then
      max inferred_num_pieces (withSafetyMargin (max_piece_index + 1).toNat)
    else inferred_num_pieces)

/-- The number of pieces that the connections suggest, and zero if they suggest none. -/
def inferNumPieces (connections : List PeerConnection) : Nat :=
  (connections.foldl inferFrom (-1, 0)).2

namespace AsyncPieceManager

variable (config : Config) (t : TorrentDict) (m : AsyncPieceManager)

/-- New pieces with these lengths for a manager that has none. -/
def makePieces (length : Nat → Nat) : AsyncPieceManager :=
  { m with pieces := (List.range m.num_pieces).map fun i => m.newPiece config i (length i) }

def exactLength (piece_index : Nat) : Nat :=
  initialLength { t.data with num_pieces := m.num_pieces, piece_length := m.piece_length }
    piece_index

/-- Metadata is taken over while the number of pieces is not known. -/
def adoptMetadata : AsyncPieceManager :=
  let current_num_pieces := t.data.num_pieces
  if 0 < current_num_pieces ∧ m.num_pieces = 0 then
    let m := { m with
      num_pieces := current_num_pieces
      piece_length := t.pieces_info.piece_length.getD m.piece_length
      piece_hashes := t.pieces_info.piece_hashes.getD m.piece_hashes }
    -- pieces that are there keep the lengths they were made with
    if m.pieces = [] then m.makePieces config (m.exactLength t) else m
  else m

/-- Pieces are made where only their number is known. -/
def ensurePieces : AsyncPieceManager :=
  if 0 < m.num_pieces ∧ m.pieces = [] then
    let m := { m with
      piece_length :=
        match t.pieces_info.piece_length with
        | some piece_length => piece_length
        | none => if m.piece_length = 0 then 16384 else m.piece_length }
    m.makePieces config (m.exactLength t)
  else m

/-- The number of pieces is that of the pieces there are. -/
def countPieces : AsyncPieceManager :=
  if m.num_pieces = 0 ∧ m.pieces ≠ [] then { m with num_pieces := m.pieces.length } else m

/-- The number of pieces is taken from the connections, and all pieces get the same length. -/
def inferPieces (inferred_num_pieces : Nat) : AsyncPieceManager :=
  let m := { m with num_pieces := inferred_num_pieces }
  if m.pieces = [] then
    let m :=
      if m.piece_length = 0 then
        { m with piece_length := t.pieces_info.piece_length.getD 16384 }
      else m
    m.makePieces config fun _ => m.piece_length
  else m

end AsyncPieceManager

/-- A manager with its tasks and what `start_download` sets. -/
structure Download where
  system : System
  torrent_data : TorrentDict
  is_downloading : Bool := false
  /-- `_peer_manager` is set. -/
  peer_manager : Bool := false

/-- What can happen: the metadata arrives, or one of the calls. -/
inductive DownloadEvent
  | metadata
  | start_download (peer_manager : Option (List PeerConnection))
  | restore_from_checkpoint (checkpoint : Checkpoint)
  /-- `_select_pieces`, `request_piece_from_peers` and the other calls and tasks. -/
  | task (event : Event)

namespace Download

variable (config : Config) (s : Download)

/-- `AsyncPieceManager(torrent_data, file_selection_manager)` with callbacks. -/
def new (t : TorrentDict) (fm : Option FileSelectionManager)
    (on_piece_completed on_piece_verified on_download_complete : Bool) : Download where
  system := System.new config t.data fm on_piece_completed on_piece_verified on_download_complete
  torrent_data := t

def setManager (m : AsyncPieceManager) : Download := { s with system := s.system.setManager m }

/-- The end of `start_download`: nothing happens without a peer manager. -/
def beginDownload (peer_manager : Option (List PeerConnection)) : Download :=
  match peer_manager with
  | none => s
  | some _ => { s with is_downloading := true, peer_manager := true }

def startDownload (peer_manager : Option (List PeerConnection)) : Download :=
  let m := s.system.manager.adoptMetadata config s.torrent_data
  let m := (m.ensurePieces config s.torrent_data).countPieces
  if m.num_pieces = 0 then
    let inferred_num_pieces := inferNumPieces (peer_manager.getD [])
    if 0 < inferred_num_pieces then
      (s.setManager (m.inferPieces config s.torrent_data inferred_num_pieces)).beginDownload
        peer_manager
    else
      -- nothing is known, and the next call tries again
      { s.setManager m with
        is_downloading := true
        peer_manager := s.peer_manager || peer_manager.isSome }
  else (s.setManager m).beginDownload peer_manager

def receiveMetadata (t : TorrentDict) : Download :=
  { s.setManager { s.system.manager with torrent_data := t.data } with torrent_data := t }

def step (t : TorrentDict) (s : Download) : DownloadEvent → Download
  | .metadata => s.receiveMetadata t
  | .start_download peer_manager => s.startDownload config peer_manager
  | .restore_from_checkpoint checkpoint =>
    s.setManager (s.system.manager.restoreFromCheckpoint config checkpoint)
  | .task event => { s with system := s.system.step config event }

end Download

/-- `torrent_data` has the total length in one of the two places. -/
def TorrentDict.totalLength (t : TorrentDict) : Option Nat :=
  match t.file_info_total_length with
  | some total_length => some total_length
  | none => t.total_length

/-- A `torrent_data` with metadata that fit together. -/
structure Metadata where
  torrent_data : TorrentDict
  num_pieces : Nat
  piece_length : Nat
  piece_hashes : List Bytes
  total_length : Nat
  pieces_info_eq : torrent_data.pieces_info =
    ⟨some num_pieces, some piece_length, some piece_hashes⟩
  totalLength_eq : torrent_data.totalLength = some total_length
  num_pieces_pos : 0 < num_pieces
  piece_length_pos : 0 < piece_length
  length_piece_hashes : piece_hashes.length = num_pieces
  lt_total_length : (num_pieces - 1) * piece_length < total_length
  total_length_le : total_length ≤ num_pieces * piece_length

/-- A `torrent_data` that says nothing about the pieces. -/
structure TorrentDict.WithoutMetadata (t : TorrentDict) : Prop where
  num_pieces : t.data.num_pieces = 0
  piece_hashes : t.data.piece_hashes = []

/-- The manager has what the metadata say, and its pieces are laid out as the constructor would
have done it. -/
structure MetadataWins (config : Config) (t : Metadata) (fm : Option FileSelectionManager)
    (m : AsyncPieceManager) : Prop where
  num_pieces : m.num_pieces = t.num_pieces
  piece_length : m.piece_length = t.piece_length
  piece_hashes : m.piece_hashes = t.piece_hashes
  pieces : m.pieces.map PieceData.layout =
    (AsyncPieceManager.new config t.torrent_data.data fm).pieces.map PieceData.layout
  length : ∀ (i : Nat) (piece : PieceData), m.pieces[i]? = some piece →
    piece.length = if i + 1 = t.num_pieces then
      t.total_length - (t.num_pieces - 1) * t.piece_length else t.piece_length

namespace Download

/-- While the number of pieces is not known, the event does not make it up: no peer suggests a
number before there are metadata, and no checkpoint brings one. -/
def KeepsUnknown (s : Download) : DownloadEvent → Prop
  | .start_download peer_manager =>
    s.system.manager.num_pieces ≠ 0 ∨ 0 < s.torrent_data.data.num_pieces ∨
      ∀ c ∈ peer_manager.getD [], c.pieces_we_have = ∅ ∧ c.bitfield = []
  | .restore_from_checkpoint checkpoint =>
    s.system.manager.num_pieces ≠ 0 ∨ checkpoint.total_pieces = 0
  | .metadata | .task _ => True

end Download

section Inference

theorem le_inferFrom (inferred : Int × Nat) (c : PeerConnection) :
    inferred.2 ≤ (inferFrom inferred c).2 := by
  rw [inferFrom]
  dsimp only
  split_ifs <;> omega

theorem inferFrom_pos {c : PeerConnection} (hc : ¬(c.pieces_we_have = ∅ ∧ c.bitfield = []))
    (inferred : Int × Nat) : 0 < (inferFrom inferred c).2 := by
  have hmargin (n : Nat) : 0 < withSafetyMargin n := Nat.succ_pos _
  rw [inferFrom]
  dsimp only
  by_cases hpieces : c.pieces_we_have = ∅
  · have hbitfield : c.bitfield ≠ [] := fun h => hc ⟨hpieces, h⟩
    rw [if_neg hbitfield]
    split_ifs <;> omega
  · rw [if_neg hpieces, if_pos (by omega)]
    have := hmargin (max inferred.1 ((c.pieces_we_have.sup id : Nat) : Int) + 1).toNat
    omega

theorem inferFrom_of_empty {c : PeerConnection} (hc : c.pieces_we_have = ∅ ∧ c.bitfield = []) :
    inferFrom (-1, 0) c = (-1, 0) := by
  simp [inferFrom, hc]

/-- A number of pieces is suggested by any connection that has a piece or a bitfield. -/
theorem inferNumPieces_eq_zero_iff {connections : List PeerConnection} :
    inferNumPieces connections = 0 ↔
      ∀ c ∈ connections, c.pieces_we_have = ∅ ∧ c.bitfield = [] := by
  have hmono (connections : List PeerConnection) (inferred : Int × Nat) :
      inferred.2 ≤ (connections.foldl inferFrom inferred).2 := by
    induction connections generalizing inferred with
    | nil => exact le_rfl
    | cons c connections ih => exact (le_inferFrom inferred c).trans (ih _)
  rw [inferNumPieces]
  -- the first connection that has something leaves a positive number, which only grows
  induction connections with
  | nil => simp
  | cons c connections ih =>
    rw [List.foldl_cons, List.forall_mem_cons]
    by_cases hc : c.pieces_we_have = ∅ ∧ c.bitfield = []
    · rw [inferFrom_of_empty hc]
      exact Iff.trans ih (and_iff_right hc).symm
    · have hpos := inferFrom_pos hc (-1, 0)
      have hle := hmono connections (inferFrom (-1, 0) c)
      exact iff_of_false (by omega) fun h => hc h.1

end Inference

section Starting

namespace AsyncPieceManager

variable {config : Config} {t : TorrentDict} {m m' : AsyncPieceManager}
  {fm : Option FileSelectionManager}

/-- Nothing is known about the pieces yet. -/
structure Unknown (fm : Option FileSelectionManager) (m : AsyncPieceManager) : Prop where
  num_pieces : m.num_pieces = 0
  pieces : m.pieces = []
  piece_hashes : m.piece_hashes = []
  selection : m.file_selection_manager = fm

/-- There are pieces, and they can be compared with no hash. -/
structure Spoiled (m : AsyncPieceManager) : Prop where
  num_pieces : m.num_pieces ≠ 0
  pieces : m.pieces ≠ []
  piece_hashes : m.piece_hashes = []

theorem Unknown.of_sameShape (h : m.Unknown fm) (hs : SameShape m m') : m'.Unknown fm where
  num_pieces := hs.num_pieces.trans h.num_pieces
  pieces := hs.pieces_eq_nil_iff.mpr h.pieces
  piece_hashes := hs.piece_hashes.trans h.piece_hashes
  selection := (hs.selection h.pieces).trans h.selection

theorem Spoiled.of_sameShape (h : m.Spoiled) (hs : SameShape m m') : m'.Spoiled where
  num_pieces := by rw [hs.num_pieces]; exact h.num_pieces
  pieces := fun hempty => h.pieces (hs.pieces_eq_nil_iff.mp hempty)
  piece_hashes := hs.piece_hashes.trans h.piece_hashes

theorem Unknown.listed (h : m.Unknown fm) : m.Listed := iff_of_true h.pieces h.num_pieces

/-- The pieces are built alike by managers that agree on their number and on the files. -/
theorem newPiece_congr (hnum : m.num_pieces = m'.num_pieces)
    (hfm : m.file_selection_manager = m'.file_selection_manager) (i length : Nat) :
    m.newPiece config i length = m'.newPiece config i length := by
  rw [newPiece, newPiece, initialPriority, initialPriority, hnum, hfm]

/-- `start_download` leaves a manager as it is that knows its pieces. -/
theorem start_of_pieces (hnum : m.num_pieces ≠ 0) (hpieces : m.pieces ≠ []) :
    ((m.adoptMetadata config t).ensurePieces config t).countPieces = m := by
  rw [adoptMetadata, if_neg fun h => hnum h.2, ensurePieces, if_neg fun h => hpieces h.2,
    countPieces, if_neg fun h => hnum h.1]

/-- So it does with one that knows nothing while there are no metadata. -/
theorem start_of_unknown (h : m.Unknown fm) (ht : t.data.num_pieces = 0) :
    ((m.adoptMetadata config t).ensurePieces config t).countPieces = m := by
  rw [adoptMetadata, if_neg fun hn => hn.1.ne' ht, ensurePieces,
    if_neg fun hn => hn.1.ne' h.num_pieces, countPieces, if_neg fun hn => hn.2 h.pieces]

theorem spoiled_inferPieces (h : m.Unknown fm) {inferred_num_pieces : Nat}
    (hpos : 0 < inferred_num_pieces) : (m.inferPieces config t inferred_num_pieces).Spoiled := by
  have hrange : List.range inferred_num_pieces ≠ [] := by
    rw [Ne, List.range_eq_nil]
    exact hpos.ne'
  rw [inferPieces, if_pos h.pieces]
  dsimp only
  split
  · exact ⟨hpos.ne', fun hn => hrange (List.map_eq_nil_iff.mp hn), h.piece_hashes⟩
  · exact ⟨hpos.ne', fun hn => hrange (List.map_eq_nil_iff.mp hn), h.piece_hashes⟩

theorem spoiled_restoreFromCheckpoint (h : m.Unknown fm) {c : Checkpoint}
    (hpos : 0 < c.total_pieces) : (m.restoreFromCheckpoint config c).Spoiled := by
  obtain ⟨hnum, m', hpieces⟩ := restorePieces_of_empty config hpos h.pieces h.num_pieces
  have hhashes : (m.restorePieces config c).piece_hashes = [] := by
    rw [restorePieces]
    split
    · exact h.piece_hashes
    · exact h.piece_hashes
  refine Spoiled.of_sameShape ⟨?_, ?_, hhashes⟩ (sameShape_restoreFromCheckpoint config m c)
  · rw [hnum]
    exact hpos.ne'
  · rw [hpieces, Ne, List.map_eq_nil_iff, List.range_eq_nil]
    exact hpos.ne'

end AsyncPieceManager

namespace Metadata

variable (t : Metadata)

theorem data_eq : t.torrent_data.data =
    { num_pieces := t.num_pieces
      piece_length := t.piece_length
      piece_hashes := t.piece_hashes
      file_info_total_length := t.torrent_data.file_info_total_length
      total_length := t.torrent_data.total_length
      piece_layers := t.torrent_data.piece_layers
      meta_version := t.torrent_data.meta_version } := by
  rw [TorrentDict.data, t.pieces_info_eq]
  rfl

/-- The lengths that the constructor gives to the pieces. -/
theorem initialLength_eq (i : Nat) : AsyncPieceManager.initialLength t.torrent_data.data i =
    if i + 1 = t.num_pieces then t.total_length - (t.num_pieces - 1) * t.piece_length
    else t.piece_length := by
  have htotal := t.totalLength_eq
  rw [TorrentDict.totalLength] at htotal
  rw [data_eq, AsyncPieceManager.initialLength]
  dsimp only
  by_cases hlast : i + 1 = t.num_pieces
  · have hlt := t.lt_total_length
    have hi : t.num_pieces - 1 = i := by omega
    rw [hi] at hlt
    have hpos : ¬t.total_length - i * t.piece_length = 0 := by omega
    rw [if_pos hlast, if_pos hlast, hi]
    cases hfile : t.torrent_data.file_info_total_length with
    | some n =>
      rw [hfile] at htotal
      cases htotal
      exact if_neg hpos
    | none =>
      rw [hfile] at htotal
      dsimp only at htotal
      rw [htotal]
      exact if_neg hpos
  · rw [if_neg hlast, if_neg hlast]

theorem length_pieces_new (config : Config) (fm : Option FileSelectionManager) :
    (AsyncPieceManager.new config t.torrent_data.data fm).pieces.length = t.num_pieces := by
  rw [AsyncPieceManager.new, List.length_map, List.length_range, data_eq]

end Metadata

namespace MetadataWins

variable {config : Config} {t : Metadata} {fm : Option FileSelectionManager}
  {m m' : AsyncPieceManager}

/-- The layout of the constructor has the lengths of the metadata. -/
theorem of_layout (hnum : m.num_pieces = t.num_pieces) (hlength : m.piece_length = t.piece_length)
    (hhashes : m.piece_hashes = t.piece_hashes)
    (hpieces : m.pieces.map PieceData.layout =
      (AsyncPieceManager.new config t.torrent_data.data fm).pieces.map PieceData.layout) :
    MetadataWins config t fm m := by
  refine ⟨hnum, hlength, hhashes, hpieces, fun i piece hpiece => ?_⟩
  have hget : (m.pieces.map PieceData.layout)[i]? = some piece.layout := by
    rw [List.getElem?_map, hpiece, Option.map_some]
  rw [hpieces, List.getElem?_map, AsyncPieceManager.new, List.getElem?_map, Option.map_map,
    Option.map_eq_some_iff] at hget
  obtain ⟨j, hj, hlayout⟩ := hget
  obtain ⟨hi, rfl⟩ := List.getElem?_eq_some_iff.mp hj
  rw [List.getElem_range] at hlayout
  have hpiece_length : AsyncPieceManager.initialLength t.torrent_data.data i = piece.length :=
    congrArg (fun l => l.2.1) hlayout
  rw [← hpiece_length, t.initialLength_eq]

theorem of_sameShape (h : MetadataWins config t fm m) (hs : SameShape m m') :
    MetadataWins config t fm m' :=
  of_layout (hs.num_pieces.trans h.num_pieces) (hs.piece_length.trans h.piece_length)
    (hs.piece_hashes.trans h.piece_hashes) (hs.pieces.trans h.pieces)

theorem num_pieces_ne_zero (h : MetadataWins config t fm m) : m.num_pieces ≠ 0 := by
  rw [h.num_pieces]
  exact t.num_pieces_pos.ne'

theorem pieces_ne_nil (h : MetadataWins config t fm m) : m.pieces ≠ [] := by
  intro hempty
  have hlength := congrArg List.length h.pieces
  rw [hempty, List.length_map, List.length_map, t.length_pieces_new] at hlength
  exact t.num_pieces_pos.ne hlength

/-- A manager without hashes does not have what the metadata say. -/
theorem not_spoiled (h : MetadataWins config t fm m) : ¬m.Spoiled := by
  intro hspoiled
  have hlength := t.length_piece_hashes
  rw [← h.piece_hashes, hspoiled.piece_hashes] at hlength
  exact t.num_pieces_pos.ne hlength

/-- `start_download` takes over the metadata when nothing is known. -/
theorem of_unknown (h : m.Unknown fm) : MetadataWins config t fm
    (((m.adoptMetadata config t.torrent_data).ensurePieces config
      t.torrent_data).countPieces) := by
  have hadopt : MetadataWins config t fm (m.adoptMetadata config t.torrent_data) := by
    have hpos : 0 < t.torrent_data.data.num_pieces ∧ m.num_pieces = 0 := by
      rw [t.data_eq]
      exact ⟨t.num_pieces_pos, h.num_pieces⟩
    have hnum : t.torrent_data.data.num_pieces = t.num_pieces := by rw [t.data_eq]
    have hlength :
        t.torrent_data.pieces_info.piece_length.getD m.piece_length = t.piece_length := by
      rw [t.pieces_info_eq]
      rfl
    have hhashes : t.torrent_data.pieces_info.piece_hashes.getD m.piece_hashes =
        t.piece_hashes := by
      rw [t.pieces_info_eq]
      rfl
    rw [AsyncPieceManager.adoptMetadata, if_pos hpos]
    dsimp only
    rw [if_pos h.pieces, hlength, hhashes]
    refine of_layout hnum rfl rfl (congrArg _ (List.map_congr_left fun i _ => ?_))
    have hdata : { t.torrent_data.data with
        num_pieces := t.torrent_data.data.num_pieces, piece_length := t.piece_length } =
          t.torrent_data.data := by
      rw [t.data_eq]
    rw [AsyncPieceManager.exactLength, hdata]
    refine AsyncPieceManager.newPiece_congr ?_ ?_ i _
    · rfl
    · exact h.selection
  rw [AsyncPieceManager.ensurePieces, if_neg fun hn => hadopt.pieces_ne_nil hn.2,
    AsyncPieceManager.countPieces, if_neg fun hn => hadopt.num_pieces_ne_zero hn.1]
  exact hadopt

end MetadataWins

end Starting

namespace Download

variable {config : Config} {t : Metadata} {fm : Option FileSelectionManager} {s : Download}
  {e : DownloadEvent} {es : List DownloadEvent}

theorem manager_beginDownload (s : Download) (peer_manager : Option (List PeerConnection)) :
    (s.beginDownload peer_manager).system.manager = s.system.manager := by
  cases peer_manager <;> rfl

theorem torrent_data_beginDownload (s : Download) (peer_manager : Option (List PeerConnection)) :
    (s.beginDownload peer_manager).torrent_data = s.torrent_data := by
  cases peer_manager <;> rfl

theorem torrent_data_startDownload (peer_manager : Option (List PeerConnection)) :
    (s.startDownload config peer_manager).torrent_data = s.torrent_data := by
  rw [startDownload]
  dsimp only
  split
  · split
    · exact torrent_data_beginDownload _ _
    · rfl
  · exact torrent_data_beginDownload _ _

/-- Once there are pieces no event changes their layout. -/
theorem sameShape_step_of_pieces (hnum : s.system.manager.num_pieces ≠ 0)
    (hpieces : s.system.manager.pieces ≠ []) (e : DownloadEvent) :
    SameShape s.system.manager (s.step config t.torrent_data e).system.manager := by
  cases e with
  | metadata => exact ⟨rfl, rfl, rfl, rfl, fun _ => rfl⟩
  | start_download peer_manager =>
    rw [step, startDownload, AsyncPieceManager.start_of_pieces hnum hpieces]
    dsimp only
    rw [if_neg hnum, manager_beginDownload]
    exact .refl _
  | restore_from_checkpoint c =>
    have hsame := AsyncPieceManager.sameShape_restoreFromCheckpoint config s.system.manager c
    rwa [AsyncPieceManager.restorePieces_of_listed fun h => hpieces h.2] at hsame
  | task e => exact System.sameShape_step config (iff_of_false hpieces hnum) e

/-- What holds as long as the events keep the number of pieces unknown: nothing is known, or the
metadata have been taken over. -/
structure OnTrack (config : Config) (t : Metadata) (fm : Option FileSelectionManager)
    (s : Download) : Prop where
  torrent_data : s.torrent_data = t.torrent_data ∨ s.torrent_data.data.num_pieces = 0
  manager : s.system.manager.Unknown fm ∨ MetadataWins config t fm s.system.manager

theorem OnTrack.step_of_metadataWins (h : OnTrack config t fm s)
    (hwins : MetadataWins config t fm s.system.manager) (e : DownloadEvent) :
    OnTrack config t fm (s.step config t.torrent_data e) := by
  refine ⟨?_, .inr (hwins.of_sameShape
    (sameShape_step_of_pieces hwins.num_pieces_ne_zero hwins.pieces_ne_nil e))⟩
  cases e with
  | metadata => exact .inl rfl
  | start_download peer_manager =>
    rw [step, torrent_data_startDownload]
    exact h.torrent_data
  | restore_from_checkpoint | task => exact h.torrent_data

/-- Whatever was called before, `start_download` takes over metadata that have arrived. -/
theorem OnTrack.metadataWins_startDownload (h : OnTrack config t fm s)
    (ht : s.torrent_data = t.torrent_data) (peer_manager : Option (List PeerConnection)) :
    MetadataWins config t fm (s.startDownload config peer_manager).system.manager := by
  have hwins : MetadataWins config t fm (((s.system.manager.adoptMetadata config
      s.torrent_data).ensurePieces config s.torrent_data).countPieces) := by
    rcases h.manager with hunknown | hwins
    · rw [ht]
      exact .of_unknown hunknown
    · rwa [AsyncPieceManager.start_of_pieces hwins.num_pieces_ne_zero hwins.pieces_ne_nil]
  rw [startDownload]
  dsimp only
  rw [if_neg hwins.num_pieces_ne_zero, manager_beginDownload]
  exact hwins

theorem OnTrack.step (h : OnTrack config t fm s) (he : KeepsUnknown s e) :
    OnTrack config t fm (s.step config t.torrent_data e) := by
  rcases h.manager with hunknown | hwins
  · cases e with
    | metadata =>
      exact ⟨.inl rfl, .inl (hunknown.of_sameShape ⟨rfl, rfl, rfl, rfl, fun _ => rfl⟩)⟩
    | start_download peer_manager =>
      refine ⟨?_, ?_⟩
      · rw [Download.step, torrent_data_startDownload]
        exact h.torrent_data
      · rcases h.torrent_data with ht | ht
        · -- the metadata are there, and nothing has been made up yet
          exact .inr (h.metadataWins_startDownload ht peer_manager)
        · -- without metadata the peers must not suggest a number
          have hnone : inferNumPieces (peer_manager.getD []) = 0 := by
            rw [inferNumPieces_eq_zero_iff]
            rcases he with hnum | hmetadata | hnone
            · exact absurd hunknown.num_pieces hnum
            · exact absurd ht hmetadata.ne'
            · exact hnone
          rw [Download.step, startDownload, AsyncPieceManager.start_of_unknown hunknown ht]
          dsimp only
          rw [if_pos hunknown.num_pieces, if_neg hnone.not_gt]
          exact .inl hunknown
    | restore_from_checkpoint c =>
      -- a checkpoint without pieces makes none
      have htotal : c.total_pieces = 0 := he.resolve_left fun hnum => hnum hunknown.num_pieces
      have hsame := AsyncPieceManager.sameShape_restoreFromCheckpoint config
        s.system.manager c
      rw [AsyncPieceManager.restorePieces_of_listed fun hn => hn.1.ne' htotal] at hsame
      exact ⟨h.torrent_data, .inl (hunknown.of_sameShape hsame)⟩
    | task e =>
      have hsame := System.sameShape_step config hunknown.listed e
      exact ⟨h.torrent_data, .inl (hunknown.of_sameShape hsame)⟩
  · exact h.step_of_metadataWins hwins e

/-- An event that makes up the number of pieces leaves pieces that no hash belongs to. -/
theorem OnTrack.spoiled_step (h : OnTrack config t fm s) (he : ¬KeepsUnknown s e) :
    (s.step config t.torrent_data e).system.manager.Spoiled := by
  have hunknown (hnum : s.system.manager.num_pieces = 0) : s.system.manager.Unknown fm :=
    h.manager.resolve_right fun hwins => hwins.num_pieces_ne_zero hnum
  cases e with
  | metadata | task => exact absurd trivial he
  | start_download peer_manager =>
    rw [KeepsUnknown, not_or, not_or, not_not] at he
    obtain ⟨hnum, hmetadata, hsome⟩ := he
    have ht : s.torrent_data.data.num_pieces = 0 := Nat.eq_zero_of_not_pos hmetadata
    have hpos : 0 < inferNumPieces (peer_manager.getD []) :=
      Nat.pos_of_ne_zero fun hzero => hsome (inferNumPieces_eq_zero_iff.mp hzero)
    rw [Download.step, startDownload, AsyncPieceManager.start_of_unknown (hunknown hnum) ht]
    dsimp only
    rw [if_pos hnum, if_pos hpos, manager_beginDownload]
    exact AsyncPieceManager.spoiled_inferPieces (hunknown hnum) hpos
  | restore_from_checkpoint c =>
    rw [KeepsUnknown, not_or, not_not] at he
    exact AsyncPieceManager.spoiled_restoreFromCheckpoint (hunknown he.1)
      (Nat.pos_of_ne_zero he.2)

theorem spoiled_step (h : s.system.manager.Spoiled) (e : DownloadEvent) :
    (s.step config t.torrent_data e).system.manager.Spoiled :=
  h.of_sameShape (sameShape_step_of_pieces h.num_pieces h.pieces e)

theorem onTrack_new (config : Config) (t : Metadata) {t₀ : TorrentDict}
    (h₀ : t₀.WithoutMetadata) (fm : Option FileSelectionManager) (a b c : Bool) :
    OnTrack config t fm (new config t₀ fm a b c) := by
  refine ⟨.inr h₀.num_pieces, .inl ⟨h₀.num_pieces, ?_, h₀.piece_hashes, rfl⟩⟩
  show (List.range t₀.data.num_pieces).map _ = []
  rw [h₀.num_pieces]
  rfl

/-- Once the metadata have arrived and `start_download` has been called again, the manager has
what they say, then and ever after, exactly if no call before has made up the number of
pieces. -/
theorem always_metadataWins_iff (config : Config) (t₀ : TorrentDict) (h₀ : t₀.WithoutMetadata)
    (t : Metadata) (fm : Option FileSelectionManager) (a b c : Bool) (es : List DownloadEvent)
    (peer_manager : Option (List PeerConnection)) (es' : List DownloadEvent) :
    Always (step config t.torrent_data) (fun s => MetadataWins config t fm s.system.manager)
        (run (step config t.torrent_data) (new config t₀ fm a b c)
          (es ++ [.metadata, .start_download peer_manager])) es' ↔
      StepsMeet (step config t.torrent_data) KeepsUnknown (new config t₀ fm a b c) es := by
  have hgood : ∀ (s : Download) (e : DownloadEvent), OnTrack config t fm s → KeepsUnknown s e →
      OnTrack config t fm (s.step config t.torrent_data e) := fun s e h he => h.step he
  have hlost : ∀ (s : Download) (e : DownloadEvent), OnTrack config t fm s → ¬KeepsUnknown s e →
      (s.step config t.torrent_data e).system.manager.Spoiled := fun s e h he => h.spoiled_step he
  have hspoiled : ∀ (s : Download) (e : DownloadEvent), s.system.manager.Spoiled →
      (s.step config t.torrent_data e).system.manager.Spoiled := fun s e h => spoiled_step h e
  have hrun : (StepsMeet (step config t.torrent_data) KeepsUnknown (new config t₀ fm a b c) es ∧
        OnTrack config t fm (run (step config t.torrent_data) (new config t₀ fm a b c) es)) ∨
      (¬StepsMeet (step config t.torrent_data) KeepsUnknown (new config t₀ fm a b c) es ∧
        (run (step config t.torrent_data) (new config t₀ fm a b c) es).system.manager.Spoiled) :=
    run_good_or_bad hgood hlost hspoiled (onTrack_new config t h₀ fm a b c)
  have hlast : run (step config t.torrent_data) (new config t₀ fm a b c)
      (es ++ [.metadata, .start_download peer_manager]) =
        ((run (step config t.torrent_data) (new config t₀ fm a b c) es).step config
          t.torrent_data .metadata).step config t.torrent_data (.start_download peer_manager) := by
    rw [run_append]
    rfl
  rw [hlast]
  generalize run (step config t.torrent_data) (new config t₀ fm a b c) es = s at hrun
  rcases hrun with ⟨hmeet, hgood⟩ | ⟨hmeet, hbad⟩
  · refine iff_of_true ?_ hmeet
    have hmetadata : OnTrack config t fm (s.step config t.torrent_data .metadata) :=
      hgood.step trivial
    have hkept : ∀ (s : Download) (e : DownloadEvent),
        MetadataWins config t fm s.system.manager →
          MetadataWins config t fm (s.step config t.torrent_data e).system.manager :=
      fun s e hwins => hwins.of_sameShape
        (sameShape_step_of_pieces hwins.num_pieces_ne_zero hwins.pieces_ne_nil e)
    exact always_of_invariant hkept (hmetadata.metadataWins_startDownload rfl peer_manager) es'
  · refine iff_of_false (fun halways => ?_) hmeet
    exact halways.head.not_spoiled
      (spoiled_step (spoiled_step hbad .metadata) (.start_download peer_manager))

/-- The metadata of two pieces, the last one shorter. -/
def twoPieces : Metadata where
  torrent_data :=
    { pieces_info := ⟨some 2, some 16384, some [sha1 [1], sha1 [2]]⟩
      total_length := some 20000 }
  num_pieces := 2
  piece_length := 16384
  piece_hashes := [sha1 [1], sha1 [2]]
  total_length := 20000
  pieces_info_eq := rfl
  totalLength_eq := rfl
  num_pieces_pos := by decide
  piece_length_pos := by decide
  length_piece_hashes := rfl
  lt_total_length := by decide
  total_length_le := by decide

/-- One connected peer that has sent a bitfield for two pieces. -/
def onePeer : List PeerConnection := [{ pieces_we_have := {0, 1}, bitfield := [0xC0] }]

theorem metadataWins_onePeer_iff :
    Always (step {} twoPieces.torrent_data)
        (fun s => MetadataWins {} twoPieces none s.system.manager)
        (run (step {} twoPieces.torrent_data) (new {} {} none true true true)
          ([.start_download none] ++ [.metadata, .start_download (some onePeer)]))
        [.task (._select_pieces 1)] ↔
      StepsMeet (step {} twoPieces.torrent_data) KeepsUnknown (new {} {} none true true true)
        [.start_download none] :=
  always_metadataWins_iff {} {} ⟨rfl, rfl⟩ twoPieces none true true true [.start_download none]
    (some onePeer) [.task (._select_pieces 1)]

/-- A download that is started before the metadata arrive keeps the three pieces that it has
inferred from the only peer. -/
theorem not_metadataWins_onePeer :
    ¬MetadataWins {} twoPieces none
      (run (step {} twoPieces.torrent_data) (new {} {} none true true true)
        [.start_download (some onePeer), .metadata,
          .start_download (some onePeer)]).system.manager := by
  intro hwins
  have hnum : (run (step {} twoPieces.torrent_data) (new {} {} none true true true)
      [.start_download (some onePeer), .metadata,
        .start_download (some onePeer)]).system.manager.num_pieces = 3 := by decide +kernel
  rw [hwins.num_pieces] at hnum
  exact absurd hnum (by decide)

end Download

end Piece

end Ccbt

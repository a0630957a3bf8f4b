import Ccbt.Core.TorrentV2.PieceNumbering
import Ccbt.Piece.Manager

/-!
# The hash of a v2 piece: `_get_v2_piece_hash`

The lookup counts through the layers as they stand in the dictionary, the order of the
decoded keys, while the pieces are numbered in the order of the files. What it finds for a
piece is its hash if the two orders agree and no file with pieces is without a layer.
-/

namespace Ccbt

open Python Torrent TorrentV2

namespace Piece

/-- The `piece_layers` of `_extract_torrent_data`. -/
def pieceLayersDict (pieceLayers : Layers) : Dict Bytes (List Bytes) :=
  pieceLayers.entries.foldl (fun d e => d.set e.1 e.2.pieces) .empty

/-- What `normalize_torrent_data` makes of a torrent with v2 parts. -/
def normalizeTorrentData (v2 : TorrentV2Info) (hybrid : Bool) : TorrentData where
  num_pieces := v2.numPieces
  piece_length := v2.pieceLength.toNat
  piece_hashes := []
  file_info_total_length := some v2.totalLength.toNat
  piece_layers :=
    let piece_layers := pieceLayersDict v2.pieceLayers
    -- an empty dictionary is not passed on
    if piece_layers.entries.isEmpty then none else some piece_layers
  meta_version := if hybrid then 3 else 2

theorem values_pieceLayersDict (pieceLayers : Layers) :
    (pieceLayersDict pieceLayers).values = pieceLayers.values.map PieceLayer.pieces := by
  have hfold (es : List (Bytes × PieceLayer)) (d : Dict Bytes (List Bytes)) :
      (es.foldl (fun d e => d.set e.1 e.2.pieces) d).entries =
        (es.map fun e => (e.1, e.2.pieces)).foldl (fun d e => setEntry e.1 e.2 d) d.entries := by
    induction es generalizing d with
    | nil => rfl
    | cons e es ih => rw [List.foldl_cons, ih, List.map_cons, List.foldl_cons]; rfl
  have hkeys : (([] ++ pieceLayers.entries.map fun e : Bytes × PieceLayer =>
      (e.1, e.2.pieces)).map Prod.fst).Nodup := by
    rw [List.nil_append, List.map_map]
    exact pieceLayers.nodup_keys
  rw [Dict.values, pieceLayersDict, hfold, Dict.empty, foldl_setEntry_eq_append hkeys,
    List.nil_append, Dict.values, List.map_map, List.map_map]
  rfl

namespace AsyncPieceManager

/-- The comparison of `_verify_piece_hash` with the v2 hash. -/
def verifiesV2 (config : Config) (m : AsyncPieceManager) (piece_index : Nat) (piece : PieceData) :
    Bool :=
  match m.getV2PieceHash piece_index with
  | none => false
  | some expected_hash => hashPieceOptimized config piece expected_hash

variable {config : Config} {m : AsyncPieceManager} {v2 : TorrentV2Info}

/-- For a v2 torrent it decides alone. -/
theorem hashesToExpected_eq_verifiesV2 (h : m.meta_version = 2) (i : Nat) (piece : PieceData) :
    m.hashesToExpected config i piece = m.verifiesV2 config i piece := by
  rw [hashesToExpected, firstHash, if_pos h, verifiesV2]
  cases m.getV2PieceHash i with
  | none => rfl
  | some h => rfl

/-- For a hybrid torrent it has to succeed too. -/
theorem verifiesV2_of_hashesToExpected (h : m.meta_version = 3) {i : Nat} {piece : PieceData}
    (hpiece : m.hashesToExpected config i piece = true) : m.verifiesV2 config i piece = true := by
  have hne : ¬m.meta_version = 2 := by omega
  rw [hashesToExpected, firstHash, if_neg hne, if_pos h] at hpiece
  cases hfirst : m.piece_hashes[i]? with
  | none =>
    rw [hfirst] at hpiece
    cases hpiece
  | some expected_hash =>
    rw [hfirst] at hpiece
    exact (Bool.and_eq_true_iff.mp hpiece).2

theorem hashPieceOptimized_iff {piece : PieceData} {data expected_hash : Bytes}
    (hdata : piece.getData = some data) (hlen : expected_hash.length = 32) :
    hashPieceOptimized config piece expected_hash = true ↔ sha256 data = expected_hash := by
  rw [hashPieceOptimized, hdata]
  dsimp only
  rw [if_pos hlen, flatten_pieces config.hash_chunk_size_pos, beq_iff_eq]

/-- The loop finds what stands at the index in the layers one after the other. -/
theorem v2HashFrom_eq {piece_index current_offset : Nat} (h : current_offset ≤ piece_index)
    (piece_lists : List (List Bytes)) : v2HashFrom piece_index current_offset piece_lists =
      piece_lists.flatten[piece_index - current_offset]? := by
  induction piece_lists generalizing current_offset with
  | nil => rfl
  | cons piece_list rest ih =>
    rw [v2HashFrom, List.flatten_cons]
    split
    · rw [List.getElem?_append_left (by omega)]
    · rw [ih (by omega), List.getElem?_append_right (by omega)]
      congr 1
      omega

variable (config) in
theorem getV2PieceHash_new (v2 : TorrentV2Info) (hybrid : Bool) (fm : Option FileSelectionManager)
    (i : Nat) : (new config (normalizeTorrentData v2 hybrid) fm).getV2PieceHash i =
      v2.layerHashes[i]? := by
  have hlayers : (new config (normalizeTorrentData v2 hybrid) fm).piece_layers =
      if (pieceLayersDict v2.pieceLayers).entries.isEmpty then none
      else some (pieceLayersDict v2.pieceLayers) := rfl
  have hvalues : v2.layerHashes = (pieceLayersDict v2.pieceLayers).values.flatten := by
    rw [values_pieceLayersDict, TorrentV2Info.layerHashes, List.flatMap_def]
  rw [getV2PieceHash, hlayers, hvalues]
  split
  · next h =>
    split at h
    · next hempty =>
      rw [Dict.values, List.isEmpty_iff.mp hempty]
      rfl
    · cases h
  · next piece_layers h =>
    split at h
    · cases h
    · cases h
      exact v2HashFrom_eq (Nat.zero_le i) _

/-- Every index that a file owns, where the files are numbered in their order, has the hash of
the file for its piece, and what is compared with it is right exactly if it has that hash. -/
structure VerifiesInFileOrder (config : Config) (m : AsyncPieceManager) (v2 : TorrentV2Info) :
    Prop where
  hash : ∀ (i : Nat) (o : Option Bytes), v2.hashesInFileOrder[i]? = some o →
    m.getV2PieceHash i = o
  verifies : ∀ (i : Nat) (h : Bytes) (piece : PieceData) (data : Bytes),
    v2.hashesInFileOrder[i]? = some (some h) → piece.getData = some data →
      (m.verifiesV2 config i piece = true ↔ sha256 data = h)

theorem length_of_mem_layerHashes {h : Bytes} (hh : h ∈ v2.layerHashes) : h.length = 32 := by
  obtain ⟨layer, -, hmem⟩ := List.mem_flatMap.mp hh
  exact layer.pieces_length h hmem

/-- The torrent is looked up in file order exactly if its layers stand in that order. -/
theorem verifiesInFileOrder_iff_layers (config : Config) (v2 : TorrentV2Info) (hybrid : Bool)
    (fm : Option FileSelectionManager) :
    VerifiesInFileOrder config (new config (normalizeTorrentData v2 hybrid) fm) v2 ↔
      v2.LayersInFileOrder := by
  rw [TorrentV2Info.LayersInFileOrder, Prefix.prefix_append_replicate_iff]
  constructor
  · intro hright i o ho
    rw [← getV2PieceHash_new config v2 hybrid fm i]
    exact hright.hash i o ho
  · intro hlayers
    constructor
    · intro i o ho
      rw [getV2PieceHash_new, hlayers i o ho]
    · intro i h piece data ho hdata
      -- what is found is a hash of a layer, so it has the length of a SHA-256 hash
      have hget := hlayers i (some h) ho
      rw [verifiesV2, getV2PieceHash_new, hget]
      exact hashPieceOptimized_iff hdata (length_of_mem_layerHashes (List.mem_of_getElem? hget))

/-- A torrent is looked up in file order exactly if its layers stand in that order. Where they fit
the files, that does not depend on the hashes only if the layers with hashes begin with those of
the files that have pieces, one for each, in file order. -/
theorem verifiesInFileOrder_iff (config : Config) (v2 : TorrentV2Info) (hybrid : Bool)
    (fm : Option FileSelectionManager) :
    (VerifiesInFileOrder config (new config (normalizeTorrentData v2 hybrid) fm) v2 ↔
      v2.LayersInFileOrder) ∧
    (v2.LayersFit →
      ((∀ hash, VerifiesInFileOrder config
          (new config (normalizeTorrentData (v2.withHashes hash) hybrid) fm)
          (v2.withHashes hash)) ↔
        v2.fileRoots <+: v2.layerRoots)) := by
  refine ⟨verifiesInFileOrder_iff_layers config v2 hybrid fm, fun hfit => ?_⟩
  rw [← hfit.layersInFileOrder_iff]
  exact forall_congr' fun hash => verifiesInFileOrder_iff_layers config _ hybrid fm

/-! ### Two files -/

/-- The info dictionary of a torrent with pieces of one octet and two files, whose layers are
sorted by their roots. -/
def twoFileInfo (a b : Bytes) : PyDict :=
  let fileNode (content : Bytes) : PyObj := .dict [entry "" (.dict [
    entry "length" (.int content.length), entry "pieces root" (.bytes (piecesRootOf 1 content))])]
  let pieceLayers := (sortOn (piecesRootOf 1) [a, b]).map fun content =>
    (.bytes (piecesRootOf 1 content), .bytes (pieceHashes 1 content).flatten)
  [entry "file tree" (.dict [entry "a" (fileNode a), entry "b" (fileNode b)]),
    entry "meta version" (.int 2), entry "name" (.bytes (ascii "n")),
    entry "piece layers" (.dict pieceLayers), entry "piece length" (.int 1)]

theorem exists_of_parseV2 {α : Type} (info data : PyDict) (f : TorrentV2Info → α) {x : α}
    (h : (parseV2 info data).toOption.map f = some x) :
    ∃ v2, parseV2 info data = .ok v2 ∧ f v2 = x := by
  cases hparse : parseV2 info data with
  | error e =>
    rw [hparse] at h
    cases h
  | ok v2 =>
    rw [hparse] at h
    exact ⟨v2, rfl, Option.some.inj h⟩

/-- Of these files the first has the greater root. -/
theorem not_verifiesInFileOrder_twoFiles : ∃ v2,
    parseV2 (twoFileInfo [2, 3] [1, 2]) [] = .ok v2 ∧
    v2.hashesInFileOrder[0]? = some (some (sha256 [2])) ∧
    (new {} (normalizeTorrentData v2 false) none).getV2PieceHash 0 = some (sha256 [1]) ∧
    ¬VerifiesInFileOrder {} (new {} (normalizeTorrentData v2 false) none) v2 := by
  obtain ⟨v2, hparse, hfound⟩ := exists_of_parseV2 (twoFileInfo [2, 3] [1, 2]) []
    (fun v2 => (v2.hashesInFileOrder[0]?, v2.layerHashes[0]?, decide v2.LayersInFileOrder))
    (x := (some (some (sha256 [2])), some (sha256 [1]), false)) (by decide +kernel)
  simp only [Prod.mk.injEq, decide_eq_false_iff_not] at hfound
  obtain ⟨hhash, hlayer, hnot⟩ := hfound
  refine ⟨v2, hparse, hhash, ?_, ?_⟩
  · rw [getV2PieceHash_new, hlayer]
  · rw [verifiesInFileOrder_iff_layers]
    exact hnot

/-- The other way round the layers are in file order, whatever their hashes are. -/
theorem verifiesInFileOrder_twoFiles : ∃ v2,
    parseV2 (twoFileInfo [1, 2] [2, 3]) [] = .ok v2 ∧ v2.LayersFit ∧
    VerifiesInFileOrder {} (new {} (normalizeTorrentData v2 false) none) v2 ∧
    ∀ hash, VerifiesInFileOrder {}
      (new {} (normalizeTorrentData (v2.withHashes hash) false) none) (v2.withHashes hash) := by
  obtain ⟨v2, hparse, hfound⟩ := exists_of_parseV2 (twoFileInfo [1, 2] [2, 3]) []
    (fun v2 => (decide v2.LayersFit, decide v2.LayersInFileOrder,
      decide (v2.fileRoots <+: v2.layerRoots)))
    (x := (true, true, true)) (by decide +kernel)
  simp only [Prod.mk.injEq, decide_eq_true_eq] at hfound
  obtain ⟨hfit, hlayers, hroots⟩ := hfound
  obtain ⟨hone, hall⟩ := verifiesInFileOrder_iff {} v2 false none
  exact ⟨v2, hparse, hfit, hone.mpr hlayers, (hall hfit).mpr hroots⟩

end AsyncPieceManager

end Piece

end Ccbt

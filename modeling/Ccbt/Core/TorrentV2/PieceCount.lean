import Ccbt.Core.TorrentV2.Hybrid
import Ccbt.Core.TorrentV2.PieceNumbering

/-!
# How many pieces a v2 torrent has

The parser adds up the hashes of all layers, also of those that belong to no file. Where every
file has a layer of its own, that is the number of pieces of the files and of these hashes.
-/

namespace Ccbt

open Python Torrent

namespace TorrentV2

/-! ### What a torrent is converted to -/

mutual

theorem extractFilesFromTree_total {node : FileTreeNode} {path : Str} {files : List FileInfo}
    (h : extractFilesFromTree node path = .ok files) :
    (files.map FileInfo.length).sum = calculateTotalLength node ∧
      ∀ f ∈ files, f.attributes = none := by
  match node with
  | .childless name length (some root) =>
    rw [extractFilesFromTree, nodeFileInfo] at h
    split at h
    · cases h
      rw [calculateTotalLength, List.map_singleton, List.sum_singleton]
      refine ⟨rfl, fun f hf => ?_⟩
      rw [List.mem_singleton.mp hf]
    · cases h
  | .withChildren name length none children =>
    rw [calculateTotalLength]
    exact extractFilesOfChildren_total h
  | .childless name length none | .withChildren name length (some root) children =>
    cases h
    exact ⟨rfl, nofun⟩

/-- The files have the octets that the tree counts, and no attributes. -/
theorem extractFilesOfChildren_total {children : List (Str × FileTreeNode)} {path : Str}
    {files : List FileInfo} (h : extractFilesOfChildren children path = .ok files) :
    (files.map FileInfo.length).sum = totalChildren children ∧
      ∀ f ∈ files, f.attributes = none := by
  match children with
  | [] =>
    cases h
    exact ⟨rfl, nofun⟩
  | (name, child) :: children =>
    obtain ⟨files₁, h₁, h⟩ := bind_eq_ok h
    obtain ⟨files₂, h₂, h⟩ := bind_eq_ok h
    cases h
    obtain ⟨htotal₁, hnone₁⟩ := extractFilesFromTree_total h₁
    obtain ⟨htotal₂, hnone₂⟩ := extractFilesOfChildren_total h₂
    refine ⟨?_, fun f hf => (List.mem_append.mp hf).elim (hnone₁ f) (hnone₂ f)⟩
    rw [List.map_append, List.sum_append, htotal₁, htotal₂, totalChildren]

end

theorem parseV2_counts {info data : PyDict} {v2 : TorrentV2Info}
    (h : parseV2 info data = .ok v2) :
    v2.totalLength = totalChildren v2.fileTree ∧
      v2.numPieces = (v2.pieceLayers.values.map PieceLayer.numPieces).sum := by
  obtain ⟨_, -, h⟩ := bind_eq_ok h
  obtain ⟨_, -, h⟩ := bind_eq_ok h
  obtain ⟨_, -, h⟩ := bind_eq_ok h
  obtain ⟨_, -, h⟩ := bind_eq_ok h
  obtain ⟨_, -, h⟩ := bind_eq_ok h
  obtain ⟨_, -, h⟩ := bind_eq_ok h
  obtain ⟨_, -, h⟩ := bind_eq_ok h
  obtain ⟨_, -, h⟩ := bind_eq_ok h
  obtain ⟨_, -, h⟩ := bind_eq_ok h
  obtain ⟨_, -, h⟩ := bind_eq_ok h
  obtain ⟨_, -, h⟩ := bind_eq_ok h
  obtain ⟨_, -, h⟩ := bind_eq_ok h
  obtain ⟨_, -, h⟩ := bind_eq_ok h
  obtain ⟨_, -, h⟩ := bind_eq_ok h
  cases h
  exact ⟨rfl, rfl⟩

/-- The converted torrent has the layout of the parsed one. -/
theorem convert_layout {coerceInt : Bytes → Option Int} {version : Int} {v2 : TorrentV2Info}
    {t : TorrentInfo} (h : convert coerceInt version none v2 = .ok t) :
    t.files = v2.files ∧ t.totalLength = v2.totalLength ∧ t.pieceLength = v2.pieceLength ∧
      t.numPieces = v2.numPieces := by
  obtain ⟨_, -, h⟩ := bind_eq_ok h
  split at h
  · cases h
    exact ⟨rfl, rfl, rfl, rfl⟩
  · cases h

namespace TorrentV2Info

variable {v2 : TorrentV2Info}

/-- Every file has a layer with a hash for each of its pieces. -/
def HasLayers (v2 : TorrentV2Info) : Prop :=
  ∀ file ∈ v2.pieceFiles,
    (v2.pieceLayers.get? file.piecesRoot).map PieceLayer.numPieces = some (v2.numPiecesOf file)

instance : Decidable v2.HasLayers := inferInstanceAs (Decidable (∀ file ∈ v2.pieceFiles, _))

/-- The layers whose roots are of no file. -/
def otherLayers (v2 : TorrentV2Info) : List (Bytes × PieceLayer) :=
  v2.pieceLayers.entries.filter fun e => e.1 ∉ v2.pieceFiles.map PieceFile.piecesRoot

/-- The layers of the files, in whatever order. -/
theorem HasLayers.fileLayers_perm (h : v2.HasLayers)
    (hroots : (v2.pieceFiles.map PieceFile.piecesRoot).Nodup) :
    ((v2.pieceLayers.entries.filter fun e =>
      e.1 ∈ v2.pieceFiles.map PieceFile.piecesRoot).map Prod.fst).Perm
        (v2.pieceFiles.map PieceFile.piecesRoot) := by
  refine (List.perm_ext_iff_of_nodup ?_ hroots).mpr fun root => ?_
  · exact v2.pieceLayers.nodup_keys.sublist (List.filter_sublist.map Prod.fst)
  · constructor
    · intro hroot
      obtain ⟨e, he, rfl⟩ := List.mem_map.mp hroot
      exact of_decide_eq_true (List.mem_filter.mp he).2
    · intro hroot
      obtain ⟨file, hfile, rfl⟩ := List.mem_map.mp hroot
      obtain ⟨layer, hlayer, -⟩ := Option.map_eq_some_iff.mp (h file hfile)
      have he : (file.piecesRoot, layer) ∈ v2.pieceLayers.entries :=
        v2.pieceLayers.get?_eq_some_iff.mp hlayer
      exact List.mem_map.mpr ⟨_, List.mem_filter.mpr ⟨he, decide_eq_true hroot⟩, rfl⟩

/-- The hashes of all layers are those of the files and those of the other layers. -/
theorem HasLayers.sum_numPieces (h : v2.HasLayers)
    (hroots : (v2.pieceFiles.map PieceFile.piecesRoot).Nodup) :
    (v2.pieceLayers.values.map PieceLayer.numPieces).sum =
      (v2.pieceFiles.map v2.numPiecesOf).sum +
        (v2.otherLayers.map fun e => e.2.numPieces).sum := by
  -- the number of hashes under a root
  let count (root : Bytes) : Nat := ((v2.pieceLayers.get? root).map PieceLayer.numPieces).getD 0
  have hcount : ∀ e ∈ v2.pieceLayers.entries, e.2.numPieces = count e.1 := by
    intro e he
    have hget : v2.pieceLayers.get? e.1 = some e.2 := v2.pieceLayers.get?_eq_some_iff.mpr he
    simp only [count, hget, Option.map_some, Option.getD_some]
  have hfiles : ((v2.pieceLayers.entries.filter fun e =>
      e.1 ∈ v2.pieceFiles.map PieceFile.piecesRoot).map fun e => e.2.numPieces).sum =
        (v2.pieceFiles.map v2.numPiecesOf).sum := by
    have hcounted : v2.pieceFiles.map v2.numPiecesOf =
        (v2.pieceFiles.map PieceFile.piecesRoot).map count := by
      rw [List.map_map]
      refine List.map_congr_left fun file hfile => ?_
      simp only [Function.comp, count, h file hfile, Option.getD_some]
    have hlayers : ((v2.pieceLayers.entries.filter fun e =>
        e.1 ∈ v2.pieceFiles.map PieceFile.piecesRoot).map fun e => e.2.numPieces) =
          ((v2.pieceLayers.entries.filter fun e =>
            e.1 ∈ v2.pieceFiles.map PieceFile.piecesRoot).map Prod.fst).map count := by
      rw [List.map_map]
      exact List.map_congr_left fun e he => hcount e (List.mem_filter.mp he).1
    rw [hcounted, hlayers]
    exact ((h.fileLayers_perm hroots).map count).sum_nat
  have hsplit := (List.filter_append_perm
    (fun e : Bytes × PieceLayer => decide (e.1 ∈ v2.pieceFiles.map PieceFile.piecesRoot))
    v2.pieceLayers.entries).map fun e => e.2.numPieces
  rw [List.map_append] at hsplit
  have hvalues : v2.pieceLayers.values.map PieceLayer.numPieces =
      v2.pieceLayers.entries.map fun e => e.2.numPieces := by
    rw [Dict.values, List.map_map]
    rfl
  have hother : v2.otherLayers = v2.pieceLayers.entries.filter fun e =>
      !decide (e.1 ∈ v2.pieceFiles.map PieceFile.piecesRoot) := by
    simp only [otherLayers, decide_not]
  rw [hvalues, ← hsplit.sum_nat, List.sum_append, hfiles, hother]

end TorrentV2Info

end TorrentV2

end Ccbt

import Ccbt.Core.TorrentV2.LayerContents
import Ccbt.Core.TorrentV2.TreeDict

/-!
# A v2 torrent describes its source

What `generate_v2_torrent` writes for a source is accepted by `parse_v2`, which lists the
files of the source and has a piece layer for each of their roots.
-/

namespace Ccbt

open Python Torrent Bencode HashV2

namespace TorrentV2

/-! ### Piece layers -/

/-- A piece layer is read back from its concatenated hashes. -/
theorem parsePieceLayer_flatten (layer : PieceLayer) :
    parsePieceLayer layer.pieceLength layer.pieces.flatten = .ok layer := by
  obtain ⟨pieceLength, hashes, hlen⟩ := layer
  have hpieces : pieces 32 hashes.flatten = hashes := by
    have hfull := pieces_flatten_append (by decide : 0 < 32) hlen []
    rwa [List.append_nil, pieces_nil, List.append_nil] at hfull
  have hmod : hashes.flatten.length % 32 = 0 := by
    have hsum : hashes.flatten.length = hashes.length * 32 := by
      rw [List.length_flatten, List.map_congr_left hlen, List.map_const', List.sum_replicate_nat]
    rw [hsum, Nat.mul_mod_left]
  simp only [parsePieceLayer, dif_pos hmod, hpieces]

/-- The loop over the piece layers of a torrent. -/
theorem parsePieceLayers_spec {pieceLength : Int} {es : List (Bytes × PieceLayer)}
    (h : ∀ e ∈ es, e.1.length = 32 ∧ e.2.pieceLength = pieceLength) (pieceLayers : Layers)
    (hkeys : (pieceLayers.entries.map Prod.fst ++ es.map Prod.fst).Nodup) :
    ∃ result, parsePieceLayers pieceLength
        (es.map fun e => (.bytes e.1, .bytes e.2.pieces.flatten)) pieceLayers = .ok result ∧
      result.entries = pieceLayers.entries ++ es := by
  induction es generalizing pieceLayers with
  | nil => exact ⟨pieceLayers, rfl, (List.append_nil _).symm⟩
  | cons e es ih =>
    obtain ⟨hroot, hlength⟩ := h e List.mem_cons_self
    rw [List.map_cons, List.append_cons] at hkeys
    have hfresh : e.1 ∉ pieceLayers.entries.map Prod.fst := notMem_of_nodup_append hkeys
    have hset : (pieceLayers.set e.1 e.2).entries = pieceLayers.entries ++ [e] :=
      setEntry_of_notMem hfresh
    obtain ⟨result, hresult, hentries⟩ := ih (fun e he => h e (List.mem_cons_of_mem _ he))
      (pieceLayers.set e.1 e.2) (by rw [hset]; simpa using hkeys)
    refine ⟨result, ?_, ?_⟩
    · rw [List.map_cons, parsePieceLayers, if_neg (by simp [hroot]), ← hlength,
        parsePieceLayer_flatten, hlength]
      exact hresult
    · rw [hentries, hset, List.append_assoc, List.singleton_append]

theorem normalDict_pieceLayersToDict (pieceLayers : Layers) :
    normalDict (pieceLayersToDict pieceLayers) = (sortOn Prod.fst pieceLayers.entries).map
      fun e => (.bytes e.1, .bytes e.2.pieces.flatten) := by
  rw [normalDict, (stored_pieceLayersToDict pieceLayers).normalEntries_eq, pieceLayersToDict,
    List.map_map, sortOn_map]
  rfl

/-- The piece layers are read back. -/
theorem parsePieceLayers_written {pieceLength : Int} {pieceLayers : Layers}
    (h : ∀ e ∈ pieceLayers.entries, e.1.length = 32 ∧ e.2.pieceLength = pieceLength) :
    ∃ result, parsePieceLayers pieceLength (normalDict (pieceLayersToDict pieceLayers))
        Dict.empty = .ok result ∧
      result.entries.Perm pieceLayers.entries := by
  have hsorted := sortOn_perm (fun e : Bytes × PieceLayer => e.1) pieceLayers.entries
  have hkeys : ((sortOn Prod.fst pieceLayers.entries).map Prod.fst).Nodup :=
    (hsorted.map Prod.fst).nodup_iff.mpr pieceLayers.nodup_keys
  obtain ⟨result, hresult, hentries⟩ := parsePieceLayers_spec
    (fun e he => h e (hsorted.mem_iff.mp he)) Dict.empty hkeys
  refine ⟨result, ?_, ?_⟩
  · rw [normalDict_pieceLayersToDict]
    exact hresult
  · rw [hentries]
    exact hsorted

/-! ### The fields around the info dictionary -/

/-- A value that the parser can make a text of. -/
def Readable (v : PyObj) : Prop := ∀ b, v = .bytes b → ∃ t, utf8Decode b = some t

theorem readable_normal {v : PyObj} (h : Readable v) : Readable (normal v) := by
  intro b hb
  cases v with
  | bytes b' => exact h b hb
  | str t =>
    rw [normal] at hb
    cases hb
    exact ⟨t, utf8Decode_utf8Encode t⟩
  | int | bool | list | dict | other =>
    rw [normal] at hb
    cases hb

theorem textOf_isOk {v : PyObj} (h : Readable v) : ∃ t, textOf v = .ok t := by
  cases v with
  | bytes b =>
    obtain ⟨t, ht⟩ := h b rfl
    exact ⟨t, by rw [textOf, decodeUtf8, ht]⟩
  | str | int | bool | list | dict | other => exact ⟨_, rfl⟩

theorem readable_torrentDict (o : Options) (info : PyDict) :
    ∀ e ∈ torrentDict o info, Readable e.2 := by
  have htext (t : Str) : Readable (.bytes (utf8Encode t)) := by
    rintro b ⟨⟩
    exact ⟨t, utf8Decode_utf8Encode t⟩
  have hother {v : PyObj} (h : ∀ b, v ≠ .bytes b) : Readable v := fun b hb => absurd hb (h b)
  have hfield (c : Prop) [Decidable c] (key : String) (t : Str) :
      ∀ e ∈ (if c then [] else textField key t), Readable e.2 := by
    split
    · exact nofun
    · simpa [textField, entry] using htext t
  simp only [torrentDict, List.forall_mem_append, List.forall_mem_cons]
  refine ⟨⟨⟨⟨⟨⟨hother nofun, hfield _ _ _⟩, ?_⟩, hfield _ _ _⟩, ?_⟩, hother nofun, nofun⟩, ?_⟩
  · split
    · simpa [entry] using hother (fun _ => PyObj.noConfusion)
    · exact nofun
  · simpa [textField, entry] using htext o.createdBy
  · split
    · exact nofun
    · simpa [entry] using hother (fun _ => PyObj.noConfusion)

theorem getKey_announceList (o : Options) (info : PyDict) :
    getKey (torrentDict o info) "announce-list" =
      if 1 < o.trackers.length then
        some (.list (o.trackers.map fun t => .list [.bytes (utf8Encode t)]))
      else none := by
  rw [torrentDict]
  split_ifs <;> rfl

theorem normalItems_tiers (trackers : List Str) :
    normalItems (trackers.map fun t => .list [.bytes (utf8Encode t)]) =
      trackers.map fun t => .list [.bytes (utf8Encode t)] := by
  induction trackers with
  | nil => rfl
  | cons t trackers ih =>
    rw [List.map_cons, normalItems, ih]
    rfl

section Written

variable {o : Options} {info : PyDict} (hinfo : Stored info)
include hinfo

theorem getKey_written (key : String) :
    getKey (normalDict (torrentDict o info)) key =
      (getKey (torrentDict o info) key).map normal :=
  (stored_torrentDict o hinfo).lookup_normalDict _

theorem readable_written {key : String} {v : PyObj}
    (h : getKey (normalDict (torrentDict o info)) key = some v) : Readable v := by
  rw [getKey_written hinfo] at h
  obtain ⟨v', hv', rfl⟩ := Option.map_eq_some_iff.mp h
  have hmem := (lookup_eq_some_iff (stored_torrentDict o hinfo).nodup).mp hv'
  exact readable_normal (readable_torrentDict o info _ hmem)

theorem announce_isOk :
    ∃ t, textOf ((getKey (normalDict (torrentDict o info)) "announce").getD (.str [])) = .ok t := by
  cases hget : getKey (normalDict (torrentDict o info)) "announce" with
  | none => exact ⟨_, rfl⟩
  | some v => exact textOf_isOk (readable_written hinfo hget)

theorem textIfBytes_isOk (key : String) :
    ∃ t, textIfBytes (normalDict (torrentDict o info)) key = .ok t := by
  rw [textIfBytes]
  split
  · next b hget =>
    obtain ⟨t, ht⟩ := readable_written hinfo hget b rfl
    exact ⟨some t, by rw [decodeUtf8, ht]; rfl⟩
  · exact ⟨none, rfl⟩

theorem announceTiers_isOk :
    ∃ t, announceTiers (normalDict (torrentDict o info)) = .ok t := by
  rw [announceTiers, getKey_written hinfo, getKey_announceList]
  by_cases hmany : 1 < o.trackers.length
  · rw [if_pos hmany, Option.map_some, normal, normalItems_tiers]
    obtain ⟨urls, hurls, -⟩ := mapM_isOk (l := o.trackers.map fun t =>
        PyObj.list [.bytes (utf8Encode t)]) (f := fun tier => do (← iterate tier).mapM textOf) (by
      intro tier htier
      obtain ⟨t, -, rfl⟩ := List.mem_map.mp htier
      refine ⟨[t], ?_⟩
      simp only [iterate, bind, Except.bind, List.mapM_cons, List.mapM_nil, textOf, decodeUtf8,
        utf8Decode_utf8Encode]
      rfl)
    exact ⟨some urls, by simp only [iterate, bind, Except.bind] at hurls ⊢; rw [hurls]; rfl⟩
  · rw [if_neg hmany]
    exact ⟨none, rfl⟩

end Written

/-! ### The info dictionary -/

section Info

variable {s : Source} {o : Options} {w : Prepared} (htree : Stored w.fileTree)
include htree

theorem getKey_info (key : String) :
    getKey (normalDict (v2InfoDict s o w)) key = (getKey (v2InfoDict s o w) key).map normal :=
  (stored_v2InfoDict htree).lookup_normalDict _

theorem requiredFields_eq (hname : s.torrentName ≠ []) (hp : 0 < w.pieceLength) :
    requiredFields (normalDict (v2InfoDict s o w)) =
      .ok (s.torrentName, (w.pieceLength : Int)) := by
  have hversion : getKey (normalDict (v2InfoDict s o w)) "meta version" = some (.int 2) :=
    getKey_info htree "meta version"
  have hget : getKey (normalDict (v2InfoDict s o w)) "name" =
      some (.bytes (utf8Encode s.torrentName)) := getKey_info htree "name"
  have hlength : getKey (normalDict (v2InfoDict s o w)) "piece length" =
      some (.int w.pieceLength) := getKey_info htree "piece length"
  have htruth : truth (.bytes (utf8Encode s.torrentName)) = true := by
    simpa [truth, utf8Encode_eq_nil] using hname
  have hpos : ¬(w.pieceLength : Int) ≤ 0 := by omega
  simp only [requiredFields, hversion, hget, hlength, Option.bind_some, intValue, htruth, textOf,
    decodeUtf8, utf8Decode_utf8Encode, bind, Except.bind, hpos]
  rfl

theorem getDict_fileTree :
    getDict (normalDict (v2InfoDict s o w)) "file tree" = .ok (normalDict w.fileTree) := by
  have hget : getKey (normalDict (v2InfoDict s o w)) "file tree" =
      some (normal (.dict w.fileTree)) := getKey_info htree "file tree"
  rw [getDict, hget, normal_dict]

theorem getDict_pieceLayers :
    getDict (normalDict (v2InfoDict s o w)) "piece layers" =
      .ok (normalDict (pieceLayersToDict w.pieceLayers)) := by
  have hget : getKey (normalDict (v2InfoDict s o w)) "piece layers" =
      some (normal (.dict (pieceLayersToDict w.pieceLayers))) := getKey_info htree "piece layers"
  rw [getDict, hget, normal_dict]

end Info

theorem encode_isOk {es : PyDict} (h : Stored es) : ∃ b, encode (.dict es) = .ok b := by
  obtain ⟨b, hb⟩ := written h.bencodable
  exact ⟨b, hb.encoded⟩

/-- The info hash of a dictionary that can be encoded. -/
theorem calculateInfoHashV2_isOk {info : PyDict} {b : Bytes} (h : encode (.dict info) = .ok b) :
    ∃ hash, calculateInfoHashV2 info = .ok hash := by
  rw [calculateInfoHashV2, h]
  exact ⟨_, rfl⟩

theorem calculateInfoHashV1_v2InfoDict {s : Source} {o : Options} {w : Prepared}
    (htree : Stored w.fileTree) :
    ∃ hash, calculateInfoHashV1 (normalDict (v2InfoDict s o w)) = .ok hash := by
  have hpieces : getKey (v2InfoDict s o w) "pieces" = none := by
    rw [v2InfoDict, privateField]
    split_ifs <;> rfl
  have hnone : hasKey (normalDict (v2InfoDict s o w)) "pieces" = false := by
    rw [hasKey, getKey_info htree, hpieces]
    rfl
  rw [calculateInfoHashV1, hnone]
  exact ⟨_, rfl⟩

/-- `parse_v2` from what its parts give. -/
theorem parseV2_eq {info data : PyDict} {name : Str} {pieceLength : Int} {d ld : PyDict}
    {fileTree : List (Str × FileTreeNode)} {files : List FileInfo} {pieceLayers : Layers}
    (hrequired : requiredFields info = .ok (name, pieceLength))
    (htree : getDict info "file tree" = .ok d) (hroots : parseRoots d [] = .ok fileTree)
    (hvalid : validateChildren fileTree = .ok ())
    (hfiles : extractFilesOfChildren fileTree [] = .ok files)
    (hlayersDict : getDict info "piece layers" = .ok ld)
    (hlayers : parsePieceLayers pieceLength ld Dict.empty = .ok pieceLayers)
    (hhash : ∃ hash, calculateInfoHashV2 info = .ok hash)
    (hhashV1 : ∃ hash, calculateInfoHashV1 info = .ok hash)
    (hannounce : ∃ t, textOf ((getKey data "announce").getD (.str [])) = .ok t)
    (htiers : ∃ t, announceTiers data = .ok t)
    (htext : ∀ key, ∃ t, textIfBytes data key = .ok t) :
    ∃ v2, parseV2 info data = .ok v2 ∧ v2.fileTree = fileTree ∧ v2.files = files ∧
      v2.pieceLayers = pieceLayers ∧
      v2.numPieces = (pieceLayers.values.map PieceLayer.numPieces).sum := by
  obtain ⟨hash, hhash⟩ := hhash
  obtain ⟨hashV1, hhashV1⟩ := hhashV1
  obtain ⟨announce, hannounce⟩ := hannounce
  obtain ⟨tiers, htiers⟩ := htiers
  obtain ⟨comment, hcomment⟩ := htext "comment"
  obtain ⟨createdBy, hcreatedBy⟩ := htext "created by"
  obtain ⟨encoding, hencoding⟩ := htext "encoding"
  simp only [parseV2, bind, Except.bind, hrequired, htree, hroots, hvalid, hfiles, hlayersDict,
    hlayers, hhash, hhashV1, hannounce, htiers, hcomment, hcreatedBy, hencoding]
  exact ⟨_, rfl, rfl, rfl, rfl, rfl⟩

/-! ### Generating -/

theorem two_pow_and (k : Nat) : 2 ^ k &&& (2 ^ k - 1) = 0 := by
  rw [Nat.and_two_pow_sub_one_eq_mod, Nat.mod_self]

theorem hashed_hashedFile {s : Source} {f : SourceFile} (hf : f ∈ s.files) (p : Nat) :
    (Source.hashedFile p f).2.Hashed := by
  have hsize : (f.content.length : Int) < 2 ^ 63 := by exact_mod_cast s.size_lt f hf
  exact ⟨Int.natCast_nonneg _, hsize, _, rfl, piecesRootOf_length p f.content⟩

/-- The generators find the files of a source. -/
theorem prepare_isOk {s : Source} {o : Options} (h : s.NoBackslash) (hfiles : s.files ≠ [])
    {k : Nat} (hp : s.pieceLength o.pieceLength = 2 ^ k) :
    ∃ w tree, prepare s o = .ok w ∧ w.pieceLength = 2 ^ k ∧ HashedTree tree ∧
      w.fileTree = childFields tree ∧
      (treeEntries tree).Perm (s.files.map (Source.hashedFile (2 ^ k))) ∧
      ∃ cs : List Bytes, cs.Perm (s.files.map SourceFile.content) ∧
        w.pieceLayers = cs.foldl (storeLayer (2 ^ k)) Dict.empty := by
  obtain ⟨tree, layers, hbuild, hformed, hperm, cs, hcs, hlayers⟩ :=
    Source.buildPieceLayers_spec h (Nat.two_pow_pos k)
  have hhashed : HashedTree tree := by
    apply hformed.hashedTree
    intro e he
    obtain ⟨f, hf, rfl⟩ := List.mem_map.mp (hperm.mem_iff.mp he)
    exact hashed_hashedFile hf _
  obtain ⟨hash, hhash⟩ := hhashed.hashFileTree_isOk
  have hcollect : s.collectFiles.isEmpty = false := by
    rw [Source.collectFiles_eq h]
    simpa using hfiles
  refine ⟨⟨2 ^ k, s.collectFiles, childFields tree, layers⟩, tree, ?_, rfl, hhashed, rfl, hperm, cs,
    hcs, hlayers⟩
  rw [prepare, hp]
  simp only [two_pow_and, hcollect, hbuild, hhash, hhashed.fileTreeToDict_eq, bind, Except.bind,
    Except.mapError]
  rfl

/-! ### What the parser finds -/

def parseWritten (torrent : Bytes) : Option TorrentV2Info :=
  match (decode torrent (fuelFor torrent) ⟨0, false⟩).1 with
  | .ok (.dict data) =>
    match getKey data "info" with
    | some (.dict info) => (parseV2 info data).toOption
    | _ => none
  | _ => none

/-- What `parse_v2` says of a source: a file at the top level is listed in a directory named by a
dot, and a layer is that of some file with its root. -/
structure Describes (s : Source) (p : Nat) (v2 : TorrentV2Info) : Prop where
  files : (v2.files.map fileSummary).Perm (s.files.map fun f =>
    (some (joinSlash (listedPath f.path)), (f.content.length : Int)))
  fileTree : (treeEntries v2.fileTree).Perm (s.files.map (Source.hashedFile p))
  pieceLayers : ∀ f ∈ s.files, ∃ g ∈ s.files,
    piecesRootOf p g.content = piecesRootOf p f.content ∧
      v2.pieceLayers.get? (piecesRootOf p f.content) = some (layerOf p g.content)
  numPieces : (s.files.Pairwise fun f g =>
      piecesRootOf p f.content = piecesRootOf p g.content → f.content = [] ∧ g.content = []) →
    v2.numPieces = (s.files.map fun f => (f.content.length + p - 1) / p).sum

theorem sum_pieceHashes {p : Nat} (hp : 0 < p) {cs : List Bytes} {files : List SourceFile}
    (h : cs.Perm (files.map SourceFile.content)) :
    (cs.map fun c => (pieceHashes p c).length).sum =
      (files.map fun f => (f.content.length + p - 1) / p).sum := by
  rw [(h.map _).sum_nat, List.map_map]
  congr 1
  apply List.map_congr_left
  intro f _
  rw [Function.comp, pieceHashes, List.length_map, length_pieces hp]

/-- What is stored for the files of a source, as it is read back. -/
theorem describes_of_parts {s : Source} {k : Nat} {tree : List (Str × FileTreeNode)}
    {cs : List Bytes} {v2 : TorrentV2Info} (htree : HashedTree tree)
    (hperm : (treeEntries tree).Perm (s.files.map (Source.hashedFile (2 ^ k))))
    (hcs : cs.Perm (s.files.map SourceFile.content)) (hfileTree : v2.fileTree = parsedTree tree)
    (hfiles : (v2.files.map fileSummary).Perm ((treeEntries tree).map (entrySummary [])))
    (hlayers : v2.pieceLayers.entries.Perm
      (cs.foldl (storeLayer (2 ^ k)) Dict.empty).entries)
    (hnumPieces : v2.numPieces = (v2.pieceLayers.values.map PieceLayer.numPieces).sum) :
    Describes s (2 ^ k) v2 := by
  have hget (r : Bytes) : v2.pieceLayers.get? r =
      (cs.foldl (storeLayer (2 ^ k)) Dict.empty).get? r :=
    lookup_perm hlayers v2.pieceLayers.nodup_keys r
  refine ⟨?_, ?_, ?_, ?_⟩
  · refine hfiles.trans ((hperm.map _).trans (List.Perm.of_eq ?_))
    rw [List.map_map]
    rfl
  · rw [hfileTree]
    exact htree.treeEntries_perm.trans hperm
  · intro f hf
    have hmem : f.content ∈ cs := hcs.mem_iff.mpr (List.mem_map_of_mem hf)
    obtain ⟨layer, hlayer⟩ :=
      Option.isSome_iff_exists.mp (get?_storeLayers_isSome (p := 2 ^ k) hmem)
    obtain ⟨c, hc, hroot, rfl⟩ := get?_storeLayers hlayer
    obtain ⟨g, hg, rfl⟩ := List.mem_map.mp (hcs.mem_iff.mp hc)
    exact ⟨g, hg, hroot, (hget _).trans hlayer⟩
  · intro hdistinct
    have hpairwise : cs.Pairwise fun c c' =>
        piecesRootOf (2 ^ k) c = piecesRootOf (2 ^ k) c' → c = [] ∧ c' = [] := by
      refine (hcs.symm.pairwise ?_ ?_)
      · exact List.pairwise_map.mpr hdistinct
      · exact fun h heq => (h heq.symm).symm
    have hvalues : (v2.pieceLayers.values.map PieceLayer.numPieces).Perm
        ((cs.foldl (storeLayer (2 ^ k)) Dict.empty).values.map PieceLayer.numPieces) :=
      (hlayers.map Prod.snd).map _
    rw [hnumPieces, hvalues.sum_nat, numPieces_storeLayers hpairwise,
      sum_pieceHashes (Nat.two_pow_pos k) hcs]

/-- A generated v2 torrent describes its source. -/
theorem generateV2Torrent_describes {s : Source} {o : Options} {k : Nat} (h : s.NoBackslash)
    (hname : s.torrentName ≠ []) (hfiles : s.files ≠ [])
    (hp : s.pieceLength o.pieceLength = 2 ^ k) :
    ∃ g v2, generateV2Torrent s o = .ok g ∧ parseWritten g.torrent = some v2 ∧
      Describes s (2 ^ k) v2 := by
  obtain ⟨w, tree, hw, hlength, hhashed, htree, hperm, cs, hcs, hlayers⟩ :=
    prepare_isOk h hfiles hp
  have hstoredTree : Stored w.fileTree := by
    rw [htree]
    exact hhashed.stored
  have hinfo := stored_v2InfoDict (s := s) (o := o) hstoredTree
  have hdata := stored_torrentDict o hinfo
  -- generating
  obtain ⟨infoBytes, hinfoBytes⟩ := encode_isOk hinfo
  obtain ⟨hash, hhash⟩ := calculateInfoHashV2_isOk hinfoBytes
  obtain ⟨torrent, htorrent⟩ := encode_isOk hdata
  have hgenerate : generateV2Torrent s o =
      .ok ⟨torrent, v2InfoDict s o w, hash.1, none⟩ := by
    rw [generateV2Torrent, hw]
    simp only [bind, Except.bind, hhash, htorrent, Except.mapError]
    rfl
  -- parsing
  have hinfoEntry : getKey (normalDict (torrentDict o (v2InfoDict s o w))) "info" =
      some (.dict (normalDict (v2InfoDict s o w))) := by
    rw [getKey_written hinfo, ← normal_dict]
    rfl
  obtain ⟨files, hfilesEq, hsummary⟩ := hhashed.extractFiles_spec
  have hlayer : ∀ e ∈ w.pieceLayers.entries,
      e.1.length = 32 ∧ e.2.pieceLength = (w.pieceLength : Int) := by
    rintro ⟨r, layer⟩ he
    rw [hlayers] at he
    obtain ⟨c, -, rfl, rfl⟩ := get?_storeLayers ((Dict.get?_eq_some_iff _).mpr he)
    exact ⟨piecesRootOf_length _ _, by rw [hlength]; rfl⟩
  obtain ⟨pieceLayers, hparseLayers, hentries⟩ := parsePieceLayers_written hlayer
  have hencoded : encode (.dict (normalDict (v2InfoDict s o w))) = .ok infoBytes := by
    rw [← hinfoBytes, ← normal_dict, encode_normal hinfo.bencodable]
  obtain ⟨v2, hv2, hfileTree, hv2files, hv2layers, hnumPieces⟩ := parseV2_eq
    (requiredFields_eq hstoredTree hname (by rw [hlength]; exact Nat.two_pow_pos k))
    (getDict_fileTree hstoredTree) (by rw [htree]; exact hhashed.parseRoots_eq)
    hhashed.validateChildren_eq hfilesEq (getDict_pieceLayers hstoredTree) hparseLayers
    (calculateInfoHashV2_isOk hencoded) (calculateInfoHashV1_v2InfoDict hstoredTree)
    (announce_isOk (o := o) hinfo) (announceTiers_isOk hinfo) (textIfBytes_isOk hinfo)
  refine ⟨_, v2, hgenerate, ?_, ?_⟩
  · simp only [parseWritten, hdata.decode_written htorrent, hinfoEntry, hv2]
    rfl
  · exact describes_of_parts hhashed hperm hcs hfileTree (hv2files ▸ hsummary)
      (by rw [hv2layers, ← hlayers]; exact hentries) (by rw [hnumPieces, hv2layers])

/-! ### Sources that are not described in full -/

/-- A directory with two files at the top level, whose pieces have the same root. -/
def repeats : Source where
  name := ['d']
  parentName := []
  isDir := true
  files := [⟨[['a']], [1, 2, 2]⟩, ⟨[['b']], [1, 2, 2, 2]⟩]
  read path := if path = ['a'] then some [1, 2, 2] else if path = ['b'] then some [1, 2, 2, 2]
    else none
  absent _ := .failed
  resolve path := some path
  single := nofun
  path_ne_nil := by decide
  isName := by
    have hname : ∀ part : Str, part = ['a'] ∨ part = ['b'] → IsName part := by
      rintro part (rfl | rfl)
      · exact ⟨⟨by decide, by decide⟩, by decide, by decide⟩
      · exact ⟨⟨by decide, by decide⟩, by decide, by decide⟩
    intro f hf part hpart
    simp only [List.mem_cons, List.not_mem_nil, or_false] at hf
    rcases hf with rfl | rfl
    · exact hname part (.inl (List.mem_singleton.mp hpart))
    · exact hname part (.inr (List.mem_singleton.mp hpart))
  separate := by decide
  size_lt := by decide
  read_file := by decide
  resolve_file := by decide

def nested (name part : Str) (hpart : IsName part) : Source where
  name := name
  parentName := []
  isDir := true
  files := [⟨[['d'], part], [1]⟩]
  read path := if path = joinSlash [['d'], part] then some [1] else none
  absent _ := .failed
  resolve path := some path
  single := nofun
  path_ne_nil := by simp
  isName := by
    have hd : IsName ['d'] := ⟨⟨by decide, by decide⟩, by decide, by decide⟩
    simp only [List.forall_mem_cons]
    exact ⟨⟨hd, hpart, nofun⟩, nofun⟩
  separate := by simp
  size_lt := by simp
  read_file := by simp
  resolve_file := by simp

/-- A file whose name has a backslash. -/
def backslash : Source :=
  nested ['n'] ['a', '\\', 'b'] ⟨⟨by decide, by decide⟩, by decide, by decide⟩

/-- The root directory, which has no name. -/
def nameless : Source := nested [] ['a'] ⟨⟨by decide, by decide⟩, by decide, by decide⟩

def octetPieces : Options where
  trackers := []
  webSeeds := []
  comment := none
  createdBy := ['c']
  pieceLength := some 1
  isPrivate := false
  now := 0

theorem generateV2Torrent_describes_repeats :
    ∃ g v2, generateV2Torrent repeats octetPieces = .ok g ∧ parseWritten g.torrent = some v2 ∧
      Describes repeats (2 ^ 0) v2 :=
  generateV2Torrent_describes (by unfold Source.NoBackslash; decide) (by decide) (by decide) rfl

def parsedBack (s : Source) : Option TorrentV2Info :=
  (generateV2Torrent s octetPieces).toOption.bind fun g => parseWritten g.torrent

/-- Files at the top level come back under other paths; of files with one root only one layer is
stored and counted; a backslash or a missing name leaves nothing to parse. -/
theorem repeats_not_described :
    (∃ v2, parsedBack repeats = some v2 ∧
      ¬(v2.files.map fileSummary).Perm (repeats.files.map fun f =>
        (some (joinSlash f.path), (f.content.length : Int))) ∧
      (∀ layer, v2.pieceLayers.get? (piecesRootOf 1 [1, 2, 2]) = some layer →
        layer.pieces ≠ pieceHashes 1 [1, 2, 2]) ∧
      v2.numPieces ≠ (repeats.files.map fun f => (f.content.length + 1 - 1) / 1).sum) ∧
    parsedBack backslash = none ∧ parsedBack nameless = none := by
  have hfound : (parsedBack repeats).map (fun v2 => (v2.files.map fileSummary,
      (v2.pieceLayers.get? (piecesRootOf 1 [1, 2, 2])).map fun layer => layer.pieces.length,
      v2.numPieces)) =
      some ([(some ['.', '/', 'a'], 3), (some ['.', '/', 'b'], 4)], some 4, 4) := by
    decide +kernel
  have hbackslash : (parsedBack backslash).isNone = true := by decide +kernel
  have hnameless : (parsedBack nameless).isNone = true := by decide +kernel
  refine ⟨?_, Option.isNone_iff_eq_none.mp hbackslash, Option.isNone_iff_eq_none.mp hnameless⟩
  cases hrun : parsedBack repeats with
  | none =>
    rw [hrun] at hfound
    cases hfound
  | some v2 =>
    rw [hrun, Option.map_some, Option.some.injEq, Prod.mk.injEq, Prod.mk.injEq] at hfound
    obtain ⟨hfiles, hlayer, hnumPieces⟩ := hfound
    refine ⟨v2, rfl, ?_, ?_, ?_⟩
    · rw [hfiles]
      decide
    · intro layer hget hpieces
      rw [hget, Option.map_some, hpieces] at hlayer
      exact absurd (Option.some.inj hlayer) (by decide)
    · rw [hnumPieces]
      decide

end TorrentV2

end Ccbt

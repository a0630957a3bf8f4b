import Ccbt.Core.Bencode.Canonical
import Ccbt.Core.TorrentV2.Generator

/-!
# The dictionaries of the generator

What the generators write down field by field has distinct keys and values that can be
encoded, and so it is read back in its normal form.
-/

namespace Ccbt

open Python Torrent Bencode

namespace TorrentV2

theorem bencodable_int (n : Int) : Bencodable (.int n) := trivial

theorem bencodable_bytes (b : Bytes) : Bencodable (.bytes b) := trivial

def textName (name : String) : Key := .bytes (ascii name)

/-- The entries are some of the fields with these names, in their order. -/
structure Fields (names : List String) (es : PyDict) : Prop where
  keys : (es.map Prod.fst).Sublist (names.map textName)
  values : ∀ e ∈ es, Bencodable e.2

namespace Fields

variable {names names' : List String} {es es' : PyDict}

theorem nil (names : List String) : Fields names [] := ⟨List.nil_sublist _, nofun⟩

theorem cons {value : PyObj} (h : Fields names es) (key : String) (hvalue : Bencodable value) :
    Fields (key :: names) (entry key value :: es) :=
  ⟨h.keys.cons_cons _, List.forall_mem_cons.mpr ⟨hvalue, h.values⟩⟩

theorem entry {value : PyObj} (key : String) (hvalue : Bencodable value) :
    Fields [key] [entry key value] := (nil []).cons key hvalue

theorem append (h : Fields names es) (h' : Fields names' es') :
    Fields (names ++ names') (es ++ es') := by
  constructor
  · rw [List.map_append, List.map_append]
    exact h.keys.append h'.keys
  · exact List.forall_mem_append.mpr ⟨h.values, h'.values⟩

theorem ite {c : Prop} [Decidable c] (h : Fields names es) (h' : Fields names es') :
    Fields names (if c then es else es') := by
  split
  · exact h
  · exact h'

theorem stored (h : Fields names es) (hnodup : (names.map textName).Nodup) : Stored es := by
  refine ⟨?_, hnodup.sublist h.keys, h.values⟩
  intro e he
  have hmem : e.1 ∈ names.map textName := h.keys.subset (List.mem_map_of_mem he)
  obtain ⟨name, -, hname⟩ := List.mem_map.mp hmem
  exact ⟨_, hname.symm⟩

end Fields

mutual

theorem stored_nodeToDict : ∀ {node : FileTreeNode} {d : PyDict}, nodeToDict node = .ok d →
    Stored d
  | .childless _ length (some piecesRoot), d, h => by
    cases h
    have hfile : Fields ["length", "pieces root"]
        [entry "length" (.int length), entry "pieces root" (.bytes piecesRoot)] :=
      (Fields.entry "pieces root" (bencodable_bytes _)).cons "length" (bencodable_int _)
    have hnode : Fields [""] _ := Fields.entry "" (hfile.stored (by decide)).bencodable
    exact hnode.stored (by decide)
  | .childless _ _ none, _, h => by cases h
  | .withChildren _ _ (some _) _, _, h => by cases h
  | .withChildren _ _ none children, d, h => by
    rw [nodeToDict] at h
    split at h
    · cases h
    · exact stored_childrenToDict stored_nil h

theorem stored_childrenToDict : ∀ {children : List (Str × FileTreeNode)} {result d : PyDict},
    Stored result → childrenToDict children result = .ok d → Stored d
  | [], _, _, hresult, h => by
    cases h
    exact hresult
  | (name, node) :: children, result, d, hresult, h => by
    obtain ⟨dn, hnode, h⟩ := Torrent.bind_eq_ok h
    exact stored_childrenToDict
      (hresult.setEntry (utf8Encode name) (stored_nodeToDict hnode).bencodable) h

end

theorem stored_pieceLayersToDict (pieceLayers : Layers) :
    Stored (pieceLayersToDict pieceLayers) := by
  have hkeys : (pieceLayersToDict pieceLayers).map Prod.fst = pieceLayers.keys.map Key.bytes := by
    rw [pieceLayersToDict, Dict.keys, List.map_map, List.map_map]
    rfl
  constructor
  · intro e he
    obtain ⟨e', -, rfl⟩ := List.mem_map.mp he
    exact ⟨_, rfl⟩
  · rw [hkeys]
    exact pieceLayers.nodup_keys.map (fun _ _ h => Key.bytes.inj h)
  · intro e he
    obtain ⟨e', -, rfl⟩ := List.mem_map.mp he
    trivial

theorem bencodable_octets {α : Type} (f : α → Bytes) (l : List α) :
    Bencodable (.list (l.map fun x => .bytes (f x))) := by
  rw [Bencodable, bencodableItems_iff]
  intro x hx
  obtain ⟨_, -, rfl⟩ := List.mem_map.mp hx
  trivial

theorem bencodable_v1File (file : Str × Nat) : Bencodable (v1File file) := by
  have hpath := bencodable_octets utf8Encode (splitSlash file.1)
  have hfile := (Fields.entry "path" hpath).cons "length" (bencodable_int file.2)
  exact (hfile.stored (by decide)).bencodable

theorem fields_v1Structure (files : List (Str × Nat)) :
    Fields ["length", "files"] [v1Structure files] := by
  have hfiles : Bencodable (.list (files.map v1File)) := by
    rw [Bencodable, bencodableItems_iff]
    intro x hx
    obtain ⟨file, -, rfl⟩ := List.mem_map.mp hx
    exact bencodable_v1File file
  rw [v1Structure.eq_def]
  split
  · exact (Fields.nil ["files"]).cons "length" (bencodable_int _)
  · exact (Fields.nil ["length"]).append (Fields.entry "files" hfiles)

theorem fields_privateField (o : Options) : Fields ["private"] (privateField o) :=
  Fields.ite (Fields.entry "private" (bencodable_int 1)) (Fields.nil _)

theorem fields_sharedFields (s : Source) (version : Int) {w : Prepared}
    (htree : Stored w.fileTree) :
    Fields ["meta version", "name", "piece length", "file tree", "piece layers"]
      (sharedFields s version w) := by
  have hlayers := (stored_pieceLayersToDict w.pieceLayers).bencodable
  have hdicts := (Fields.entry "piece layers" hlayers).cons "file tree" htree.bencodable
  have hname := (hdicts.cons "piece length" (bencodable_int w.pieceLength)).cons "name"
    (bencodable_bytes (utf8Encode s.torrentName))
  exact hname.cons "meta version" (bencodable_int version)

theorem stored_hybridInfoDict {s : Source} {o : Options} {w : Prepared}
    (htree : Stored w.fileTree) : Stored (hybridInfoDict s o w) := by
  have hv1 := (fields_v1Structure w.files).cons "pieces"
    (bencodable_bytes (buildV1Pieces s w.files w.pieceLength))
  have hfields := ((fields_sharedFields s 3 htree).append hv1).append (fields_privateField o)
  exact hfields.stored (by decide)

theorem stored_v2InfoDict {s : Source} {o : Options} {w : Prepared}
    (htree : Stored w.fileTree) : Stored (v2InfoDict s o w) :=
  ((fields_sharedFields s 2 htree).append (fields_privateField o)).stored (by decide)

theorem stored_torrentDict (o : Options) {info : PyDict} (hinfo : Stored info) :
    Stored (torrentDict o info) := by
  have text (key : String) (value : Str) : Fields [key] (textField key value) :=
    Fields.entry key (bencodable_bytes _)
  have htiers : Bencodable (.list (o.trackers.map fun t => .list [.bytes (utf8Encode t)])) := by
    rw [Bencodable, bencodableItems_iff]
    intro x hx
    obtain ⟨t, -, rfl⟩ := List.mem_map.mp hx
    exact ⟨trivial, trivial⟩
  have hannounce := ((Fields.nil _).ite (c := (o.trackers.headD []).isEmpty = true)
    (text "announce" (o.trackers.headD []))).cons "info" hinfo.bencodable
  have hannounceList := (Fields.entry "announce-list" htiers).ite (c := 1 < o.trackers.length)
    (Fields.nil _)
  have hcomment := (Fields.nil _).ite (c := (o.comment.getD []).isEmpty = true)
    (text "comment" (o.comment.getD []))
  have hdate := Fields.entry "creation date" (bencodable_int o.now)
  have hseeds := (Fields.nil _).ite (c := o.webSeeds.isEmpty = true)
    (Fields.entry "url-list" (bencodable_octets utf8Encode o.webSeeds))
  have hfields := ((hannounce.append hannounceList).append hcomment).append
    (text "created by" o.createdBy)
  exact ((hfields.append hdate).append hseeds).stored (by decide)

end TorrentV2

end Ccbt

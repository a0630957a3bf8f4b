import Ccbt.Core.InfoHash
import Ccbt.Core.Magnet

/-!
# The layout of a torrent from its file and from its metadata

The parser of torrent files and `build_torrent_data_from_metadata` read the same info dictionary.
They come to the same layout only if it has one of `length` and `files`, no attributes, and paths
and numbers that both read in the same way. The second one accepts much that the first refuses.
-/

namespace Ccbt

open Python Bencode Torrent

namespace Magnet

/-- What is known of a file. No attributes and an empty text of them are the same. -/
structure FileLayout where
  name : Str
  length : Int
  path : Option (List Str)
  full_path : Str
  attributes : Str
  symlink_path : Str
  file_sha1 : Option Bytes
  deriving DecidableEq

structure Layout where
  name : Str
  files : List FileLayout
  total_length : Int
  piece_length : Int
  num_pieces : Nat
  piece_hashes : List PyObj
  is_private : Bool

def parsedFile (f : Torrent.FileInfo) : FileLayout where
  name := f.name
  length := f.length
  path := f.path
  full_path := f.fullPath.getD []
  attributes := f.attributes.getD []
  symlink_path := f.symlinkPath.getD []
  file_sha1 := f.fileSha1

def parsedLayout (t : TorrentInfo) : Layout where
  name := t.name
  files := t.files.map parsedFile
  total_length := t.totalLength
  piece_length := t.pieceLength
  num_pieces := t.numPieces
  piece_hashes := t.pieces.map .bytes
  is_private := t.isPrivate

/-- A file of the metadata, which have no attributes. -/
def FileEntry.layout (f : FileEntry) : FileLayout :=
  ⟨f.path.getLastD [], f.length, some f.path, f.full_path, [], [], none⟩

def FileInfo.files : FileInfo → List FileLayout
  | multi files _ _ => files.map FileEntry.layout
  | single length name _ => [⟨name, length, none, name, [], [], none⟩]

def TorrentData.layout (d : TorrentData) : Layout where
  name := d.name
  files := d.file_info.files
  total_length := d.pieces_info.total_length
  piece_length := d.pieces_info.piece_length
  num_pieces := d.pieces_info.num_pieces
  piece_hashes := d.pieces_info.piece_hashes
  is_private := d.is_private

-- Which paths are joined alike

/-- No slash has to be added, left out or obeyed when the parts are joined. -/
def JoinsPlainly : List Str → Prop
  | [] => True
  | [_] => True
  | a :: b :: parts =>
    a ≠ [] ∧ a.getLast? ≠ some '/' ∧ b.head? ≠ some '/' ∧ JoinsPlainly (b :: parts)

instance : (parts : List Str) → Decidable (JoinsPlainly parts)
  | [] => .isTrue trivial
  | [_] => .isTrue trivial
  | a :: b :: parts =>
    have := instDecidableJoinsPlainly (b :: parts)
    inferInstanceAs (Decidable (a ≠ [] ∧ _ ∧ _ ∧ JoinsPlainly (b :: parts)))

/-- One step of `os.path.join`. -/
def joinStep (path b : Str) : Str :=
  if b.head? = some '/' then b
  else if path.isEmpty || path.getLast? = some '/' then path ++ b
  else path ++ '/' :: b

theorem joinPath_cons (part : Str) (parts : List Str) :
    joinPath (part :: parts) = .ok (parts.foldl joinStep part) := rfl

theorem joinStep_eq_iff (path b : Str) : joinStep path b = path ++ '/' :: b ↔
    path ≠ [] ∧ path.getLast? ≠ some '/' ∧ b.head? ≠ some '/' := by
  constructor
  · intro h
    have hlen := congrArg List.length h
    rw [List.length_append, List.length_cons] at hlen
    unfold joinStep at hlen
    split at hlen
    · omega
    · next hb =>
      split at hlen
      · rw [List.length_append] at hlen
        omega
      · next hpath =>
        simp only [Bool.or_eq_true, List.isEmpty_iff, decide_eq_true_eq, not_or] at hpath
        exact ⟨hpath.1, hpath.2, hb⟩
  · rintro ⟨hne, hlast, hhead⟩
    simp [joinStep, hne, hlast, hhead]

/-- A step that does not add one slash makes a shorter path. -/
theorem length_joinStep_lt {path b : Str} (h : joinStep path b ≠ path ++ '/' :: b) :
    (joinStep path b).length < path.length + 1 + b.length := by
  unfold joinStep at h ⊢
  split
  · omega
  · next hb =>
    rw [if_neg hb] at h
    split
    · rw [List.length_append]
      omega
    · next hpath => exact absurd (if_neg hpath) h

theorem length_joinStep_le (path b : Str) :
    (joinStep path b).length ≤ path.length + 1 + b.length := by
  by_cases h : joinStep path b = path ++ '/' :: b
  · rw [h, List.length_append, List.length_cons]
    omega
  · exact (length_joinStep_lt h).le

/-- The parts with a slash in front of each. -/
def slashed (parts : List Str) : Str := parts.flatMap fun b => '/' :: b

theorem intercalate_cons (a : Str) (parts : List Str) :
    List.intercalate ['/'] (a :: parts) = a ++ slashed parts := by
  induction parts generalizing a with
  | nil => simp [slashed]
  | cons b parts ih =>
    rw [List.intercalate_cons_cons, ih]
    simp [slashed]

theorem length_foldl_joinStep_le (path : Str) (parts : List Str) :
    (parts.foldl joinStep path).length ≤ (path ++ slashed parts).length := by
  induction parts generalizing path with
  | nil => simp [slashed]
  | cons b parts ih =>
    have hstep := length_joinStep_le path b
    have hrest := ih (joinStep path b)
    simp only [List.length_append, slashed, List.flatMap_cons, List.length_cons] at hrest ⊢
    rw [List.foldl_cons]
    omega

/-- A path ends like its last part, which stands alone or behind a slash. -/
theorem endsPlainly_iff {pre a : Str} (hpre : pre = [] ∨ pre.getLast? = some '/') :
    (pre ++ a ≠ [] ∧ (pre ++ a).getLast? ≠ some '/') ↔ (a ≠ [] ∧ a.getLast? ≠ some '/') := by
  cases a with
  | nil =>
    rw [List.append_nil]
    rcases hpre with rfl | hpre
    · simp
    · simp [hpre]
  | cons c a =>
    rw [List.getLast?_append]
    simp

theorem foldl_joinStep_eq_iff {p a : Str} (hpre : p = [] ∨ p.getLast? = some '/')
    (parts : List Str) : parts.foldl joinStep (p ++ a) = p ++ a ++ slashed parts ↔
      JoinsPlainly (a :: parts) := by
  induction parts generalizing p a with
  | nil => simp [slashed, JoinsPlainly]
  | cons b parts ih =>
    rw [List.foldl_cons, JoinsPlainly, ← and_assoc (a := a ≠ []), ← endsPlainly_iff hpre]
    by_cases hstep : joinStep (p ++ a) b = p ++ a ++ '/' :: b
    · have hends := (joinStep_eq_iff _ _).mp hstep
      have hpre' : p ++ a ++ ['/'] = [] ∨ (p ++ a ++ ['/']).getLast? = some '/' := by simp
      have hrest := ih (a := b) hpre'
      rw [hstep, and_iff_right ⟨hends.1, hends.2.1⟩, and_iff_right hends.2.2]
      simpa [slashed] using hrest
    · refine iff_of_false (fun h => ?_) fun h =>
        hstep ((joinStep_eq_iff _ _).mpr ⟨h.1.1, h.1.2, h.2.1⟩)
      have hlen := congrArg List.length h
      have hrest := length_foldl_joinStep_le (joinStep (p ++ a) b) parts
      have hlt := length_joinStep_lt hstep
      simp only [List.length_append, slashed, List.flatMap_cons, List.length_cons] at *
      omega

theorem joinPath_eq_intercalate_iff (part : Str) (parts : List Str) :
    joinPath (part :: parts) = .ok (List.intercalate ['/'] (part :: parts)) ↔
      JoinsPlainly (part :: parts) := by
  rw [joinPath_cons, intercalate_cons, Except.ok.injEq]
  exact foldl_joinStep_eq_iff (p := []) (.inl rfl) parts

-- What the two make of one file

section Parser

variable {coerceInt : Bytes → Option Int}

/-- Both read the number under this key in the same way. -/
def SameNumber (coerceInt : Bytes → Option Int) (d : PyDict) (key : String) : Prop :=
  ∀ v, getKey d key = some v → pyInt v = toInt coerceInt v

/-- There is no text under this key. -/
def NoText (d : PyDict) (key : String) : Prop := ∀ v, getKey d key = some v → v = .bytes []

/-- The file has no attributes of BEP 47. -/
structure NoAttributes (d : PyDict) : Prop where
  attr : NoText d "attr"
  symlink_path : NoText d "symlink path"
  sha1 : getKey d "sha1" = none

theorem noAttributes_iff {d : PyDict} : NoAttributes d ↔
    NoText d "attr" ∧ NoText d "symlink path" ∧ getKey d "sha1" = none :=
  ⟨fun h => ⟨h.attr, h.symlink_path, h.sha1⟩, fun h => ⟨h.1, h.2.1, h.2.2⟩⟩

/-- An entry of `files` that both read in the same way. -/
structure PlainFile (coerceInt : Bytes → Option Int) (d : PyDict) : Prop where
  length : SameNumber coerceInt d "length"
  attributes : NoAttributes d
  path : ∀ w parts path, getKey d "path" = some w → iterate w = .ok parts →
    parts.mapM decodeUtf8 = .ok path → JoinsPlainly path

theorem optionalText_eq_ok {d : PyDict} {key : String} {o : Option Str}
    (h : optionalText d key = .ok o) : o.getD [] = [] ↔ NoText d key := by
  unfold optionalText at h
  unfold NoText
  cases hkey : getKey d key with
  | none =>
    rw [hkey] at h
    cases h
    simp
  | some v =>
    rw [hkey] at h
    cases v with
    | bytes b =>
      simp only [decodeUtf8] at h
      cases hb : utf8Decode b with
      | none =>
        rw [hb] at h
        cases h
      | some s =>
        rw [hb] at h
        cases h
        simp [← utf8Decode_eq_nil, hb]
    | str | int | bool | list | dict | other => cases h

theorem toSha1_eq_ok {o : Option PyObj}
    {r : { o : Option Bytes // ∀ b, o = some b → b.length = 20 }} (h : toSha1 o = .ok r) :
    r.1 = none ↔ o = none := by
  unfold toSha1 at h
  split at h
  · cases h
    simp
  · split at h
    · cases h
      simp
    · cases h
  · cases h

/-- The fields of a file that passes the validators. -/
theorem makeFileInfo_eq_ok {name : Str} {length : PyObj} {path : Option (List Str)}
    {full_path : Str} {attributes symlink_path : Option Str} {file_sha1 : Option PyObj}
    {f : Torrent.FileInfo} (h : makeFileInfo coerceInt name length path full_path attributes
      symlink_path file_sha1 = .ok f) :
    f.name = name ∧ toInt coerceInt length = .ok f.length ∧ f.path = path ∧
      f.fullPath = some full_path ∧ f.attributes = attributes ∧ f.symlinkPath = symlink_path ∧
      (f.fileSha1 = none ↔ file_sha1 = none) := by
  obtain ⟨n, hn, h⟩ := bind_eq_ok h
  obtain ⟨sha1, hsha1, h⟩ := bind_eq_ok h
  split at h
  · split at h
    · cases h
    · cases h
      exact ⟨rfl, hn, rfl, rfl, rfl, rfl, toSha1_eq_ok hsha1⟩
  · cases h

theorem mapM_eq_ok_congr {α β ε : Type} {f g : α → Except ε β} {l : List α} {ys : List β}
    (hfg : ∀ a b, f a = .ok b → g a = .ok b) (h : l.mapM f = .ok ys) : l.mapM g = .ok ys := by
  induction l generalizing ys with
  | nil => exact h
  | cons a l ih =>
    rw [List.mapM_cons] at h
    obtain ⟨y, hy, h⟩ := bind_eq_ok h
    obtain ⟨ys', hys, h⟩ := bind_eq_ok h
    cases h
    rw [List.mapM_cons, hfg a y hy, ih hys]
    rfl

theorem decodeIgnore_of_decodeUtf8 (v : PyObj) (s : Str) (h : decodeUtf8 v = .ok s) :
    decodeIgnore v = .ok s := by
  cases v with
  | bytes b =>
    simp only [decodeUtf8] at h
    cases hb : utf8Decode b with
    | none =>
      rw [hb] at h
      cases h
    | some t =>
      rw [hb] at h
      cases h
      exact congrArg Except.ok (utf8DecodeIgnore_of_decode hb)
  | str | int | bool | list | dict | other => cases h

theorem sameNumber_iff {d : PyDict} {key : String} {v : PyObj} {n : Int}
    (hkey : getKey d key = some v) (hn : toInt coerceInt v = .ok n) :
    SameNumber coerceInt d key ↔ pyInt v = .ok n := by
  unfold SameNumber
  simp [hkey, hn]

theorem joinPath_eq_ok {path : List Str} {full : Str} (h : joinPath path = .ok full) :
    List.intercalate ['/'] path = full ↔ JoinsPlainly path := by
  cases path with
  | nil => cases h
  | cons part parts =>
    rw [← joinPath_eq_intercalate_iff, h, Except.ok.injEq, eq_comm]

/-- A file is the same for both exactly when it is plain. -/
theorem buildFile_agrees_iff {f : PyObj} {file : Torrent.FileInfo}
    (h : extractFile coerceInt f = .ok file) :
    (∃ e, buildFile f = .ok e ∧ e.layout = parsedFile file) ↔
      ∀ d, f = .dict d → PlainFile coerceInt d := by
  obtain ⟨d, hd, h⟩ := bind_eq_ok h
  obtain ⟨v, hv, h⟩ := bind_eq_ok h
  obtain ⟨w, hw, h⟩ := bind_eq_ok h
  obtain ⟨parts, hparts, h⟩ := bind_eq_ok h
  obtain ⟨path, hpath, h⟩ := bind_eq_ok h
  obtain ⟨full, hfull, h⟩ := bind_eq_ok h
  obtain ⟨attributes, hattr, h⟩ := bind_eq_ok h
  obtain ⟨symlink, hsymlink, h⟩ := bind_eq_ok h
  obtain ⟨hname, hlength, hfpath, hffull, hfattr, hfsymlink, hfsha1⟩ := makeFileInfo_eq_ok h
  have hignore : parts.mapM decodeIgnore = .ok path :=
    mapM_eq_ok_congr decodeIgnore_of_decodeUtf8 hpath
  have hdict : f = .dict d := by
    cases f <;> cases hd
    rfl
  have hbuild : buildFile f =
      (pyInt v >>= fun n => .ok ⟨n, path, List.intercalate ['/'] path⟩) := by
    unfold buildFile
    rw [hd]
    show (getItem d "length" >>= _) = _
    rw [hv]
    show (pyInt v >>= _) = _
    congr 1
    funext n
    rw [hw]
    show (iterate w >>= _) = _
    rw [hparts]
    show (parts.mapM decodeIgnore >>= _) = _
    rw [hignore]
    rfl
  have hplain : (∀ d', f = .dict d' → PlainFile coerceInt d') ↔
      pyInt v = .ok file.length ∧ List.intercalate ['/'] path = full ∧
        attributes.getD [] = [] ∧ symlink.getD [] = [] ∧ file.fileSha1 = none := by
    rw [← sameNumber_iff (getItem_eq_ok hv) hlength, joinPath_eq_ok hfull,
      optionalText_eq_ok hattr, optionalText_eq_ok hsymlink, hfsha1]
    constructor
    · intro hall
      obtain ⟨hnum, ⟨hnoattr, hnolink, hnosha⟩, hjoin⟩ := hall d hdict
      exact ⟨hnum, hjoin w parts path (getItem_eq_ok hw) hparts hpath, hnoattr, hnolink, hnosha⟩
    · rintro ⟨hnum, hjoin, hnoattr, hnolink, hnosha⟩ d' hd'
      cases hdict.symm.trans hd'
      refine ⟨hnum, ⟨hnoattr, hnolink, hnosha⟩, fun w' parts' path' hw' hparts' hpath' => ?_⟩
      cases (getItem_eq_ok hw).symm.trans hw'
      cases hparts.symm.trans hparts'
      cases hpath.symm.trans hpath'
      exact hjoin
  rw [hplain, hbuild]
  constructor
  · rintro ⟨e, he, hlayout⟩
    obtain ⟨n, hn, he⟩ := bind_eq_ok he
    cases he
    simp only [FileEntry.layout, parsedFile, FileLayout.mk.injEq] at hlayout
    obtain ⟨-, rfl, -, hjoined, hnoattr, hnolink, hnosha⟩ := hlayout
    rw [hffull] at hjoined
    rw [hfattr] at hnoattr
    rw [hfsymlink] at hnolink
    exact ⟨hn, hjoined, hnoattr.symm, hnolink.symm, hnosha.symm⟩
  · rintro ⟨hn, hjoined, hnoattr, hnolink, hnosha⟩
    refine ⟨_, by rw [hn]; rfl, ?_⟩
    simp [FileEntry.layout, parsedFile, hname, hfpath, hffull, hfattr, hfsymlink, hjoined, hnoattr,
      hnolink, hnosha]

theorem exists_of_mapM_eq_ok {α β ε : Type} {f : α → Except ε β} {l : List α} {ys : List β}
    (h : l.mapM f = .ok ys) {a : α} (ha : a ∈ l) : ∃ y, f a = .ok y := by
  induction l generalizing ys with
  | nil => cases ha
  | cons b l ih =>
    rw [List.mapM_cons] at h
    obtain ⟨y, hy, h⟩ := bind_eq_ok h
    obtain ⟨ys', hys, -⟩ := bind_eq_ok h
    rcases List.mem_cons.mp ha with rfl | ha
    · exact ⟨y, hy⟩
    · exact ih hys ha

/-- Two ways of reading a list agree on it when they agree on each of its items. -/
theorem mapM_agrees_iff {α β γ δ ε : Type} {f : α → Except ε β} {g : α → Except ε γ} {p : β → δ}
    {q : γ → δ} {l : List α} {ys : List γ} (h : l.mapM g = .ok ys) :
    (∃ xs, l.mapM f = .ok xs ∧ xs.map p = ys.map q) ↔
      ∀ a ∈ l, ∀ y, g a = .ok y → ∃ x, f a = .ok x ∧ p x = q y := by
  induction l generalizing ys with
  | nil =>
    cases h
    exact iff_of_true ⟨[], rfl, rfl⟩ (by simp)
  | cons a l ih =>
    rw [List.mapM_cons] at h
    obtain ⟨y, hy, h⟩ := bind_eq_ok h
    obtain ⟨ys', hys, h⟩ := bind_eq_ok h
    cases h
    rw [List.forall_mem_cons, ← ih hys]
    constructor
    · rintro ⟨xs, hxs, hmap⟩
      rw [List.mapM_cons] at hxs
      obtain ⟨x, hx, hxs⟩ := bind_eq_ok hxs
      obtain ⟨xs', hxs', hxs⟩ := bind_eq_ok hxs
      cases hxs
      obtain ⟨hhead, htail⟩ := List.cons.inj hmap
      refine ⟨fun y' hy' => ?_, xs', hxs', htail⟩
      cases hy.symm.trans hy'
      exact ⟨x, hx, hhead⟩
    · rintro ⟨hhead, xs', hxs', htail⟩
      obtain ⟨x, hx, hxy⟩ := hhead y hy
      refine ⟨x :: xs', ?_, by rw [List.map_cons, List.map_cons, hxy, htail]⟩
      rw [List.mapM_cons, hx, hxs']
      rfl

-- What the two make of the whole dictionary

/-- Both read the dictionary in the same way: it has one of `length` and `files`, no attributes, and
numbers and paths that are no matter of taste. -/
structure PlainInfo (coerceInt : Bytes → Option Int) (info : PyDict) : Prop where
  one : ¬(hasKey info "length" = true ∧ hasKey info "files" = true)
  piece_length : SameNumber coerceInt info "piece length"
  single : hasKey info "length" = true →
    SameNumber coerceInt info "length" ∧ NoAttributes info
  multi : ∀ w items, getKey info "files" = some w → iterate w = .ok items →
    ∀ d, .dict d ∈ items → PlainFile coerceInt d

/-- What an accepted dictionary of version 1 has been read as. -/
theorem extractV1Data_eq_ok {info data : PyDict} {t : TorrentInfo}
    (h : extractV1Data coerceInt info data = .ok t) :
    extractFileInfo coerceInt info = .ok t.files ∧
      (∃ v, extractPiecesInfo info = .ok (v, t.pieces) ∧ toInt coerceInt v = .ok t.pieceLength) ∧
      (∃ v, getKey info "name" = some v ∧ decodeUtf8 v = .ok t.name) ∧
      t.isPrivate = truth ((getKey info "private").getD (.int 0)) ∧
      t.totalLength = (t.files.map Torrent.FileInfo.length).sum ∧ t.numPieces = t.pieces.length := by
  obtain ⟨_, -, h⟩ := bind_eq_ok h
  obtain ⟨_, -, h⟩ := bind_eq_ok h
  obtain ⟨_, -, h⟩ := bind_eq_ok h
  obtain ⟨files, hfiles, h⟩ := bind_eq_ok h
  obtain ⟨⟨v, hashes⟩, hpieces, h⟩ := bind_eq_ok h
  obtain ⟨_, -, h⟩ := bind_eq_ok h
  obtain ⟨_, -, h⟩ := bind_eq_ok h
  obtain ⟨_, -, h⟩ := bind_eq_ok h
  obtain ⟨_, -, h⟩ := bind_eq_ok h
  obtain ⟨w, hw, h⟩ := bind_eq_ok h
  obtain ⟨name, hname, h⟩ := bind_eq_ok h
  obtain ⟨_, -, h⟩ := bind_eq_ok h
  obtain ⟨n, hn, h⟩ := bind_eq_ok h
  split at h
  · cases h
    exact ⟨hfiles, ⟨v, hpieces, hn⟩, ⟨w, getItem_eq_ok hw, hname⟩, rfl, rfl, rfl⟩
  · cases h

theorem extractPiecesInfo_eq_ok {info : PyDict} {v : PyObj} {hashes : List Bytes}
    (h : extractPiecesInfo info = .ok (v, hashes)) : getKey info "piece length" = some v ∧
      ∃ w, getKey info "pieces" = some w ∧ pieceHashes w = .ok (hashes.map .bytes) := by
  obtain ⟨v', hv, h⟩ := bind_eq_ok h
  obtain ⟨w, hw, h⟩ := bind_eq_ok h
  obtain ⟨n, hn, h⟩ := bind_eq_ok h
  have hsome := getItem_eq_ok hw
  split at h
  · cases h
  · split at h
    · cases h
      exact ⟨getItem_eq_ok hv, _, hsome, rfl⟩
    · split at h
      · next hzero =>
        cases h
        refine ⟨getItem_eq_ok hv, w, hsome, ?_⟩
        subst hzero
        -- a sequence without items has no slices
        cases w with
        | bytes b | str b | list b | dict b =>
          cases b with
          | nil => rfl
          | cons x b => cases hn
        | int | bool | other => cases hn
      · cases h

theorem buildFileInfo_name {info : PyDict} {v : PyObj} {name : Str} {file_info : FileInfo}
    (hv : getKey info "name" = some v) (hname : decodeUtf8 v = .ok name)
    (h : buildFileInfo info = .ok file_info) : file_info.name = name := by
  have hignore := decodeIgnore_of_decodeUtf8 v name hname
  unfold buildFileInfo at h
  rw [hv] at h
  split at h
  · obtain ⟨_, -, h⟩ := bind_eq_ok h
    obtain ⟨_, -, h⟩ := bind_eq_ok h
    obtain ⟨name', hname', h⟩ := bind_eq_ok h
    cases h
    exact Except.ok.inj (hname'.symm.trans hignore)
  · obtain ⟨_, -, h⟩ := bind_eq_ok h
    obtain ⟨name', hname', h⟩ := bind_eq_ok h
    cases h
    exact Except.ok.inj (hname'.symm.trans hignore)

/-- What `PlainInfo` says of the files. -/
def PlainFiles (coerceInt : Bytes → Option Int) (info : PyDict) : Prop :=
  ¬(hasKey info "length" = true ∧ hasKey info "files" = true) ∧
    (hasKey info "length" = true → SameNumber coerceInt info "length" ∧ NoAttributes info) ∧
    ∀ w items, getKey info "files" = some w → iterate w = .ok items →
      ∀ d, .dict d ∈ items → PlainFile coerceInt d

theorem hasKey_iff {d : PyDict} {key : String} :
    hasKey d key = true ↔ ∃ v, getKey d key = some v := Option.isSome_iff_exists

/-- Without a list of files there is nothing to say about the files in it. -/
theorem plainFiles_single_iff {info : PyDict} {length : PyObj}
    (hlength : getKey info "length" = some length) (hfiles : getKey info "files" = none) :
    PlainFiles coerceInt info ↔ SameNumber coerceInt info "length" ∧ NoAttributes info := by
  have hnone : ∀ w, getKey info "files" ≠ some w := by simp [hfiles]
  constructor
  · rintro ⟨-, hsingle, -⟩
    exact hsingle (hasKey_iff.mpr ⟨length, hlength⟩)
  · intro hsingle
    refine ⟨?_, fun _ => hsingle, fun w _ hw => absurd hw (hnone w)⟩
    rintro ⟨-, hboth⟩
    obtain ⟨w, hw⟩ := hasKey_iff.mp hboth
    exact hnone w hw

theorem buildFileInfo_single {info : PyDict} {length v : PyObj} {name : Str}
    (hlength : getKey info "length" = some length) (hfiles : getKey info "files" = none)
    (hv : getKey info "name" = some v) (hname : decodeUtf8 v = .ok name) :
    buildFileInfo info = (pyInt length >>= fun n => .ok (.single n name n)) := by
  have hignore := decodeIgnore_of_decodeUtf8 v name hname
  unfold buildFileInfo
  rw [hfiles, hlength, hv]
  show (pyInt length >>= _) = _
  congr 1
  funext n
  show (decodeIgnore v >>= _) = _
  rw [hignore]
  rfl

/-- The files of a list have paths. -/
theorem path_ne_none_of_files {info : PyDict} {w : PyObj} {file_info : FileInfo} {layout : FileLayout}
    (hfiles : getKey info "files" = some w) (h : buildFileInfo info = .ok file_info)
    (hlayout : layout ∈ file_info.files) : layout.path ≠ none := by
  unfold buildFileInfo at h
  rw [hfiles] at h
  obtain ⟨items, -, h⟩ := bind_eq_ok h
  obtain ⟨entries, -, h⟩ := bind_eq_ok h
  obtain ⟨_, -, h⟩ := bind_eq_ok h
  cases h
  obtain ⟨entry, -, rfl⟩ := List.mem_map.mp hlayout
  simp [FileEntry.layout]

theorem single_agrees_iff {info : PyDict} {length v : PyObj} {name : Str}
    {files : List Torrent.FileInfo} (hlength : getKey info "length" = some length)
    (hv : getKey info "name" = some v) (hname : decodeUtf8 v = .ok name)
    (h : extractFileInfo coerceInt info = .ok files) :
    (∃ file_info, buildFileInfo info = .ok file_info ∧
      file_info.files = files.map parsedFile) ↔ PlainFiles coerceInt info := by
  unfold extractFileInfo at h
  rw [hlength] at h
  obtain ⟨attributes, hattr, h⟩ := bind_eq_ok h
  obtain ⟨symlink, hsymlink, h⟩ := bind_eq_ok h
  obtain ⟨v', hv', h⟩ := bind_eq_ok h
  cases hv.symm.trans (getItem_eq_ok hv')
  obtain ⟨name', hname', h⟩ := bind_eq_ok h
  cases hname.symm.trans hname'
  obtain ⟨file, hfile, h⟩ := bind_eq_ok h
  cases h
  obtain ⟨hfname, hflength, hfpath, hffull, hfattr, hfsymlink, hfsha1⟩ :=
    makeFileInfo_eq_ok hfile
  have hhas : hasKey info "length" = true := hasKey_iff.mpr ⟨length, hlength⟩
  cases hfiles : getKey info "files" with
  | some w =>
    refine iff_of_false ?_ fun hplain => hplain.1 ⟨hhas, hasKey_iff.mpr ⟨w, hfiles⟩⟩
    -- the metadata are read as those of many files, which have paths
    rintro ⟨file_info, hbuild, heq⟩
    have hmem : parsedFile file ∈ file_info.files := by
      rw [heq]
      exact List.mem_singleton_self _
    exact path_ne_none_of_files hfiles hbuild hmem hfpath
  | none =>
    have hplain : PlainFiles coerceInt info ↔ pyInt length = .ok file.length ∧
        attributes.getD [] = [] ∧ symlink.getD [] = [] ∧ file.fileSha1 = none := by
      rw [plainFiles_single_iff hlength hfiles, sameNumber_iff hlength hflength, noAttributes_iff,
        optionalText_eq_ok hattr, optionalText_eq_ok hsymlink, hfsha1]
    rw [hplain, buildFileInfo_single hlength hfiles hv hname]
    constructor
    · rintro ⟨file_info, hinfo, heq⟩
      obtain ⟨n, hn, hinfo⟩ := bind_eq_ok hinfo
      cases hinfo
      simp only [FileInfo.files, parsedFile, List.map_cons, List.map_nil, List.cons.injEq,
        FileLayout.mk.injEq, and_true] at heq
      obtain ⟨-, rfl, -, -, hnoattr, hnolink, hnosha⟩ := heq
      rw [hfattr] at hnoattr
      rw [hfsymlink] at hnolink
      exact ⟨hn, hnoattr.symm, hnolink.symm, hnosha.symm⟩
    · rintro ⟨hn, hnoattr, hnolink, hnosha⟩
      refine ⟨_, by rw [hn]; rfl, ?_⟩
      simp [FileInfo.files, parsedFile, hfname, hfpath, hffull, hfattr, hfsymlink, hnoattr,
        hnolink, hnosha]

theorem multi_agrees_iff {info : PyDict} {v : PyObj} {name : Str}
    {files : List Torrent.FileInfo} (hlength : getKey info "length" = none)
    (hv : getKey info "name" = some v) (hname : decodeUtf8 v = .ok name)
    (h : extractFileInfo coerceInt info = .ok files) :
    (∃ file_info, buildFileInfo info = .ok file_info ∧
      file_info.files = files.map parsedFile) ↔ PlainFiles coerceInt info := by
  have hignore := decodeIgnore_of_decodeUtf8 v name hname
  unfold extractFileInfo at h
  rw [hlength] at h
  obtain ⟨w, hw, h⟩ := bind_eq_ok h
  obtain ⟨items, hitems, hfiles⟩ := bind_eq_ok h
  have hsome := getItem_eq_ok hw
  have hbuild : buildFileInfo info = (items.mapM buildFile >>= fun entries =>
      .ok (.multi entries name (entries.map FileEntry.length).sum)) := by
    unfold buildFileInfo
    rw [hsome, hv]
    show (iterate w >>= _) = _
    rw [hitems]
    show (items.mapM buildFile >>= _) = _
    congr 1
    funext entries
    show (decodeIgnore v >>= _) = _
    rw [hignore]
    rfl
  have hplain : PlainFiles coerceInt info ↔
      ∀ f ∈ items, ∀ file, extractFile coerceInt f = .ok file →
        ∃ e, buildFile f = .ok e ∧ e.layout = parsedFile file := by
    have hnot : ¬hasKey info "length" = true := by
      rw [hasKey, hlength]
      exact Bool.false_ne_true
    constructor
    · rintro ⟨-, -, hall⟩ f hf file hfile
      rw [buildFile_agrees_iff hfile]
      rintro d rfl
      exact hall w items hsome hitems d hf
    · intro hall
      refine ⟨fun hboth => hnot hboth.1, fun hlen => absurd hlen hnot, ?_⟩
      intro w' items' hw' hitems' d hd
      cases hsome.symm.trans hw'
      cases hitems.symm.trans hitems'
      obtain ⟨file, hfile⟩ := exists_of_mapM_eq_ok hfiles hd
      exact (buildFile_agrees_iff hfile).mp (hall _ hd file hfile) d rfl
  rw [hplain, ← mapM_agrees_iff hfiles, hbuild]
  constructor
  · rintro ⟨file_info, hinfo, heq⟩
    obtain ⟨entries, hentries, hinfo⟩ := bind_eq_ok hinfo
    cases hinfo
    exact ⟨entries, hentries, heq⟩
  · rintro ⟨entries, hentries, heq⟩
    exact ⟨.multi entries name _, by rw [hentries]; rfl, heq⟩

theorem buildFileInfo_agrees_iff {info : PyDict} {v : PyObj} {name : Str}
    {files : List Torrent.FileInfo} (hv : getKey info "name" = some v)
    (hname : decodeUtf8 v = .ok name) (h : extractFileInfo coerceInt info = .ok files) :
    (∃ file_info, buildFileInfo info = .ok file_info ∧
      file_info.files = files.map parsedFile) ↔ PlainFiles coerceInt info := by
  cases hlength : getKey info "length" with
  | some length => exact single_agrees_iff hlength hv hname h
  | none => exact multi_agrees_iff hlength hv hname h

/-- The lengths of the files add up to the total length, also for a single file. -/
theorem total_length_eq {info_hash : Bytes} {info : PyDict} {d : TorrentData}
    (h : buildTorrentDataFromMetadata info_hash info = .ok d) :
    d.pieces_info.total_length = (d.file_info.files.map FileLayout.length).sum := by
  obtain ⟨_, -, h⟩ := bind_eq_ok h
  obtain ⟨_, -, h⟩ := bind_eq_ok h
  obtain ⟨file_info, hinfo, h⟩ := bind_eq_ok h
  cases h
  unfold buildFileInfo at hinfo
  split at hinfo
  · obtain ⟨_, -, hinfo⟩ := bind_eq_ok hinfo
    obtain ⟨files, -, hinfo⟩ := bind_eq_ok hinfo
    obtain ⟨_, -, hinfo⟩ := bind_eq_ok hinfo
    cases hinfo
    simp [FileInfo.files, FileInfo.totalLength, FileEntry.layout, Function.comp_def]
  · obtain ⟨n, -, hinfo⟩ := bind_eq_ok hinfo
    obtain ⟨_, -, hinfo⟩ := bind_eq_ok hinfo
    cases hinfo
    simp [FileInfo.files, FileInfo.totalLength]

/-- An accepted dictionary of version 1 gives the same layout from metadata exactly when it is
plain. -/
theorem layout_agrees_iff {info_hash : Bytes} {info data : PyDict} {t : TorrentInfo}
    (h : extractV1Data coerceInt info data = .ok t) :
    (∃ d, buildTorrentDataFromMetadata info_hash info = .ok d ∧ d.layout = parsedLayout t) ↔
      PlainInfo coerceInt info := by
  obtain ⟨hfiles, ⟨v, hpieces, hpl⟩, ⟨w, hw, hname⟩, hprivate, htotal, hnum⟩ :=
    extractV1Data_eq_ok h
  obtain ⟨hplkey, p, hp, hhashes⟩ := extractPiecesInfo_eq_ok hpieces
  have hplain : PlainInfo coerceInt info ↔ pyInt v = .ok t.pieceLength ∧
      ∃ file_info, buildFileInfo info = .ok file_info ∧
        file_info.files = t.files.map parsedFile := by
    rw [← sameNumber_iff hplkey hpl, buildFileInfo_agrees_iff hw hname hfiles]
    exact ⟨fun h => ⟨h.piece_length, h.one, h.single, h.multi⟩,
      fun h => ⟨h.2.1, h.1, h.2.2.1, h.2.2.2⟩⟩
  have hlengths : (t.files.map parsedFile).map FileLayout.length =
      t.files.map Torrent.FileInfo.length := by
    simp [parsedFile, Function.comp_def]
  rw [hplain]
  constructor
  · rintro ⟨d, hd, hlayout⟩
    obtain ⟨n, hn, hd⟩ := bind_eq_ok hd
    obtain ⟨_, -, hd⟩ := bind_eq_ok hd
    obtain ⟨file_info, hinfo, hd⟩ := bind_eq_ok hd
    cases hd
    rw [hplkey] at hn
    have heq := congrArg Layout.piece_length hlayout
    cases (show n = t.pieceLength from heq)
    exact ⟨hn, file_info, hinfo, congrArg Layout.files hlayout⟩
  · rintro ⟨hn, file_info, hinfo, heq⟩
    have hbuild : buildTorrentDataFromMetadata info_hash info = .ok
        { info_hash
          info
          file_info
          pieces_info := {
            piece_length := t.pieceLength
            num_pieces := (t.pieces.map PyObj.bytes).length
            piece_hashes := t.pieces.map .bytes
            total_length := file_info.totalLength }
          name := file_info.name
          is_private := truth ((getKey info "private").getD (.int 0)) } := by
      unfold buildTorrentDataFromMetadata
      rw [hplkey, hp]
      show (pyInt v >>= _) = _
      rw [hn]
      show (pieceHashes p >>= _) = _
      rw [hhashes]
      show (buildFileInfo info >>= _) = _
      rw [hinfo]
      rfl
    refine ⟨_, hbuild, ?_⟩
    have hsum := total_length_eq hbuild
    simp only [heq, hlengths, ← htotal] at hsum
    simp [TorrentData.layout, parsedLayout, heq, hsum, buildFileInfo_name hw hname hinfo, hnum,
      hprivate]

-- What is accepted

theorem exists_bind_eq_ok {ε α β : Type} {x : Except ε α} {f : α → Except ε β} :
    (∃ b, (x >>= f) = .ok b) ↔ ∃ a, x = .ok a ∧ ∃ b, f a = .ok b := by
  constructor
  · rintro ⟨b, h⟩
    obtain ⟨a, ha, h⟩ := bind_eq_ok h
    exact ⟨a, ha, b, h⟩
  · rintro ⟨a, rfl, b, h⟩
    exact ⟨b, h⟩

theorem exists_mapM_eq_ok {α β ε : Type} {f : α → Except ε β} {l : List α} :
    (∃ ys, l.mapM f = .ok ys) ↔ ∀ a ∈ l, ∃ y, f a = .ok y := by
  constructor
  · rintro ⟨ys, h⟩ a ha
    exact exists_of_mapM_eq_ok h ha
  · intro h
    obtain ⟨ys, hys, -⟩ := mapM_isOk h
    exact ⟨ys, hys⟩

def IsNumber (v : PyObj) : Prop := ∃ n, pyInt v = .ok n

def IsBytes (v : PyObj) : Prop := ∃ b, v = .bytes b

theorem isBytes_iff {v : PyObj} : (∃ s, decodeIgnore v = .ok s) ↔ IsBytes v := by
  cases v <;> simp [decodeIgnore, IsBytes]

theorem getItem_eq_ok_iff {d : PyDict} {key : String} {v : PyObj} :
    getItem d key = .ok v ↔ getKey d key = some v := by
  refine ⟨getItem_eq_ok, fun h => ?_⟩
  rw [getItem, h]

/-- An entry of `files` of which the file is made. -/
structure ReadableFile (d : PyDict) : Prop where
  length : ∃ v, getKey d "length" = some v ∧ IsNumber v
  path : ∃ w parts, getKey d "path" = some w ∧ iterate w = .ok parts ∧ ∀ p ∈ parts, IsBytes p

/-- The dictionaries of which torrent data are made. Hardly anything has to be there. -/
structure Readable (info : PyDict) : Prop where
  piece_length : ∀ v, getKey info "piece length" = some v → IsNumber v
  pieces : ∀ v, getKey info "pieces" = some v → ∃ hashes, pieceHashes v = .ok hashes
  name : ∀ v, getKey info "name" = some v → IsBytes v
  length : getKey info "files" = none → ∀ v, getKey info "length" = some v → IsNumber v
  files : ∀ w, getKey info "files" = some w →
    ∃ items, iterate w = .ok items ∧ ∀ f ∈ items, ∃ d, f = .dict d ∧ ReadableFile d

theorem buildFile_isOk_iff {f : PyObj} :
    (∃ e, buildFile f = .ok e) ↔ ∃ d, f = .dict d ∧ ReadableFile d := by
  unfold buildFile
  rw [exists_bind_eq_ok]
  refine exists_congr fun d => and_congr ?_ ?_
  · cases f <;> simp [asDict]
  · simp only [exists_bind_eq_ok, getItem_eq_ok_iff, exists_mapM_eq_ok, isBytes_iff, pure,
      Except.pure, Except.ok.injEq, exists_eq', and_true]
    constructor
    · rintro ⟨v, hv, n, hn, w, hw, parts, hparts, hbytes⟩
      exact ⟨⟨v, hv, n, hn⟩, w, parts, hw, hparts, hbytes⟩
    · rintro ⟨⟨v, hv, n, hn⟩, w, parts, hw, hparts, hbytes⟩
      exact ⟨v, hv, n, hn, w, hw, parts, hparts, hbytes⟩

/-- A value that may be missing, where its default would do. -/
theorem getD_isOk_iff {α : Type} {f : PyObj → Result α} {d : PyObj} {a : α}
    (hdefault : f d = .ok a) (o : Option PyObj) :
    (∃ b, f (o.getD d) = .ok b) ↔ ∀ v, o = some v → ∃ b, f v = .ok b := by
  cases o with
  | none => simp [hdefault]
  | some v => simp

theorem buildFileInfo_isOk_iff {info : PyDict} : (∃ i, buildFileInfo info = .ok i) ↔
    (∀ v, getKey info "name" = some v → IsBytes v) ∧
      (getKey info "files" = none → ∀ v, getKey info "length" = some v → IsNumber v) ∧
      ∀ w, getKey info "files" = some w →
        ∃ items, iterate w = .ok items ∧ ∀ f ∈ items, ∃ d, f = .dict d ∧ ReadableFile d := by
  have hname := getD_isOk_iff (f := decodeIgnore) (d := .bytes []) rfl (getKey info "name")
  have hlength := getD_isOk_iff (f := pyInt) (d := .int 0) rfl (getKey info "length")
  simp only [isBytes_iff] at hname
  unfold buildFileInfo
  cases getKey info "files" with
  | some w =>
    simp only [exists_bind_eq_ok, pure, Except.pure, Except.ok.injEq, exists_eq', and_true,
      exists_and_right, exists_mapM_eq_ok, buildFile_isOk_iff, isBytes_iff, hname]
    constructor
    · rintro ⟨items, hitems, hall, hbytes⟩
      refine ⟨hbytes, by simp, fun w' hw' => ?_⟩
      cases hw'
      exact ⟨items, hitems, hall⟩
    · rintro ⟨hbytes, -, hfiles⟩
      obtain ⟨items, hitems, hall⟩ := hfiles w rfl
      exact ⟨items, hitems, hall, hbytes⟩
  | none =>
    simp only [exists_bind_eq_ok, pure, Except.pure, Except.ok.injEq, exists_eq', and_true,
      exists_and_right, isBytes_iff, hname, hlength]
    constructor
    · rintro ⟨hnumber, hbytes⟩
      exact ⟨hbytes, fun _ => hnumber, by simp⟩
    · rintro ⟨hbytes, hnumber, -⟩
      exact ⟨hnumber trivial, hbytes⟩

/-- Which dictionaries torrent data are made of. -/
theorem build_isOk_iff {info_hash : Bytes} {info : PyDict} :
    (∃ d, buildTorrentDataFromMetadata info_hash info = .ok d) ↔ Readable info := by
  have hlength := getD_isOk_iff (f := pyInt) (d := .int 0) rfl (getKey info "piece length")
  have hpieces := getD_isOk_iff (f := pieceHashes) (d := .bytes []) rfl
    (getKey info "pieces")
  unfold buildTorrentDataFromMetadata
  simp only [exists_bind_eq_ok, pure, Except.pure, Except.ok.injEq, exists_eq', and_true,
    exists_and_right, buildFileInfo_isOk_iff, hlength, hpieces]
  constructor
  · rintro ⟨hl, hp, hname, hsingle, hmulti⟩
    exact ⟨hl, hp, hname, hsingle, hmulti⟩
  · rintro ⟨hl, hp, hname, hsingle, hmulti⟩
    exact ⟨hl, hp, hname, hsingle, hmulti⟩

-- Torrents from files and from metadata

variable (coerceInt) (parseV2 : Int → PyDict → PyDict → Result TorrentInfo)

/-- The parser behind the decoder. -/
def parseDecoded (decoded : PyObj) : Result TorrentInfo := do
  let (data, info) ← validateTorrent decoded
  extractTorrentData coerceInt parseV2 info data

/-- A torrent file with this info dictionary and this tracker. -/
def torrentFile (announce : Str) (info : PyDict) : PyObj :=
  .dict [(.bytes (ascii "announce"), .bytes (utf8Encode announce)),
    (.bytes (ascii "info"), .dict info)]

/-- The torrent has the same layout when its metadata come from peers, and its metadata are refused
when its file is. -/
def SameLayout (announce : Str) (info_hash : Bytes) (info : PyDict) : Prop :=
  (∀ t, parseDecoded coerceInt parseV2 (torrentFile announce info) = .ok t → t.metaVersion = 1 →
    ∃ d, buildTorrentDataFromMetadata info_hash info = .ok d ∧ d.layout = parsedLayout t) ∧
  (∀ e, parseDecoded coerceInt parseV2 (torrentFile announce info) = .error e →
    ∃ e', buildTorrentDataFromMetadata info_hash info = .error e')

theorem extractV1Data_of_parseDecoded {announce : Str} {info : PyDict} {t : TorrentInfo}
    (h : parseDecoded coerceInt parseV2 (torrentFile announce info) = .ok t)
    (hv1 : t.metaVersion = 1) : ∃ data, extractV1Data coerceInt info data = .ok t := by
  obtain ⟨⟨data, info'⟩, hvalid, h⟩ := bind_eq_ok h
  obtain ⟨hdata, hinfo⟩ := validateTorrent_eq_ok hvalid
  cases hdata
  have hkey : getKey [(.bytes (ascii "announce"), .bytes (utf8Encode announce)),
      (.bytes (ascii "info"), .dict info)] "info" = some (.dict info) := rfl
  cases hkey.symm.trans hinfo
  exact ⟨_, extractTorrentData_v1 h hv1⟩

theorem isError_iff {ε α : Type} {x : Except ε α} : (∃ e, x = .error e) ↔ ¬∃ a, x = .ok a := by
  cases x <;> simp

/-- A torrent has the same layout from its metadata as from its file exactly when its info
dictionary is plain, if the parser accepts it, and unreadable, if the parser refuses it. -/
theorem sameLayout_iff (announce : Str) (info_hash : Bytes) (info : PyDict) :
    SameLayout coerceInt parseV2 announce info_hash info ↔
      (∀ t, parseDecoded coerceInt parseV2 (torrentFile announce info) = .ok t →
        t.metaVersion = 1 → PlainInfo coerceInt info) ∧
      (∀ e, parseDecoded coerceInt parseV2 (torrentFile announce info) = .error e →
        ¬Readable info) := by
  refine and_congr (forall_congr' fun t => ?_) (forall_congr' fun e => ?_)
  · refine forall_congr' fun ht => forall_congr' fun hv1 => ?_
    obtain ⟨data, hdata⟩ := extractV1Data_of_parseDecoded coerceInt parseV2 ht hv1
    exact layout_agrees_iff hdata
  · refine forall_congr' fun _ => ?_
    rw [isError_iff, build_isOk_iff]

/-- The entry of a padding file. -/
def paddingFile : PyDict :=
  [(.bytes (ascii "attr"), .bytes (ascii "p")), (.bytes (ascii "length"), .int 1),
    (.bytes (ascii "path"), .list [.bytes (ascii ".pad"), .bytes (ascii "1")])]

/-- A torrent of a file and a padding file behind it. -/
def paddedInfo : PyDict :=
  [(.bytes (ascii "files"), .list [
      .dict [(.bytes (ascii "length"), .int 3),
        (.bytes (ascii "path"), .list [.bytes (ascii "a")])],
      .dict paddingFile]),
    (.bytes (ascii "name"), .bytes (ascii "d")), (.bytes (ascii "piece length"), .int 4),
    (.bytes (ascii "pieces"), .bytes (List.replicate 20 0))]

/-- A padding file becomes an ordinary one when the metadata come from peers. -/
theorem not_sameLayout_paddedInfo :
    ¬SameLayout (fun _ => none) (fun _ _ _ => .error .failed) [] [] paddedInfo := by
  rintro ⟨haccepted, -⟩
  have hparse : ∃ t, parseDecoded (fun _ => none) (fun _ _ _ => .error .failed)
      (torrentFile [] paddedInfo) = .ok t ∧ t.metaVersion = 1 := ⟨_, rfl, rfl⟩
  obtain ⟨t, ht, hv1⟩ := hparse
  obtain ⟨data, hdata⟩ := extractV1Data_of_parseDecoded _ _ ht hv1
  have hplain := (layout_agrees_iff hdata).mp (haccepted t ht hv1)
  have hfile := hplain.multi _ _ rfl rfl paddingFile (by simp)
  have hattr := hfile.attributes.attr (.bytes (ascii "p")) rfl
  simp [ascii] at hattr

end Parser

end Magnet

end Ccbt

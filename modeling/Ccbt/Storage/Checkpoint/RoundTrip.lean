import Ccbt.Storage.Checkpoint.BinaryRoundTrip
import Ccbt.Storage.Checkpoint.JsonRoundTrip
import Ccbt.Storage.Checkpoint.StandIns

/-!
# Which checkpoints come back

A checkpoint is saved and loaded with the same configuration. In the format `BOTH` the binary file
has to be written, but it is the JSON file that is read.
-/

namespace Ccbt

open Python

namespace Checkpoint

/-- The same checkpoint up to `updated_at`, and up to whole seconds in the binary format. -/
def Same (c c' : TorrentCheckpoint) : CheckpointFormat → Prop
  | .BINARY => SameRounded c c'
  | _ => c' = { c with updated_at := c'.updated_at }

/-- The checkpoint is saved, and what is loaded then is the same. -/
def RoundTrips (lib : Libraries) (config : DiskConfig) (disk : Disk) (c : TorrentCheckpoint)
    (times : Now × Now) : Prop :=
  let (saved, disk) := saveAs lib config c times (.done, .done) disk config.checkpoint_format
  saved = true ∧ ∃ c',
    loadAs lib config disk c.info_hash config.checkpoint_format = .checkpoint c' ∧
      Same c c' config.checkpoint_format

/-- What a checkpoint must be like to come back. -/
def Survives (lib : Libraries) (config : DiskConfig) (c : TorrentCheckpoint) (times : Now × Now) :
    Prop :=
  match config.checkpoint_format with
  | .JSON => JsonSurvives lib.repr c
  | .BINARY => BinarySurvives lib config c times.2
  | .BOTH => JsonSurvives lib.repr c ∧ BinarySaves lib c

variable {lib : Libraries} {config : DiskConfig} {disk : Disk} {c : TorrentCheckpoint}
  {times : Now × Now} {now : Now}

section Files

/-- What the loaders do with a file that they read in their own ways. -/
def loadFile (read : Bytes → Option TorrentCheckpoint) :
    Option Bytes → Except LoadError (Option TorrentCheckpoint)
  | none => .error .CheckpointNotFoundError
  | some content =>
    match read content with
    | none => .error .CheckpointCorruptedError
    | some c => .ok (some c)

theorem loadFile_eq_ok_iff {read : Bytes → Option TorrentCheckpoint} {file : Option Bytes}
    {r : Option TorrentCheckpoint} : loadFile read file = .ok r ↔
      ∃ content c', file = some content ∧ read content = some c' ∧ r = some c' := by
  cases file with
  | none => exact iff_of_false (fun h => by cases h) fun ⟨_, _, h, _⟩ => by cases h
  | some content =>
    rw [loadFile]
    cases hread : read content with
    | none =>
      refine iff_of_false (fun h => by cases h) ?_
      rintro ⟨_, _, hcontent, hread', -⟩
      obtain rfl := Option.some.inj hcontent
      cases hread.symm.trans hread'
    | some c' =>
      constructor
      · intro h
        exact ⟨content, c', rfl, hread, (Except.ok.inj h).symm⟩
      · rintro ⟨_, c'', hcontent, hread', rfl⟩
        obtain rfl := Option.some.inj hcontent
        rw [Option.some.inj (hread.symm.trans hread')]

theorem loadJson_eq (info_hash : Bytes) : loadJson lib disk info_hash =
    loadFile (fun content => (lib.loads content).bind checkpointOfJson)
      (disk (info_hash, .json)) := by
  rw [loadJson]
  cases disk (info_hash, .json) with
  | none => rfl
  | some content => rfl

theorem loadBinary_eq (info_hash : Bytes) : loadBinary lib config disk info_hash =
    loadFile (fun content => ((uncompressed lib config content).bind
      (readBinaryData lib info_hash)).bind asTorrentCheckpoint)
      (disk (info_hash, binarySuffix lib config)) := by
  rw [loadBinary]
  cases disk (info_hash, binarySuffix lib config) with
  | none => rfl
  | some content => rfl

theorem loadJson_eq_ok_iff {info_hash : Bytes} {r : Option TorrentCheckpoint} :
    loadJson lib disk info_hash = .ok r ↔ ∃ content c', disk (info_hash, .json) = some content ∧
      (lib.loads content).bind checkpointOfJson = some c' ∧ r = some c' := by
  rw [loadJson_eq, loadFile_eq_ok_iff]

/-- What is loaded of a file is what is read from its content. -/
theorem exists_loadFile_iff {read : Bytes → Option TorrentCheckpoint} {file : Option Bytes}
    {content : Bytes} {R : TorrentCheckpoint → Prop} (h : file = some content) :
    (∃ c', loadFile read file = .ok (some c') ∧ R c') ↔ ∃ c', read content = some c' ∧ R c' := by
  refine exists_congr fun c' => and_congr_left fun _ => ?_
  rw [loadFile_eq_ok_iff]
  constructor
  · rintro ⟨_, _, hcontent, hread, hc'⟩
    obtain rfl := Option.some.inj (h.symm.trans hcontent)
    rw [hread, hc']
  · intro hread
    exact ⟨content, c', h, hread, rfl⟩

theorem exists_loadJson_iff {info_hash text : Bytes} {R : TorrentCheckpoint → Prop}
    (h : disk (info_hash, .json) = some text) :
    (∃ c', loadJson lib disk info_hash = .ok (some c') ∧ R c') ↔
      ∃ c', (lib.loads text).bind checkpointOfJson = some c' ∧ R c' := by
  rw [loadJson_eq, exists_loadFile_iff h]

theorem exists_loadBinary_iff {info_hash content : Bytes} {R : TorrentCheckpoint → Prop}
    (h : disk (info_hash, binarySuffix lib config) = some content) :
    (∃ c', loadBinary lib config disk info_hash = .ok (some c') ∧ R c') ↔
      ∃ c', ((uncompressed lib config content).bind (readBinaryData lib info_hash)).bind
        asTorrentCheckpoint = some c' ∧ R c' := by
  rw [loadBinary_eq, exists_loadFile_iff h]

end Files

/-- A checkpoint is loaded when what is tried gives it. -/
theorem loadAs_eq_checkpoint_iff {info_hash : Bytes} {checkpoint_format : CheckpointFormat} :
    loadAs lib config disk info_hash checkpoint_format = .checkpoint c ↔
      tryLoad lib config disk info_hash checkpoint_format = .ok (some c) := by
  rw [loadAs]
  cases tryLoad lib config disk info_hash checkpoint_format with
  | ok r =>
    cases r with
    | none => exact iff_of_false (fun h => by cases h) fun h => by cases h
    | some c' => exact ⟨fun h => by rw [Loaded.checkpoint.inj h], fun h => by cases h; rfl⟩
  | error e =>
    cases e with
    | CheckpointNotFoundError => exact iff_of_false (fun h => by cases h) fun h => by cases h
    | CheckpointCorruptedError => exact iff_of_false (fun h => by cases h) fun h => by cases h

/-- The JSON file never gives `None`, so in both formats it alone is loaded. -/
theorem tryLoad_both (info_hash : Bytes) :
    tryLoad lib config disk info_hash .BOTH = loadJson lib disk info_hash := by
  rw [tryLoad]
  split
  · next hnone =>
    obtain ⟨_, _, _, _, h⟩ := loadJson_eq_ok_iff.mp hnone
    cases h
  · rfl

theorem binarySuffix_ne_json : binarySuffix lib config ≠ .json := by
  rw [binarySuffix]
  split
  · split
    · exact fun h => by cases h
    · exact fun h => by cases h
  · exact fun h => by cases h

/-- `updated_at` does not matter. -/
theorem jsonSurvives_updated (c : TorrentCheckpoint) (updated_at : PyFloat) :
    JsonSurvives lib.repr { c with updated_at := updated_at } ↔ JsonSurvives lib.repr c :=
  ⟨fun h => ⟨h.version, h.file_sha1, h.peer_info, h.resume_data, h.file_selections⟩,
    fun h => ⟨h.version, h.file_sha1, h.peer_info, h.resume_data, h.file_selections⟩⟩

/-- What is dumped of a checkpoint and read again is the same up to `updated_at` exactly if the
checkpoint survives. -/
theorem jsonRoundTrips_iff {updated_at : PyFloat} :
    ((lib.dump (.record (jsonDict { c with updated_at := updated_at }))).2 = true ∧ ∃ c',
      (lib.loads (lib.dump (.record (jsonDict { c with updated_at := updated_at }))).1).bind
        checkpointOfJson = some c' ∧ c' = { c with updated_at := c'.updated_at }) ↔
    JsonSurvives lib.repr c := by
  rw [← jsonSurvives_updated c updated_at, jsonSurvives_iff]
  refine and_congr_right fun hdumped => ?_
  constructor
  · rintro ⟨c', hread, hsame⟩
    obtain ⟨g, hg, -, hdescribes⟩ := loads_dump_iff.mp ⟨hdumped, hread⟩
    have hdumpedAt : g .updated_at = .float updated_at := (Option.some.inj (hg .updated_at)).symm
    have hreadAt : asFloat (g .updated_at) = some c'.updated_at := hdescribes.updated_at
    rw [hdumpedAt, asFloat_float] at hreadAt
    rw [hread, hsame, ← Option.some.inj hreadAt]
  · intro hread
    exact ⟨_, hread, rfl⟩

/-- What is written whole and can be written is there. -/
theorem saveJson_done : saveJson lib c now .done disk =
    ((lib.dump (.record (jsonDict { c with updated_at := .finite now.val }))).2,
      Function.update disk (c.info_hash, .json)
        (some (lib.dump (.record (jsonDict { c with updated_at := .finite now.val }))).1)) := by
  simp only [saveJson, writeFile, Bool.and_true]

theorem saveBinary_done : saveBinary lib config c now .done disk =
    ((binaryData lib c now).2, Function.update disk (c.info_hash, binarySuffix lib config)
      (some (compressed lib config (binaryData lib c now).1))) := by
  simp only [saveBinary, writeFile, Bool.and_true]

/-- The JSON file of a save that returns gives the same checkpoint exactly if it survives JSON. -/
theorem saveJson_loadJson_iff (disk : Disk) (now : Now) :
    ((saveJson lib c now .done disk).1 = true ∧ ∃ c',
      loadJson lib (saveJson lib c now .done disk).2 c.info_hash = .ok (some c') ∧
        c' = { c with updated_at := c'.updated_at }) ↔ JsonSurvives lib.repr c := by
  rw [saveJson_done, exists_loadJson_iff (Function.update_self _ _ _), jsonRoundTrips_iff]

theorem saveBinary_loadBinary_iff : ((saveBinary lib config c now .done disk).1 = true ∧ ∃ c',
      loadBinary lib config (saveBinary lib config c now .done disk).2 c.info_hash =
        .ok (some c') ∧ SameRounded c c') ↔ BinarySurvives lib config c now := by
  rw [saveBinary_done, exists_loadBinary_iff (Function.update_self _ _ _), ← binarySurvives_iff]

/-- The binary file leaves the JSON file as it is. -/
theorem loadJson_saveBinary {info_hash : Bytes} {outcome : WriteOutcome} :
    loadJson lib (saveBinary lib config c now outcome disk).2 info_hash =
      loadJson lib disk info_hash := by
  have hpath : (info_hash, Suffix.json) ≠ (c.info_hash, binarySuffix lib config) :=
    fun h => binarySuffix_ne_json (congrArg Prod.snd h).symm
  have hdisk : (saveBinary lib config c now outcome disk).2 (info_hash, .json) =
      disk (info_hash, .json) := by
    rw [saveBinary]
    cases outcome with
    | done => exact Function.update_of_ne hpath _ _
    | notOpened => rfl
    | stopped n => exact Function.update_of_ne hpath _ _
  rw [loadJson, loadJson, hdisk]

section Formats

theorem roundTrips_json_iff (h : config.checkpoint_format = .JSON) :
    RoundTrips lib config disk c times ↔ JsonSurvives lib.repr c := by
  simp only [RoundTrips, h, saveAs, loadAs_eq_checkpoint_iff, tryLoad, Same]
  exact saveJson_loadJson_iff disk times.1

theorem roundTrips_binary_iff (h : config.checkpoint_format = .BINARY) :
    RoundTrips lib config disk c times ↔ BinarySurvives lib config c times.2 := by
  simp only [RoundTrips, h, saveAs, loadAs_eq_checkpoint_iff, tryLoad, Same]
  exact saveBinary_loadBinary_iff

theorem roundTrips_both_iff (h : config.checkpoint_format = .BOTH) :
    RoundTrips lib config disk c times ↔ JsonSurvives lib.repr c ∧ BinarySaves lib c := by
  simp only [RoundTrips, h, loadAs_eq_checkpoint_iff, tryLoad_both, Same]
  rw [← saveJson_loadJson_iff disk times.1, ← binaryData_iff times.2]
  cases hjson : saveJson lib c times.1 .done disk with
  | mk saved disk' =>
    cases saved with
    | false =>
      simp only [saveAs, hjson]
      exact iff_of_false (fun h => Bool.false_ne_true h.1) fun h => Bool.false_ne_true h.1.1
    | true =>
      simp only [saveAs, hjson, loadJson_saveBinary, true_and]
      rw [saveBinary_done, and_comm]

end Formats

/-- **A checkpoint comes back from a save and a load with the same configuration if and only if it
survives the format.** -/
theorem checkpoint_roundTrips_iff (lib : Libraries) (config : DiskConfig) (disk : Disk)
    (c : TorrentCheckpoint) (times : Now × Now) :
    RoundTrips lib config disk c times ↔ Survives lib config c times := by
  rw [Survives]
  cases h : config.checkpoint_format with
  | JSON => exact roundTrips_json_iff h
  | BINARY => exact roundTrips_binary_iff h
  | BOTH => exact roundTrips_both_iff h

section Hashed

def someStats : DownloadStats where
  bytes_downloaded := 0
  download_time := .finite 0
  average_speed := .finite 0
  start_time := .finite 0
  last_update := .finite 0
  download_time_ge := rfl
  average_speed_ge := rfl

/-- One file of one piece, which is there. -/
def someCheckpoint : TorrentCheckpoint where
  version := "1.0".toList
  info_hash := List.replicate 20 7
  torrent_name := "linux.iso".toList
  created_at := .finite 1700000000
  updated_at := .finite 1700000000
  total_pieces := 1
  piece_length := 16384
  total_length := 3
  verified_pieces := [0]
  piece_states := ⟨[(0, .VERIFIED)], List.nodup_singleton 0⟩
  download_stats := someStats
  output_dir := "downloads".toList
  files := [{ path := "linux.iso".toList, size := 3, exists_ := true }]
  peer_info := none
  endgame_mode := false
  torrent_file_path := none
  magnet_uri := none
  announce_urls := []
  display_name := none
  resume_data := none
  file_selections := none
  info_hash_length := List.length_replicate
  piece_length_gt := Nat.succ_pos 16383

/-- The hash of the file is known. -/
def hashedCheckpoint : TorrentCheckpoint :=
  { someCheckpoint with
    files := [{ path := "linux.iso".toList, size := 3, file_sha1 := some (List.replicate 20 9) }] }

theorem hour_mem : 0 ≤ (3600 : Rat) ∧ (3600 : Rat) < 2 ^ 64 := by norm_num

def anHour : Now := ⟨3600, hour_mem⟩

/-- With the default settings, a checkpoint with the hash of a file is not even saved. -/
theorem not_roundTrips_hashedCheckpoint :
    ¬ RoundTrips standIns {} (fun _ => none) hashedCheckpoint (anHour, anHour) := by
  intro h
  have hsurvives : JsonSurvives standIns.repr hashedCheckpoint :=
    ((roundTrips_both_iff rfl).mp h).1
  have hnone := hsurvives.file_sha1 _ (List.mem_singleton_self _)
  cases hnone

end Hashed

/-!
## Which checkpoints keep their state

For a download to be resumed, the verified pieces, the states of the pieces, the files and
`resume_data` have to come back. The other fields of type `Any` may change, as long as the
serialiser has what is in them.
-/

/-- The pieces, the files and `resume_data` are the same. -/
structure SameState (c c' : TorrentCheckpoint) : Prop where
  verified_pieces : c'.verified_pieces = c.verified_pieces
  piece_states : c'.piece_states = c.piece_states
  files : c'.files = c.files
  resume_data : c'.resume_data = c.resume_data

/-- What a checkpoint must be like for its state to come back from JSON. -/
structure JsonKeeps (repr : PyFloat → Str) (c : TorrentCheckpoint) : Prop where
  version : c.version = "1.0".toList
  file_sha1 : ∀ file ∈ c.files, file.file_sha1 = none
  resume_data : ∀ d, c.resume_data = some d → ResumeSurvives repr d.val
  peer_info : ∀ d, c.peer_info = some d → (jsonImage repr d.val).isSome = true
  file_selections : ∀ d, c.file_selections = some d →
    ∀ e ∈ d.entries, (jsonImage repr e.2.val).isSome = true

/-- What a checkpoint must be like for its state to come back from a binary file. -/
structure BinaryKeeps (lib : Libraries) (config : DiskConfig) (c : TorrentCheckpoint) : Prop
    extends BinarySaves lib c where
  readable : config.checkpoint_compression = true → usesZstd lib config = false
  sorted : c.verified_pieces.Pairwise (· < ·)
  in_range : ∀ i ∈ c.verified_pieces, 0 ≤ i ∧ i < c.total_pieces
  peer_info : ∀ d, c.peer_info = some d → (msgpackImage d.val).isSome = true
  resume_data : c.resume_data = none

variable {lib : Libraries} {config : DiskConfig} {c c' c'' : TorrentCheckpoint} {now : Now}
  {repr : PyFloat → Str}

theorem SameState.refl (c : TorrentCheckpoint) : SameState c c := ⟨rfl, rfl, rfl, rfl⟩

theorem SameState.symm (h : SameState c c') : SameState c' c :=
  ⟨h.verified_pieces.symm, h.piece_states.symm, h.files.symm, h.resume_data.symm⟩

theorem SameState.trans (h : SameState c c') (h' : SameState c' c'') : SameState c c'' :=
  ⟨h'.verified_pieces.trans h.verified_pieces, h'.piece_states.trans h.piece_states,
    h'.files.trans h.files, h'.resume_data.trans h.resume_data⟩

section Optional

variable {leaf : Value → Option Value} {key : DictKey → Option DictKey}

/-- A dictionary that may be missing has an image exactly if what is there has one. -/
theorem image_optional_strDict_iff (h : KeepsCommon leaf key) {x : Option StrDict} :
    (∃ x' : Option StrDict,
        Value.image leaf key (optional Subtype.val x) = some (optional Subtype.val x')) ↔
      ∀ d, x = some d → (Value.image leaf key d.val).isSome = true := by
  cases x with
  | none => exact iff_of_true ⟨none, h.none⟩ fun _ hd => by cases hd
  | some d =>
    constructor
    · rintro ⟨x', hx'⟩ d' hd'
      obtain rfl := Option.some.inj hd'
      rw [show Value.image leaf key d.val = _ from hx']
      rfl
    · intro himage
      obtain ⟨w, hw⟩ := Option.isSome_iff_exists.mp (himage d rfl)
      obtain ⟨d', rfl⟩ := image_strDict h d hw
      exact ⟨some d', hw⟩

/-- The selections are read again if their values have images. -/
theorem selections_images {entries : List (Int × StrDict)}
    (h : ∀ e ∈ entries, (jsonImage repr e.2.val).isSome = true) :
    ∃ es l, Value.entryImages jsonLeaf (jsonKey repr)
        (entries.map fun e => (.int e.1, e.2.val)) = some es ∧
      (es.mapM fun e => (asIntKey e.1).bind fun k => (asStrDict e.2).map fun v => (k, v)) =
        some l := by
  induction entries with
  | nil => exact ⟨[], [], rfl, rfl⟩
  | cons e entries ih =>
    obtain ⟨es, l, hes, hl⟩ := ih fun e' he' => h e' (List.mem_cons_of_mem e he')
    obtain ⟨w, hw⟩ := Option.isSome_iff_exists.mp (h e List.mem_cons_self)
    obtain ⟨d, rfl⟩ := image_strDict (keepsCommon_json repr) e.2 hw
    refine ⟨(.str (strInt e.1), d.val) :: es, (e.1, d) :: l, ?_, ?_⟩
    · exact Value.entryImages_cons_eq_some_iff.mpr ⟨_, _, _, rfl, hw, hes, rfl⟩
    · have hkey : asIntKey (.str (strInt e.1)) = some e.1 := parseInt_strInt e.1
      have hvalue : asStrDict d.val = some d := asStrDict_eq_some_iff.mpr rfl
      rw [List.mapM_cons, hl, hkey, hvalue]
      rfl

/-- The selections have an image that is read exactly if their values have images. -/
theorem image_selections_iff {x : Option (Dict Int StrDict)} :
    (∃ x' w, jsonImage repr (optional dumpSelections x) = some w ∧
        asOptional (asIntDict asStrDict) w = some x') ↔
      ∀ d, x = some d → ∀ e ∈ d.entries, (jsonImage repr e.2.val).isSome = true := by
  cases x with
  | none => exact iff_of_true ⟨none, .none, rfl, rfl⟩ fun _ hd => by cases hd
  | some d =>
    constructor
    · rintro ⟨x', w, hw, -⟩ d' hd' e he
      obtain rfl := Option.some.inj hd'
      cases himage : jsonImage repr e.2.val with
      | some v => rfl
      | none =>
        have hrefused : Value.entryImages jsonLeaf (jsonKey repr)
            (d.entries.map fun e => (.int e.1, e.2.val)) = none :=
          Value.entryImages_map_eq_none he himage
        have hnone : jsonImage repr (dumpSelections d) = none := by
          rw [dumpSelections, jsonImage, Value.image, hrefused]
          rfl
        cases hnone.symm.trans hw
    · intro himages
      obtain ⟨es, l, hes, hl⟩ := selections_images (himages d rfl)
      obtain ⟨hkeys, -⟩ := selections_entries hes
      have hdict : dictOf es = es := by
        apply dictOf_eq_self
        rw [hkeys]
        have hnodup := d.nodup_keys.map fun _ _ h => strInt_injective (DictKey.str.inj h)
        rwa [List.map_map] at hnodup
      refine ⟨some ⟨dictOf l, nodup_keys_dictOf l⟩, .dict es, ?_, ?_⟩
      · show Value.image _ _ (dumpSelections d) = _
        rw [dumpSelections, Value.image, hes, Option.map_some, hdict]
      · show (asIntDict asStrDict (.dict es)).map some = _
        rw [asIntDict, hl]
        rfl

end Optional

theorem jsonKeeps_iff : JsonKeeps repr c ↔
    ∃ peer_info file_selections, JsonReturns repr c peer_info file_selections := by
  constructor
  · intro h
    obtain ⟨peer_info, hpeer⟩ :=
      (image_optional_strDict_iff (keepsCommon_json repr)).mpr h.peer_info
    obtain ⟨file_selections, hselections⟩ := image_selections_iff.mpr h.file_selections
    exact ⟨peer_info, file_selections, h.version, h.file_sha1, h.resume_data, hpeer, hselections⟩
  · rintro ⟨peer_info, file_selections, h⟩
    exact ⟨h.version, h.file_sha1, h.resume_data,
      (image_optional_strDict_iff (keepsCommon_json repr)).mp ⟨peer_info, h.peer_info⟩,
      image_selections_iff.mp ⟨file_selections, h.file_selections⟩⟩

/-- The state comes back from JSON exactly if it is kept. -/
theorem jsonKeeps_iff_read : JsonKeeps lib.repr c ↔
    (lib.dump (.record (jsonDict c))).2 = true ∧ ∃ c',
      (lib.loads (lib.dump (.record (jsonDict c))).1).bind checkpointOfJson = some c' ∧
        SameState c c' := by
  rw [jsonKeeps_iff]
  constructor
  · rintro ⟨peer_info, file_selections, h⟩
    obtain ⟨hdumped, hread⟩ := loads_of_returns h
    exact ⟨hdumped, _, hread, rfl, rfl, rfl, rfl⟩
  · rintro ⟨hdumped, c', hread, hsame⟩
    exact ⟨_, _, returns_of_loads hdumped hread hsame.resume_data⟩

/-- The state comes back from a binary file exactly if it is kept. -/
theorem binaryKeeps_iff_read : BinaryKeeps lib config c ↔
    (binaryData lib c now).2 = true ∧ ∃ c',
      ((uncompressed lib config (compressed lib config (binaryData lib c now).1)).bind
        (readBinaryData lib c.info_hash)).bind asTorrentCheckpoint = some c' ∧ SameState c c' := by
  constructor
  · intro h
    obtain ⟨peer_info, hpeer⟩ := (image_optional_strDict_iff keepsCommon_msgpack).mpr h.peer_info
    have hreturns : BinaryReturns lib config c peer_info :=
      ⟨h.toBinarySaves, h.readable, h.sorted, h.in_range, hpeer⟩
    exact ⟨(binaryData_iff _).mpr h.toBinarySaves, _, readBinary_of_returns hreturns, rfl, rfl, rfl,
      h.resume_data.symm⟩
  · rintro ⟨hwritten, c', hread, hsame⟩
    obtain ⟨h, -, -, hresume, -⟩ :=
      returns_of_readBinary ((binaryData_iff _).mp hwritten) hread hsame.verified_pieces
    exact ⟨h.toBinarySaves, h.readable, h.sorted, h.in_range,
      (image_optional_strDict_iff keepsCommon_msgpack).mp ⟨_, h.peer_info⟩,
      hsame.resume_data.symm.trans hresume⟩

end Checkpoint

end Ccbt

import Ccbt.Storage.Checkpoint.Fields

/-!
# Which checkpoints survive JSON

A checkpoint of the version 1.0 comes back from JSON if no file has a SHA-1, and if what is in it of
type `Any` is made of what JSON has: no octets (those of `resume_data` apart that are converted), no
tuples, and no keys but strings.
-/

namespace Ccbt

open Python

namespace Checkpoint

/-- A value that JSON gives back as it is. -/
abbrev JsonPlain (repr : PyFloat → Str) : Value → Prop := Value.Plain jsonLeaf (jsonKey repr)

/-- An entry of `resume_data` that comes back: octets under the two names that are converted, a
string that is not taken for converted octets, or what is plain. -/
def EntrySurvives (repr : PyFloat → Str) : DictKey → Value → Prop
  | .str name, .bytes _ => name = "info_hash".toList ∨ name = "piece_completion_bitmap".toList
  | .str name, .str s =>
    (name = "info_hash".toList → fromHex s = none) ∧
      (name = "piece_completion_bitmap".toList → b64decode s = none)
  | _, v => JsonPlain repr v

/-- The entries all come back. -/
def ResumeSurvives (repr : PyFloat → Str) : Value → Prop
  | .dict entries => ∀ e ∈ entries, EntrySurvives repr e.1 e.2
  | _ => False

/-- What a checkpoint must be like to come back from JSON. -/
structure JsonSurvives (repr : PyFloat → Str) (c : TorrentCheckpoint) : Prop where
  version : c.version = "1.0".toList
  file_sha1 : ∀ file ∈ c.files, file.file_sha1 = none
  peer_info : ∀ d, c.peer_info = some d → JsonPlain repr d.val
  resume_data : ∀ d, c.resume_data = some d → ResumeSurvives repr d.val
  file_selections : ∀ d, c.file_selections = some d → ∀ e ∈ d.entries, JsonPlain repr e.2.val

variable {repr : PyFloat → Str}

section Resume

/-- Only a string becomes a string. -/
theorem image_ne_str {v w : Value} (h : Value.image jsonLeaf (jsonKey repr) v = some w)
    (hv : ∀ s, v ≠ .str s) (s : Str) : w ≠ .str s := by
  rintro rfl
  cases v with
  | str s' => exact hv s' rfl
  | list items => simp [Value.image] at h
  | tuple items => simp [Value.image] at h
  | dict entries => simp [Value.image] at h
  | _ => simp [Value.image, jsonLeaf] at h

theorem resumeOfText_of_ne_str {k : DictKey} {w : Value} (h : ∀ s, w ≠ .str s) :
    resumeOfText k w = w := by
  cases w with
  | str s => exact absurd rfl (h s)
  | _ => cases k <;> rfl

theorem resumeToText_of_ne_bytes {k : DictKey} {v : Value} (h : ∀ b, v ≠ .bytes b) :
    resumeToText k v = v := by
  cases v with
  | bytes b => exact absurd rfl (h b)
  | _ => cases k <;> rfl

/-- The entries that come back are those that survive. -/
theorem entrySurvives_iff {name : Str} {v : Value} : EntrySurvives repr (.str name) v ↔
    ∃ w, Value.image jsonLeaf (jsonKey repr) (resumeToText (.str name) v) = some w ∧
      resumeOfText (.str name) w = v := by
  have hother : (∀ b, v ≠ .bytes b) → (∀ s, v ≠ .str s) →
      (JsonPlain repr v ↔ ∃ w, Value.image jsonLeaf (jsonKey repr) (resumeToText (.str name) v) =
        some w ∧ resumeOfText (.str name) w = v) := by
    intro hbytes hstr
    rw [resumeToText_of_ne_bytes hbytes, JsonPlain, ← Value.image_eq_self_iff]
    constructor
    · exact fun h => ⟨v, h, resumeOfText_of_ne_str hstr⟩
    · rintro ⟨w, hw, hback⟩
      rw [resumeOfText_of_ne_str (image_ne_str hw hstr)] at hback
      rw [hw, hback]
  cases v with
  | bytes b =>
    rw [EntrySurvives, resumeToText]
    by_cases hhash : name = "info_hash".toList
    · rw [if_pos hhash]
      refine iff_of_true (.inl hhash) ⟨.str (hexText b), rfl, ?_⟩
      rw [resumeOfText, if_pos hhash, fromHex_hexText]
    · rw [if_neg hhash]
      by_cases hmap : name = "piece_completion_bitmap".toList
      · rw [if_pos hmap]
        refine iff_of_true (.inr hmap) ⟨.str (b64encode b), rfl, ?_⟩
        rw [resumeOfText, if_neg hhash, if_pos hmap, b64decode_b64encode]
      · rw [if_neg hmap]
        refine iff_of_false (fun h => h.elim hhash hmap) ?_
        rintro ⟨w, hw, -⟩
        cases hw
  | str s =>
    have himage : Value.image jsonLeaf (jsonKey repr) (resumeToText (.str name) (.str s)) =
        some (.str s) := rfl
    rw [himage, EntrySurvives]
    simp only [Option.some.injEq, exists_eq_left']
    rw [resumeOfText]
    by_cases hhash : name = "info_hash".toList
    · have hmap : name ≠ "piece_completion_bitmap".toList := by
        rw [hhash]
        decide +kernel
      rw [if_pos hhash]
      cases fromHex s with
      | none => exact iff_of_true ⟨fun _ => rfl, fun h => absurd h hmap⟩ rfl
      | some b => exact iff_of_false (fun h => by cases h.1 hhash) fun h => by cases h
    · rw [if_neg hhash]
      by_cases hmap : name = "piece_completion_bitmap".toList
      · rw [if_pos hmap]
        cases b64decode s with
        | none => exact iff_of_true ⟨fun h => absurd h hhash, fun _ => rfl⟩ rfl
        | some b => exact iff_of_false (fun h => by cases h.2 hmap) fun h => by cases h
      · rw [if_neg hmap]
        exact iff_of_true ⟨fun h => absurd h hhash, fun h => absurd h hmap⟩ rfl
  | none | bool | int | float | list | tuple | dict | other =>
    exact hother (fun _ h => by cases h) fun _ h => by cases h

theorem entriesSurvive_iff {entries : List (DictKey × Value)}
    (hkeys : ∀ e ∈ entries, ∃ s, e.1 = .str s) :
    (∀ e ∈ entries, EntrySurvives repr e.1 e.2) ↔
      ∃ es, Value.entryImages jsonLeaf (jsonKey repr)
          (entries.map fun e => (e.1, resumeToText e.1 e.2)) = some es ∧
        (es.map fun e => (e.1, resumeOfText e.1 e.2)) = entries := by
  induction entries with
  | nil => exact iff_of_true (fun _ he => absurd he List.not_mem_nil) ⟨[], rfl, rfl⟩
  | cons e entries ih =>
    obtain ⟨k, v⟩ := e
    obtain ⟨name, hname⟩ := hkeys (k, v) List.mem_cons_self
    obtain rfl : k = .str name := hname
    rw [List.forall_mem_cons, ih fun e he => hkeys e (List.mem_cons_of_mem _ he),
      entrySurvives_iff, List.map_cons]
    constructor
    · rintro ⟨⟨w, hw, hback⟩, es, hes, hentries⟩
      refine ⟨(.str name, w) :: es, ?_, ?_⟩
      · exact Value.entryImages_cons_eq_some_iff.mpr ⟨_, w, es, rfl, hw, hes, rfl⟩
      · rw [List.map_cons, hentries, hback]
    · rintro ⟨es, hes, hentries⟩
      obtain ⟨k', w, es', hk, hw, hes', rfl⟩ := Value.entryImages_cons_eq_some_iff.mp hes
      obtain rfl : .str name = k' := Option.some.inj hk
      rw [List.map_cons, List.cons.injEq, Prod.mk.injEq] at hentries
      exact ⟨⟨w, hw, hentries.1.2⟩, es', hes', hentries.2⟩

/-- `resume_data` comes back if and only if all its entries do. -/
theorem resumeSurvives_iff (d : StrDict) : ResumeSurvives repr d.val ↔
    ∃ w, Value.image jsonLeaf (jsonKey repr) (convertEntries resumeToText d.val) = some w ∧
      convertEntries resumeOfText w = d.val := by
  obtain ⟨entries, hentries, hkeys, hnodup⟩ := isStrDict_iff.mp d.property
  rw [hentries, ResumeSurvives, entriesSurvive_iff hkeys, convertEntries, Value.image]
  have hconverted : ∀ e ∈ entries.map fun e => (e.1, resumeToText e.1 e.2), ∃ s, e.1 = .str s := by
    intro e he
    obtain ⟨e', he', rfl⟩ := List.mem_map.mp he
    exact hkeys e' he'
  have hsame : (entries.map fun e => (e.1, resumeToText e.1 e.2)).map Prod.fst =
      entries.map Prod.fst := by
    rw [List.map_map]
    rfl
  have hdict : ∀ es, Value.entryImages jsonLeaf (jsonKey repr)
      (entries.map fun e => (e.1, resumeToText e.1 e.2)) = some es → dictOf es = es := by
    intro es hes
    apply dictOf_eq_self
    rw [keys_entryImages (keepsCommon_json repr) hconverted hes, hsame]
    exact hnodup
  constructor
  · rintro ⟨es, hes, hback⟩
    refine ⟨.dict es, ?_, ?_⟩
    · rw [hes, Option.map_some, hdict es hes]
    · rw [convertEntries, hback]
  · rintro ⟨w, hw, hback⟩
    obtain ⟨es, hes, rfl⟩ := Option.map_eq_some_iff.mp hw
    rw [hdict es hes, convertEntries] at hback
    exact ⟨es, hes, Value.dict.inj hback⟩

end Resume

section Selections

/-- The selections of files as `model_dump` gives them. -/
def dumpSelections (d : Dict Int StrDict) : Value :=
  .dict (d.entries.map fun e => (.int e.1, e.2.val))

/-- The keys become strings and are read again; what is left are the values. -/
theorem selections_entries {entries : List (Int × StrDict)} {es : List (DictKey × Value)}
    (hes : Value.entryImages jsonLeaf (jsonKey repr)
      (entries.map fun e => (.int e.1, e.2.val)) = some es) :
    (es.map Prod.fst = entries.map fun e => .str (strInt e.1)) ∧
      ∀ l, (es.mapM fun e => (asIntKey e.1).bind fun k => (asStrDict e.2).map fun v => (k, v)) =
        some l → l.map Prod.fst = entries.map Prod.fst ∧
          (l = entries → ∀ e ∈ entries, JsonPlain repr e.2.val) := by
  induction entries generalizing es with
  | nil =>
    cases hes
    refine ⟨rfl, fun l hl => ?_⟩
    cases hl
    exact ⟨rfl, fun _ _ he => absurd he List.not_mem_nil⟩
  | cons e entries ih =>
    obtain ⟨k', v', es', hk, hv, hes', rfl⟩ := Value.entryImages_cons_eq_some_iff.mp hes
    obtain rfl : .str (strInt e.1) = k' := Option.some.inj hk
    obtain ⟨hkeys, hrest⟩ := ih hes'
    refine ⟨?_, fun l hl => ?_⟩
    · rw [List.map_cons, List.map_cons, hkeys]
    · rw [List.mapM_cons] at hl
      obtain ⟨pair, hpair, hl⟩ := Option.bind_eq_some_iff.mp hl
      obtain ⟨l', hl', hl⟩ := Option.bind_eq_some_iff.mp hl
      obtain rfl : pair :: l' = l := Option.some.inj hl
      obtain ⟨k, hk', hpair⟩ := Option.bind_eq_some_iff.mp hpair
      obtain ⟨d, hd, rfl⟩ := Option.map_eq_some_iff.mp hpair
      obtain rfl : e.1 = k := Option.some.inj ((parseInt_strInt e.1).symm.trans hk')
      obtain ⟨hfst, hplain⟩ := hrest l' hl'
      refine ⟨by rw [List.map_cons, List.map_cons, hfst], fun heq => ?_⟩
      obtain ⟨hhead, htail⟩ := List.cons.inj heq
      rw [List.forall_mem_cons]
      refine ⟨?_, hplain htail⟩
      have hread' : v' = d.val := asStrDict_eq_some_iff.mp hd
      have hval : d.val = e.2.val := congrArg (fun p : Int × StrDict => p.2.val) hhead
      rw [JsonPlain, ← Value.image_eq_self_iff, hv, hread', hval]

/-- The selections come back if and only if their values are plain. -/
theorem selectionsSurvive_iff (d : Dict Int StrDict) :
    (∀ e ∈ d.entries, JsonPlain repr e.2.val) ↔
      ∃ w, Value.image jsonLeaf (jsonKey repr) (dumpSelections d) = some w ∧
        asIntDict asStrDict w = some d := by
  have hname : ∀ k, asIntKey (.str (strInt k)) = some k := parseInt_strInt
  constructor
  · intro hplain
    refine ⟨.dict (d.entries.map fun e => (.str (strInt e.1), e.2.val)), ?_, ?_⟩
    · have hkeys : ∀ e ∈ d.entries, jsonKey repr (.int e.1) = some (.str (strInt e.1)) :=
        fun _ _ => rfl
      have hvalues : ∀ e ∈ d.entries,
          Value.image jsonLeaf (jsonKey repr) e.2.val = some e.2.val :=
        fun e he => (Value.image_eq_self_iff _).mpr (hplain e he)
      rw [dumpSelections, Value.image, Value.entryImages_map hkeys hvalues, Option.map_some,
        dictOf_eq_self (nodup_keys_strInt d Subtype.val)]
    · exact asIntDict_map asStrDict Subtype.val d hname fun x => asStrDict_eq_some_iff.mpr rfl
  · rintro ⟨w, hw, hback⟩
    rw [dumpSelections, Value.image] at hw
    obtain ⟨es, hes, rfl⟩ := Option.map_eq_some_iff.mp hw
    obtain ⟨hkeys, hread⟩ := selections_entries hes
    have hdict : dictOf es = es := by
      apply dictOf_eq_self
      rw [hkeys]
      have hnodup := d.nodup_keys.map fun _ _ h => strInt_injective (DictKey.str.inj h)
      rwa [List.map_map] at hnodup
    rw [hdict, asIntDict] at hback
    obtain ⟨l, hl, hlast⟩ := Option.map_eq_some_iff.mp hback
    obtain ⟨hfst, hplain⟩ := hread l hl
    refine hplain ?_
    have hself : dictOf l = l := dictOf_eq_self (hfst ▸ d.nodup_keys)
    rw [← hself]
    exact congrArg Dict.entries hlast

end Selections

section Checkpoints

/-- The checkpoint is read again as it is, but for what its `peer_info` and `file_selections` have
become. -/
structure JsonReturns (repr : PyFloat → Str) (c : TorrentCheckpoint)
    (peer_info : Option StrDict) (file_selections : Option (Dict Int StrDict)) : Prop where
  version : c.version = "1.0".toList
  file_sha1 : ∀ file ∈ c.files, file.file_sha1 = none
  resume_data : ∀ d, c.resume_data = some d → ResumeSurvives repr d.val
  peer_info : jsonImage repr (optional Subtype.val c.peer_info) =
    some (optional Subtype.val peer_info)
  file_selections : ∃ w, jsonImage repr (optional dumpSelections c.file_selections) = some w ∧
    asOptional (asIntDict asStrDict) w = some file_selections

variable {lib : Libraries} {c : TorrentCheckpoint}

theorem checkpointOfJson_record_eq_some_iff {g : CheckpointField → Value} :
    checkpointOfJson (.record g) = some c ↔ ∃ info_hash,
      (asStr (g .info_hash)).bind fromHex = some info_hash ∧ g .version = .str "1.0".toList ∧
        Describes (convertedFields g info_hash) c := by
  have hget :
      (fun field : CheckpointField => ((Value.record g).get? field.name).getD .none) = g := by
    funext field
    have hfield : (Value.record g).get? field.name = some (g field) := Value.get?_record g field
    rw [hfield, Option.getD_some]
  rw [checkpointOfJson, hget, Option.bind_eq_some_iff]
  refine exists_congr fun info_hash => and_congr_right fun _ => ?_
  rw [← asStr_eq_some_iff, ← asTorrentCheckpoint_eq_some_iff]
  split
  · next hversion => exact (and_iff_right hversion).symm
  · next hversion => exact iff_of_false (fun h => by cases h) fun h => hversion h.1

/-- A checkpoint is dumped if JSON has what is in it, and then it is read from the image of each of
its fields. -/
theorem loads_dump_iff {c' : TorrentCheckpoint} :
    ((lib.dump (.record (jsonDict c))).2 = true ∧
      (lib.loads (lib.dump (.record (jsonDict c))).1).bind checkpointOfJson = some c') ↔
    ∃ g : CheckpointField → Value,
      (∀ k, Value.image jsonLeaf (jsonKey lib.repr) (jsonDict c k) = some (g k)) ∧
        g .version = .str "1.0".toList ∧ Describes (convertedFields g c.info_hash) c' := by
  have hkey : ∀ s, jsonKey lib.repr (.str s) = some (.str s) := fun _ => rfl
  have hhash : (asStr (.str (hexText c.info_hash))).bind fromHex = some c.info_hash :=
    fromHex_hexText c.info_hash
  cases himage : jsonImage lib.repr (.record (jsonDict c)) with
  | none =>
    obtain ⟨hrefused, -⟩ := lib.dump_refused _ himage
    constructor
    · rintro ⟨haccepted, -⟩
      exact absurd (hrefused.symm.trans haccepted) Bool.false_ne_true
    · rintro ⟨g, hg, -⟩
      rw [jsonImage, Value.image_record hkey hg] at himage
      cases himage
  | some v =>
    obtain ⟨haccepted, hloads, -⟩ := lib.dump_accepted _ v himage
    have hread : (lib.loads (lib.dump (.record (jsonDict c))).1).bind checkpointOfJson =
        checkpointOfJson v := by
      rw [show lib.loads (lib.dump (.record (jsonDict c))).1 = some v from hloads]
      rfl
    obtain ⟨g, hg, rfl⟩ := (Value.image_record_eq_some_iff hkey).mp himage
    have hginfo : g .info_hash = .str (hexText c.info_hash) :=
      (Option.some.inj (hg .info_hash)).symm
    rw [hread, checkpointOfJson_record_eq_some_iff]
    constructor
    · rintro ⟨-, info_hash, hinfo, hversion, hdescribes⟩
      rw [hginfo, hhash] at hinfo
      obtain rfl := Option.some.inj hinfo
      exact ⟨g, hg, hversion, hdescribes⟩
    · rintro ⟨g', hg', hversion, hdescribes⟩
      obtain rfl : g = g' := by
        funext k
        exact Option.some.inj ((hg k).symm.trans (hg' k))
      exact ⟨haccepted, c.info_hash, by rw [hginfo, hhash], hversion, hdescribes⟩

/-- What is read from the text of a checkpoint that JSON has. -/
theorem loads_of_returns {peer_info : Option StrDict}
    {file_selections : Option (Dict Int StrDict)}
    (h : JsonReturns lib.repr c peer_info file_selections) :
    (lib.dump (.record (jsonDict c))).2 = true ∧
      (lib.loads (lib.dump (.record (jsonDict c))).1).bind checkpointOfJson =
        some { c with peer_info := peer_info, file_selections := file_selections } := by
  have hcommon := keepsCommon_json lib.repr
  rw [loads_dump_iff]
  have hgood : ∀ k : CheckpointField, ∃ w,
      Value.image jsonLeaf (jsonKey lib.repr) (jsonDict c k) = some w ∧
        match k with
        | .peer_info => w = optional Subtype.val peer_info
        | .resume_data => convertEntries resumeOfText w = optional Subtype.val c.resume_data
        | .file_selections => asOptional (asIntDict asStrDict) w = some file_selections
        | k => w = jsonDict c k := by
    intro k
    cases k with
    | verified_pieces => exact ⟨_, image_list fun _ _ => rfl, rfl⟩
    | piece_states => exact ⟨_, image_pieceStates hcommon c, rfl⟩
    | download_stats => exact ⟨_, image_downloadStats hcommon c.download_stats, rfl⟩
    | files =>
      refine ⟨_, image_list fun file hfile => image_fileCheckpoint hcommon fun b hb => ?_, rfl⟩
      rw [h.file_sha1 file hfile] at hb
      cases hb
    | peer_info => exact ⟨_, h.peer_info, rfl⟩
    | torrent_file_path => exact ⟨_, image_optional hcommon fun _ _ => rfl, rfl⟩
    | magnet_uri => exact ⟨_, image_optional hcommon fun _ _ => rfl, rfl⟩
    | announce_urls => exact ⟨_, image_list fun _ _ => rfl, rfl⟩
    | display_name => exact ⟨_, image_optional hcommon fun _ _ => rfl, rfl⟩
    | resume_data =>
      cases hresume : c.resume_data with
      | none =>
        refine ⟨.none, ?_, rfl⟩
        rw [jsonDict, TorrentCheckpoint.modelDump, hresume]
        rfl
      | some d =>
        obtain ⟨w, hw, hback⟩ := (resumeSurvives_iff d).mp (h.resume_data d hresume)
        refine ⟨w, ?_, hback⟩
        rw [jsonDict, TorrentCheckpoint.modelDump, hresume]
        exact hw
    | file_selections =>
      obtain ⟨w, hw, hback⟩ := h.file_selections
      exact ⟨w, hw, hback⟩
    | _ => exact ⟨_, rfl, rfl⟩
  choose g hg using hgood
  refine ⟨g, fun k => (hg k).1, ?_, ?_⟩
  · have hgversion : g .version = .str c.version := (hg .version).2
    rw [hgversion, h.version]
  · constructor
    · exact (hg .version).2
    · rfl
    · exact (hg .torrent_name).2
    · exact congrArg asFloat (hg .created_at).2
    · exact congrArg asFloat (hg .updated_at).2
    · exact (hg .total_pieces).2
    · exact (hg .piece_length).2
    · exact (hg .total_length).2
    · exact (hg .verified_pieces).2
    · exact (congrArg _ (hg .piece_states).2).trans (asPieceStates c)
    · exact (congrArg _ (hg .download_stats).2).trans (asDownloadStats_modelDump _)
    · exact (hg .output_dir).2
    · exact (congrArg _ (hg .files).2).trans
        (asList_map c.files fun file _ => asFileCheckpoint_modelDump file)
    · exact (hg .peer_info).2
    · exact (hg .endgame_mode).2
    · exact (hg .torrent_file_path).2
    · exact (hg .magnet_uri).2
    · exact (hg .announce_urls).2
    · exact (hg .display_name).2
    · exact (hg .resume_data).2
    · exact (hg .file_selections).2

/-- Only a checkpoint that JSON has is read from its text with its `resume_data`. -/
theorem returns_of_loads {c' : TorrentCheckpoint}
    (hdumped : (lib.dump (.record (jsonDict c))).2 = true)
    (hread : (lib.loads (lib.dump (.record (jsonDict c))).1).bind checkpointOfJson = some c')
    (hresume : c'.resume_data = c.resume_data) :
    JsonReturns lib.repr c c'.peer_info c'.file_selections := by
  have hcommon := keepsCommon_json lib.repr
  obtain ⟨g, hg, hversion, hdescribes⟩ := loads_dump_iff.mp ⟨hdumped, hread⟩
  refine ⟨?_, fun file hfile => ?_, fun d hd => ?_, ?_, g .file_selections, hg .file_selections,
    hdescribes.file_selections⟩
  · have hgversion : g .version = .str c.version := (Option.some.inj (hg .version)).symm
    exact Value.str.inj (hgversion.symm.trans hversion)
  · have hfiles : Value.image jsonLeaf (jsonKey lib.repr)
      (.list (c.files.map FileCheckpoint.modelDump)) = some (g .files) := hg .files
    cases hfileImage : Value.image jsonLeaf (jsonKey lib.repr) file.modelDump with
    | none =>
      rw [Value.image, Value.images_map_eq_none hfile hfileImage] at hfiles
      cases hfiles
    | some v =>
      obtain ⟨g', hg', -⟩ := (Value.image_record_eq_some_iff hcommon.key).mp hfileImage
      have hsha1 : Value.image jsonLeaf (jsonKey lib.repr) (optional .bytes file.file_sha1) =
        some (g' .file_sha1) := hg' .file_sha1
      cases hb : file.file_sha1 with
      | none => rfl
      | some b =>
        rw [hb] at hsha1
        cases hsha1
  · have hresumeImage : Value.image jsonLeaf (jsonKey lib.repr)
      (convertEntries resumeToText (optional Subtype.val c.resume_data)) =
        some (g .resume_data) := hg .resume_data
    have hback : convertEntries resumeOfText (g .resume_data) =
      optional Subtype.val c'.resume_data := hdescribes.resume_data
    rw [hresume] at hback
    rw [hd] at hresumeImage hback
    exact (resumeSurvives_iff d).mpr ⟨g .resume_data, hresumeImage, hback⟩
  · have hpeer : Value.image jsonLeaf (jsonKey lib.repr) (optional Subtype.val c.peer_info) =
      some (g .peer_info) := hg .peer_info
    have hback : g .peer_info = optional Subtype.val c'.peer_info := hdescribes.peer_info
    rw [← hback]
    exact hpeer

/-- A checkpoint is dumped and read again as it is, if and only if it survives JSON. -/
theorem jsonSurvives_iff : JsonSurvives lib.repr c ↔
    (lib.dump (.record (jsonDict c))).2 = true ∧
      (lib.loads (lib.dump (.record (jsonDict c))).1).bind checkpointOfJson = some c := by
  have hcommon := keepsCommon_json lib.repr
  constructor
  · intro h
    apply loads_of_returns
    refine ⟨h.version, h.file_sha1, h.resume_data, ?_, ?_⟩
    · exact image_optional hcommon fun d hd => (Value.image_eq_self_iff _).mpr (h.peer_info d hd)
    · cases hselections : c.file_selections with
      | none => exact ⟨.none, rfl, rfl⟩
      | some d =>
        obtain ⟨w, hw, hback⟩ := (selectionsSurvive_iff d).mp (h.file_selections d hselections)
        refine ⟨w, hw, ?_⟩
        cases w with
        | dict entries => exact congrArg (Option.map some) hback
        | _ => cases hback
  · rintro ⟨hdumped, hread⟩
    have h := returns_of_loads hdumped hread rfl
    refine ⟨h.version, h.file_sha1, fun d hd => ?_, h.resume_data, fun d hd => ?_⟩
    · have hpeer := h.peer_info
      rw [hd] at hpeer
      exact (Value.image_eq_self_iff _).mp hpeer
    · obtain ⟨w, hw, hback⟩ := h.file_selections
      rw [hd] at hw hback
      refine (selectionsSurvive_iff d).mpr ⟨w, hw, ?_⟩
      obtain ⟨es, -, rfl⟩ := Option.map_eq_some_iff.mp hw
      obtain ⟨d', hd', heq⟩ := Option.map_eq_some_iff.mp hback
      rw [hd', Option.some.inj heq]

end Checkpoints

end Checkpoint

end Ccbt

import Ccbt.Storage.Checkpoint.Formats

/-!
# The fields of a checkpoint

When a dictionary describes a checkpoint (`asTorrentCheckpoint_eq_some_iff`), and what becomes of
the dumps of its fields: those with types of their own come back as they are from a serialiser that
takes over the common atoms.
-/

namespace Ccbt

open Python

namespace Checkpoint

section Validators

variable {α : Type} {v : Value}

theorem asStr_eq_some_iff {s : Str} : asStr v = some s ↔ v = .str s := by
  cases v <;> simp [asStr]

theorem asInt_eq_some_iff {n : Int} : asInt v = some n ↔ v = .int n := by
  cases v <;> simp [asInt]

theorem asNat_eq_some_iff {n : Nat} : asNat v = some n ↔ v = .int n := by
  cases v with
  | int m =>
    rw [asNat]
    split
    · next hm =>
      rw [Option.some.injEq, Value.int.injEq]
      omega
    · next hm =>
      refine iff_of_false (fun h => by cases h) fun h => ?_
      have hmn := Value.int.inj h
      omega
  | _ => simp [asNat]

theorem asBool_eq_some_iff {b : Bool} : asBool v = some b ↔ v = .bool b := by
  cases v <;> simp [asBool]

theorem asBytes_eq_some_iff {b : Bytes} : asBytes v = some b ↔ v = .bytes b := by
  cases v <;> simp [asBytes]

theorem asStrDict_eq_some_iff {d : StrDict} : asStrDict v = some d ↔ v = d.val := by
  rw [asStrDict]
  split
  · rw [Option.some.injEq, Subtype.ext_iff]
  · next hv => exact iff_of_false (fun h => by cases h) fun h => hv (h ▸ d.property)

/-- A field that may be missing. -/
theorem asOptional_eq_some_iff {validate : Value → Option α} {dump : α → Value} {x : Option α}
    (h : ∀ v x, validate v = some x ↔ v = dump x) (hnone : ∀ x, dump x ≠ .none) :
    asOptional validate v = some x ↔ v = optional dump x := by
  rw [asOptional.eq_def]
  split
  · cases x with
    | none => exact iff_of_true rfl rfl
    | some x =>
      exact iff_of_false (fun h => by cases h) fun h => hnone x h.symm
  · next hv =>
    cases x with
    | none => exact iff_of_false (by simp) hv
    | some x => simp [optional, h]

theorem mapM_eq_some_iff {validate : Value → Option α} {dump : α → Value} {items : List Value}
    {l : List α} (h : ∀ v x, validate v = some x ↔ v = dump x) :
    items.mapM validate = some l ↔ items = l.map dump := by
  induction items generalizing l with
  | nil => cases l <;> simp
  | cons v items ih =>
    rw [List.mapM_cons]
    cases l with
    | nil => simp [Option.bind_eq_some_iff]
    | cons x l => simp [Option.bind_eq_some_iff, ih, h]

theorem asList_eq_some_iff {validate : Value → Option α} {dump : α → Value} {l : List α}
    (h : ∀ v x, validate v = some x ↔ v = dump x) :
    asList validate v = some l ↔ v = .list (l.map dump) := by
  cases v with
  | list items => simp [asList, mapM_eq_some_iff h]
  | _ => simp [asList]

/-- A list of what is read one by one. -/
theorem asList_map {validate : Value → Option α} {dump : α → Value} (l : List α)
    (h : ∀ x ∈ l, validate (dump x) = some x) : asList validate (.list (l.map dump)) = some l := by
  rw [asList]
  induction l with
  | nil => rfl
  | cons x l ih =>
    rw [List.map_cons, List.mapM_cons, h x List.mem_cons_self,
      ih fun y hy => h y (List.mem_cons_of_mem x hy)]
    rfl

theorem asFloat_float (x : PyFloat) : asFloat (.float x) = some x := rfl

theorem asFloat_natCast (n : Nat) : asFloat (.int n) = some (.finite n) := by
  rw [asFloat, Int.cast_natCast]

end Validators

/-- The dictionary describes the checkpoint. -/
structure Describes (d : CheckpointField → Value) (c : TorrentCheckpoint) : Prop where
  version : d .version = .str c.version
  info_hash : d .info_hash = .bytes c.info_hash
  torrent_name : d .torrent_name = .str c.torrent_name
  created_at : asFloat (d .created_at) = some c.created_at
  updated_at : asFloat (d .updated_at) = some c.updated_at
  total_pieces : d .total_pieces = .int c.total_pieces
  piece_length : d .piece_length = .int c.piece_length
  total_length : d .total_length = .int c.total_length
  verified_pieces : d .verified_pieces = .list (c.verified_pieces.map .int)
  piece_states : asIntDict (fun v => (asStr v).bind PieceState.ofValue) (d .piece_states) =
    some c.piece_states
  download_stats : asDownloadStats (d .download_stats) = some c.download_stats
  output_dir : d .output_dir = .str c.output_dir
  files : asList asFileCheckpoint (d .files) = some c.files
  peer_info : d .peer_info = optional Subtype.val c.peer_info
  endgame_mode : d .endgame_mode = .bool c.endgame_mode
  torrent_file_path : d .torrent_file_path = optional .str c.torrent_file_path
  magnet_uri : d .magnet_uri = optional .str c.magnet_uri
  announce_urls : d .announce_urls = .list (c.announce_urls.map .str)
  display_name : d .display_name = optional .str c.display_name
  resume_data : d .resume_data = optional Subtype.val c.resume_data
  file_selections : asOptional (asIntDict asStrDict) (d .file_selections) = some c.file_selections

theorem isStrDict_iff {v : Value} : isStrDict v = true ↔ ∃ entries, v = .dict entries ∧
    (∀ e ∈ entries, ∃ s, e.1 = .str s) ∧ (entries.map Prod.fst).Nodup := by
  cases v with
  | dict entries =>
    rw [isStrDict, Bool.and_eq_true, List.all_eq_true, decide_eq_true_eq]
    constructor
    · rintro ⟨hkeys, hnodup⟩
      refine ⟨entries, rfl, fun e he => ?_, hnodup⟩
      have hkey := hkeys e he
      cases hk : e.1 with
      | str s => exact ⟨s, rfl⟩
      | _ =>
        rw [hk] at hkey
        cases hkey
    · rintro ⟨entries', heq, hkeys, hnodup⟩
      obtain rfl := Value.dict.inj heq
      refine ⟨fun e he => ?_, hnodup⟩
      obtain ⟨s, hs⟩ := hkeys e he
      rw [hs]
  | _ => simp [isStrDict]

theorem strDict_ne_none (d : StrDict) : d.val ≠ .none := by
  intro h
  have hdict := d.property
  rw [h] at hdict
  exact Bool.false_ne_true hdict

theorem asOptional_asStr_iff {v : Value} {s : Option Str} :
    asOptional asStr v = some s ↔ v = optional .str s :=
  asOptional_eq_some_iff (fun _ _ => asStr_eq_some_iff) fun _ h => by cases h

theorem asOptional_asStrDict_iff {v : Value} {d : Option StrDict} :
    asOptional asStrDict v = some d ↔ v = optional Subtype.val d :=
  asOptional_eq_some_iff (fun _ _ => asStrDict_eq_some_iff) strDict_ne_none

/-- The constructor gives the checkpoint that the dictionary describes. -/
theorem asTorrentCheckpoint_eq_some_iff {d : CheckpointField → Value} {c : TorrentCheckpoint} :
    asTorrentCheckpoint d = some c ↔ Describes d c := by
  constructor
  · intro h
    rw [asTorrentCheckpoint] at h
    obtain ⟨version, hversion, h⟩ := Option.bind_eq_some_iff.mp h
    obtain ⟨info_hash, hinfo_hash, h⟩ := Option.bind_eq_some_iff.mp h
    obtain ⟨torrent_name, htorrent_name, h⟩ := Option.bind_eq_some_iff.mp h
    obtain ⟨created_at, hcreated_at, h⟩ := Option.bind_eq_some_iff.mp h
    obtain ⟨updated_at, hupdated_at, h⟩ := Option.bind_eq_some_iff.mp h
    obtain ⟨total_pieces, htotal_pieces, h⟩ := Option.bind_eq_some_iff.mp h
    obtain ⟨piece_length, hpiece_length, h⟩ := Option.bind_eq_some_iff.mp h
    obtain ⟨total_length, htotal_length, h⟩ := Option.bind_eq_some_iff.mp h
    obtain ⟨verified_pieces, hverified_pieces, h⟩ := Option.bind_eq_some_iff.mp h
    obtain ⟨piece_states, hpiece_states, h⟩ := Option.bind_eq_some_iff.mp h
    obtain ⟨download_stats, hdownload_stats, h⟩ := Option.bind_eq_some_iff.mp h
    obtain ⟨output_dir, houtput_dir, h⟩ := Option.bind_eq_some_iff.mp h
    obtain ⟨files, hfiles, h⟩ := Option.bind_eq_some_iff.mp h
    obtain ⟨peer_info, hpeer_info, h⟩ := Option.bind_eq_some_iff.mp h
    obtain ⟨endgame_mode, hendgame_mode, h⟩ := Option.bind_eq_some_iff.mp h
    obtain ⟨torrent_file_path, htorrent_file_path, h⟩ := Option.bind_eq_some_iff.mp h
    obtain ⟨magnet_uri, hmagnet_uri, h⟩ := Option.bind_eq_some_iff.mp h
    obtain ⟨announce_urls, hannounce_urls, h⟩ := Option.bind_eq_some_iff.mp h
    obtain ⟨display_name, hdisplay_name, h⟩ := Option.bind_eq_some_iff.mp h
    obtain ⟨resume_data, hresume_data, h⟩ := Option.bind_eq_some_iff.mp h
    obtain ⟨file_selections, hfile_selections, h⟩ := Option.bind_eq_some_iff.mp h
    split at h
    · obtain rfl := Option.some.inj h
      constructor
      · exact asStr_eq_some_iff.mp hversion
      · exact asBytes_eq_some_iff.mp hinfo_hash
      · exact asStr_eq_some_iff.mp htorrent_name
      · exact hcreated_at
      · exact hupdated_at
      · exact asNat_eq_some_iff.mp htotal_pieces
      · exact asNat_eq_some_iff.mp hpiece_length
      · exact asNat_eq_some_iff.mp htotal_length
      · exact (asList_eq_some_iff fun _ _ => asInt_eq_some_iff).mp hverified_pieces
      · exact hpiece_states
      · exact hdownload_stats
      · exact asStr_eq_some_iff.mp houtput_dir
      · exact hfiles
      · exact asOptional_asStrDict_iff.mp hpeer_info
      · exact asBool_eq_some_iff.mp hendgame_mode
      · exact asOptional_asStr_iff.mp htorrent_file_path
      · exact asOptional_asStr_iff.mp hmagnet_uri
      · exact (asList_eq_some_iff fun _ _ => asStr_eq_some_iff).mp hannounce_urls
      · exact asOptional_asStr_iff.mp hdisplay_name
      · exact asOptional_asStrDict_iff.mp hresume_data
      · exact hfile_selections
    · cases h
  · intro h
    have hcheck : c.info_hash.length = 20 ∧ 0 < c.piece_length :=
      ⟨c.info_hash_length, c.piece_length_gt⟩
    rw [asTorrentCheckpoint, asStr_eq_some_iff.mpr h.version, asBytes_eq_some_iff.mpr h.info_hash,
      asStr_eq_some_iff.mpr h.torrent_name, h.created_at, h.updated_at,
      asNat_eq_some_iff.mpr h.total_pieces, asNat_eq_some_iff.mpr h.piece_length,
      asNat_eq_some_iff.mpr h.total_length,
      (asList_eq_some_iff fun _ _ => asInt_eq_some_iff).mpr h.verified_pieces, h.piece_states,
      h.download_stats, asStr_eq_some_iff.mpr h.output_dir, h.files,
      asOptional_asStrDict_iff.mpr h.peer_info, asBool_eq_some_iff.mpr h.endgame_mode,
      asOptional_asStr_iff.mpr h.torrent_file_path, asOptional_asStr_iff.mpr h.magnet_uri,
      (asList_eq_some_iff fun _ _ => asStr_eq_some_iff).mpr h.announce_urls,
      asOptional_asStr_iff.mpr h.display_name, asOptional_asStrDict_iff.mpr h.resume_data,
      h.file_selections]
    exact dif_pos hcheck

section Images

/-- The common atoms are taken over, and a string stays a key. -/
structure KeepsCommon (leaf : Value → Option Value) (key : DictKey → Option DictKey) : Prop where
  none : leaf .none = some .none
  bool : ∀ b, leaf (.bool b) = some (.bool b)
  int : ∀ n, leaf (.int n) = some (.int n)
  float : ∀ x, leaf (.float x) = some (.float x)
  str : ∀ s, leaf (.str s) = some (.str s)
  key : ∀ s, key (.str s) = some (.str s)

theorem keepsCommon_json (repr : PyFloat → Str) : KeepsCommon jsonLeaf (jsonKey repr) :=
  ⟨rfl, fun _ => rfl, fun _ => rfl, fun _ => rfl, fun _ => rfl, fun _ => rfl⟩

theorem keepsCommon_msgpack : KeepsCommon some unpackKey :=
  ⟨rfl, fun _ => rfl, fun _ => rfl, fun _ => rfl, fun _ => rfl, fun _ => rfl⟩

variable {leaf : Value → Option Value} {key : DictKey → Option DictKey} {α : Type}

theorem image_optional (h : KeepsCommon leaf key) {dump : α → Value} {x : Option α}
    (hdump : ∀ y, x = some y → Value.image leaf key (dump y) = some (dump y)) :
    Value.image leaf key (optional dump x) = some (optional dump x) := by
  cases x with
  | none => exact h.none
  | some y => exact hdump y rfl

theorem image_list {dump : α → Value} {l : List α}
    (hdump : ∀ x ∈ l, Value.image leaf key (dump x) = some (dump x)) :
    Value.image leaf key (.list (l.map dump)) = some (.list (l.map dump)) := by
  rw [Value.image, Value.images_map hdump]
  rfl

/-- Strings stay the keys they are. -/
theorem keys_entryImages (h : KeepsCommon leaf key) {entries es : List (DictKey × Value)}
    (hkeys : ∀ e ∈ entries, ∃ s, e.1 = .str s)
    (hes : Value.entryImages leaf key entries = some es) :
    es.map Prod.fst = entries.map Prod.fst := by
  induction entries generalizing es with
  | nil =>
    cases hes
    rfl
  | cons e entries ih =>
    obtain ⟨k, v⟩ := e
    obtain ⟨k', v', es', hk, -, hes', rfl⟩ := Value.entryImages_cons_eq_some_iff.mp hes
    obtain ⟨s, hs⟩ := hkeys (k, v) List.mem_cons_self
    have hk' : k' = k := by
      rw [show k = .str s from hs, h.key] at hk
      rw [show k = .str s from hs]
      exact (Option.some.inj hk).symm
    have hrest := ih (fun e he => hkeys e (List.mem_cons_of_mem _ he)) hes'
    rw [List.map_cons, List.map_cons, hk', hrest]

/-- A dictionary with strings as its keys comes back as one. -/
theorem image_strDict (h : KeepsCommon leaf key) (d : StrDict) {w : Value}
    (hw : Value.image leaf key d.val = some w) : ∃ d' : StrDict, w = d'.val := by
  obtain ⟨entries, hentries, hkeys, hnodup⟩ := isStrDict_iff.mp d.property
  rw [hentries, Value.image] at hw
  obtain ⟨es, hes, rfl⟩ := Option.map_eq_some_iff.mp hw
  have hsame := keys_entryImages h hkeys hes
  have hstr : isStrDict (.dict (dictOf es)) = true := by
    rw [dictOf_eq_self (hsame ▸ hnodup)]
    refine isStrDict_iff.mpr ⟨es, rfl, fun e he => ?_, hsame ▸ hnodup⟩
    have hmem : e.1 ∈ es.map Prod.fst := List.mem_map_of_mem he
    rw [hsame] at hmem
    obtain ⟨e', he', heq⟩ := List.mem_map.mp hmem
    obtain ⟨s, hs⟩ := hkeys e' he'
    exact ⟨s, heq ▸ hs⟩
  exact ⟨⟨_, hstr⟩, rfl⟩

theorem strInt_injective {m n : Int} (h : strInt m = strInt n) : m = n :=
  Option.some.inj (by rw [← parseInt_strInt m, h, parseInt_strInt])

theorem nodup_keys_strInt (d : Dict Int α) (dump : α → Value) :
    ((d.entries.map fun e => (DictKey.str (strInt e.1), dump e.2)).map Prod.fst).Nodup := by
  have hkeys : (d.entries.map fun e => (DictKey.str (strInt e.1), dump e.2)).map Prod.fst =
      (d.entries.map Prod.fst).map fun k => DictKey.str (strInt k) := by
    rw [List.map_map, List.map_map]
    rfl
  rw [hkeys]
  exact d.nodup_keys.map fun _ _ h => strInt_injective (DictKey.str.inj h)

theorem image_pieceStates (h : KeepsCommon leaf key) (c : TorrentCheckpoint) :
    Value.image leaf key c.pieceStates = some c.pieceStates := by
  have hkeys : ∀ e ∈ c.piece_states.entries,
      key (.str (strInt e.1)) = some (.str (strInt e.1)) := fun _ _ => h.key _
  have hvalues : ∀ e ∈ c.piece_states.entries,
      Value.image leaf key (.str e.2.value) = some (.str e.2.value) := fun _ _ => h.str _
  rw [TorrentCheckpoint.pieceStates, Value.image, Value.entryImages_map hkeys hvalues,
    Option.map_some, dictOf_eq_self]
  exact nodup_keys_strInt c.piece_states fun state => .str state.value

theorem image_downloadStats (h : KeepsCommon leaf key) (stats : DownloadStats) :
    Value.image leaf key stats.modelDump = some stats.modelDump := by
  apply Value.image_record h.key
  rintro ⟨⟩
  · exact h.int _
  · exact h.float _
  · exact h.float _
  · exact h.float _
  · exact h.float _

theorem image_fileCheckpoint (h : KeepsCommon leaf key) {file : FileCheckpoint}
    (hsha1 : ∀ b, file.file_sha1 = some b → leaf (.bytes b) = some (.bytes b)) :
    Value.image leaf key file.modelDump = some file.modelDump := by
  apply Value.image_record h.key
  rintro ⟨⟩
  · exact h.str _
  · exact h.int _
  · exact h.bool _
  · exact image_optional h fun s _ => h.str s
  · exact image_optional h fun s _ => h.str s
  · exact image_optional h hsha1

theorem asDownloadStats_modelDump (stats : DownloadStats) :
    asDownloadStats stats.modelDump = some stats := by
  have hget : ∀ k : StatsField, stats.modelDump.get? k.name = some _ := Value.get?_record _
  have hcheck : stats.download_time.isNonneg = true ∧ stats.average_speed.isNonneg = true :=
    ⟨stats.download_time_ge, stats.average_speed_ge⟩
  simp only [asDownloadStats, hget, Option.bind_some, asFloat_float, bind]
  rw [asNat_eq_some_iff.mpr rfl]
  exact dif_pos hcheck

theorem asFileCheckpoint_modelDump (file : FileCheckpoint) :
    asFileCheckpoint file.modelDump = some file := by
  have hget : ∀ k : FileField, file.modelDump.get? k.name = some _ := Value.get?_record _
  have hbytes : asOptional asBytes (optional .bytes file.file_sha1) = some file.file_sha1 :=
    (asOptional_eq_some_iff (fun _ _ => asBytes_eq_some_iff) fun _ h => by cases h).mpr rfl
  simp only [asFileCheckpoint, hget, Option.bind_some, bind]
  rw [asStr_eq_some_iff.mpr rfl, asNat_eq_some_iff.mpr rfl, asBool_eq_some_iff.mpr rfl,
    asOptional_asStr_iff.mpr rfl, asOptional_asStr_iff.mpr rfl, hbytes]
  rfl

/-- A dictionary with integers as its keys is read again, also when they have become strings. -/
theorem asIntDict_map (validate : Value → Option α) (dump : α → Value) {name : Int → DictKey}
    (d : Dict Int α) (hname : ∀ k, asIntKey (name k) = some k)
    (h : ∀ x, validate (dump x) = some x) :
    asIntDict validate (.dict (d.entries.map fun e => (name e.1, dump e.2))) = some d := by
  have hentries : ∀ entries : List (Int × α),
      (entries.map fun e => (name e.1, dump e.2)).mapM (fun e =>
        (asIntKey e.1).bind fun k => (validate e.2).map fun v => (k, v)) = some entries := by
    intro entries
    induction entries with
    | nil => rfl
    | cons e entries ih =>
      rw [List.map_cons, List.mapM_cons, ih, hname, h]
      rfl
  rw [asIntDict, hentries, Option.map_some]
  congr
  exact dictOf_eq_self d.nodup_keys

theorem asPieceStates (c : TorrentCheckpoint) :
    asIntDict (fun v => (asStr v).bind PieceState.ofValue) c.pieceStates = some c.piece_states := by
  have hname : ∀ k, asIntKey (.str (strInt k)) = some k := parseInt_strInt
  exact asIntDict_map (fun v => (asStr v).bind PieceState.ofValue) (fun state => .str state.value)
    c.piece_states hname PieceState.ofValue_value

end Images

end Checkpoint

end Ccbt

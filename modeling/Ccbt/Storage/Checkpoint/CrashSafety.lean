import Ccbt.Crash.FileSteps
import Ccbt.Storage.Checkpoint.CutFiles
import Ccbt.Storage.Checkpoint.NextLoad

/-!
# Saves that are stopped

Both writers replace their file in place: they truncate it, write it part by part, and sync it. A
save may be stopped anywhere. What a load gives then is the old checkpoint as long as the file that
is read has not been truncated, and the new one when all of it is there; in between it is nothing.
-/

namespace Ccbt

open Crash Python

namespace Checkpoint

section Steps

variable (lib : Libraries) (config : DiskConfig)

/-- The text that `json.dump` gets to the file, and whether it has not raised. -/
def jsonText (c : TorrentCheckpoint) (now : Now) : Bytes × Bool :=
  lib.dump (.record (jsonDict { c with updated_at := .finite now.val }))

/-- The writings of `_write_binary` up to the exception, and whether there is none. -/
def binaryWrites (c : TorrentCheckpoint) (now : Now) : List Bytes × Bool :=
  let writes := [MAGIC_BYTES, [1], c.info_hash, littleEndian 8 (seconds now)]
  if c.total_pieces < 2 ^ 32 then
    let writes := writes ++ [littleEndian 4 c.total_pieces]
    match pieceBitfield c with
    | none => (writes, false)
    | some bitfield =>
      let writes := writes ++ [bitfield]
      match lib.packb (metadata c) with
      | none => (writes, false)
      | some metadata_bytes =>
        if metadata_bytes.length < 2 ^ 32 then
          (writes ++ [littleEndian 4 metadata_bytes.length, metadata_bytes], true)
        else (writes, false)
  else (writes, false)

/-- The steps of `_save_json_checkpoint`. How `json.dump` divides the text does not matter, since a
writing may be stopped anywhere. -/
def jsonSteps (c : TorrentCheckpoint) (now : Now) : List ((Bytes × Suffix) × Step UInt8) :=
  replace (c.info_hash, .json) [(jsonText lib c now).1] (jsonText lib c now).2

/-- The steps of `_save_binary_checkpoint`: those of `_write_compressed` or `_write_binary`. -/
def binarySteps (c : TorrentCheckpoint) (now : Now) : List ((Bytes × Suffix) × Step UInt8) :=
  if config.checkpoint_compression then
    replace (c.info_hash, binarySuffix lib config)
      [compressed lib config (binaryData lib c now).1] (binaryData lib c now).2
  else
    replace (c.info_hash, binarySuffix lib config) (binaryWrites lib c now).1
      (binaryWrites lib c now).2

def saveSteps (c : TorrentCheckpoint) (times : Now × Now) :
    CheckpointFormat → List ((Bytes × Suffix) × Step UInt8)
  | .JSON => jsonSteps lib c times.1
  | .BINARY => binarySteps lib config c times.2
  | .BOTH => jsonSteps lib c times.1 ++
    if (jsonText lib c times.1).2 then binarySteps lib config c times.2 else []

/-- A load gives the old checkpoint or the new one. -/
def LoadsOldOrNew (disk : Disk) (old c : TorrentCheckpoint)
    (checkpoint_format : CheckpointFormat) : Prop :=
  ∃ c', loadAs lib config disk c.info_hash checkpoint_format = .checkpoint c' ∧
    (c' = old ∨ Same c c' checkpoint_format)

/-- All of the new content can be had from the file that is read. -/
def Whole (disk : Disk) (c : TorrentCheckpoint) (times : Now × Now) : CheckpointFormat → Prop
  | .BINARY => ∃ content, disk (c.info_hash, binarySuffix lib config) = some content ∧
    uncompressed lib config content = some (binaryData lib c times.2).1
  | _ => disk (c.info_hash, .json) = some (jsonText lib c times.1).1

/-- The format gives back the checkpoint from the file that is read. -/
def ComesBack (c : TorrentCheckpoint) (times : Now × Now) : CheckpointFormat → Prop
  | .BINARY => BinarySurvives lib config c times.2
  | _ => JsonSurvives lib.repr c

/-- What is read from the whole content. -/
def readBack (c : TorrentCheckpoint) (times : Now × Now) :
    CheckpointFormat → Option TorrentCheckpoint
  | .BINARY =>
    (readBinaryData lib c.info_hash (binaryData lib c times.2).1).bind asTorrentCheckpoint
  | _ => (lib.loads (jsonText lib c times.1).1).bind checkpointOfJson

end Steps

variable {lib : Libraries} {config : DiskConfig} {c old : TorrentCheckpoint} {now : Now}
  {times : Now × Now} {disk disk' : Disk} {R : TorrentCheckpoint → Prop} {n : Nat}

section Writers

theorem binaryWrites_eq : (binaryWrites lib c now).1.flatten = (binaryData lib c now).1 ∧
    (binaryWrites lib c now).2 = (binaryData lib c now).2 := by
  rw [binaryWrites, binaryData, binaryHeader]
  split
  · cases pieceBitfield c with
    | none => exact ⟨by simp, rfl⟩
    | some bitfield =>
      cases lib.packb (metadata c) with
      | none => exact ⟨by simp, rfl⟩
      | some metadata_bytes =>
        dsimp only
        split
        · exact ⟨by simp, rfl⟩
        · exact ⟨by simp, rfl⟩
  · exact ⟨by simp, rfl⟩

theorem stopsAt_jsonSteps_iff : StopsAt disk (jsonSteps lib c now) disk' ↔ disk' = disk ∨
    ∃ n, disk' = Function.update disk (c.info_hash, .json)
      (some ((jsonText lib c now).1.take n)) := by
  rw [jsonSteps, stopsAt_replace_iff, List.flatten_singleton]

theorem stopsAt_binarySteps_iff : StopsAt disk (binarySteps lib config c now) disk' ↔
    disk' = disk ∨ ∃ n, disk' = Function.update disk (c.info_hash, binarySuffix lib config)
      (some ((compressed lib config (binaryData lib c now).1).take n)) := by
  rw [binarySteps]
  cases hcompression : config.checkpoint_compression with
  | true => rw [if_pos rfl, stopsAt_replace_iff, List.flatten_singleton]
  | false =>
    have hraw : compressed lib config (binaryData lib c now).1 = (binaryData lib c now).1 := by
      rw [compressed, hcompression]
      rfl
    rw [if_neg Bool.false_ne_true, stopsAt_replace_iff, binaryWrites_eq.1, hraw]

theorem perform_jsonSteps : perform disk (jsonSteps lib c now) =
    (saveJson lib c now .done disk).2 := by
  rw [jsonSteps, perform_replace, List.flatten_singleton, saveJson_done, jsonText]

theorem perform_binarySteps : perform disk (binarySteps lib config c now) =
    (saveBinary lib config c now .done disk).2 := by
  rw [binarySteps, saveBinary_done]
  cases hcompression : config.checkpoint_compression with
  | true => rw [if_pos rfl, perform_replace, List.flatten_singleton]
  | false =>
    rw [if_neg Bool.false_ne_true, perform_replace, binaryWrites_eq.1, compressed, hcompression]
    rfl

/-- The steps of a save that is not stopped do what the save does. -/
theorem perform_saveSteps (checkpoint_format : CheckpointFormat) :
    perform disk (saveSteps lib config c times checkpoint_format) =
      (saveAs lib config c times (.done, .done) disk checkpoint_format).2 := by
  cases checkpoint_format with
  | JSON => exact perform_jsonSteps
  | BINARY => exact perform_binarySteps
  | BOTH =>
    rw [saveSteps, saveAs, perform_append, perform_jsonSteps, saveJson_done, jsonText]
    cases (lib.dump (.record (jsonDict { c with updated_at := .finite times.1.val }))).2 with
    | false => rfl
    | true => exact perform_binarySteps

theorem stopsAt_saveJson (outcome : WriteOutcome) :
    StopsAt disk (jsonSteps lib c now) (saveJson lib c now outcome disk).2 := by
  rw [stopsAt_jsonSteps_iff]
  cases outcome with
  | done =>
    refine .inr ⟨(jsonText lib c now).1.length, ?_⟩
    rw [saveJson_done, List.take_length]
    rfl
  | notOpened => exact .inl rfl
  | stopped n => exact .inr ⟨n, rfl⟩

theorem stopsAt_saveBinary (outcome : WriteOutcome) :
    StopsAt disk (binarySteps lib config c now) (saveBinary lib config c now outcome disk).2 := by
  rw [stopsAt_binarySteps_iff]
  cases outcome with
  | done =>
    refine .inr ⟨(compressed lib config (binaryData lib c now).1).length, ?_⟩
    rw [saveBinary_done, List.take_length]
  | notOpened => exact .inl rfl
  | stopped n => exact .inr ⟨n, rfl⟩

/-- A save with any outcomes is stopped somewhere in its steps. -/
theorem stopsAt_saveAs (outcomes : WriteOutcome × WriteOutcome)
    (checkpoint_format : CheckpointFormat) :
    StopsAt disk (saveSteps lib config c times checkpoint_format)
      (saveAs lib config c times outcomes disk checkpoint_format).2 := by
  cases checkpoint_format with
  | JSON => exact stopsAt_saveJson outcomes.1
  | BINARY => exact stopsAt_saveBinary outcomes.2
  | BOTH =>
    rw [saveSteps, saveAs, stopsAt_append_iff]
    cases hsaved : saveJson lib c times.1 outcomes.1 disk with
    | mk saved disk₁ =>
      cases saved with
      | false =>
        have hstop : StopsAt disk (jsonSteps lib c times.1)
            (saveJson lib c times.1 outcomes.1 disk).2 := stopsAt_saveJson outcomes.1
        rw [hsaved] at hstop
        exact .inl hstop
      | true =>
        refine .inr ?_
        have hreturns : (saveJson lib c times.1 outcomes.1 disk).1 = true := by rw [hsaved]
        have hdone := saveJson_returns hreturns
        rw [hdone] at hsaved hreturns
        have htext : (jsonText lib c times.1).2 = true := by
          rw [saveJson_done] at hreturns
          exact hreturns
        have hdisk : disk₁ = perform disk (jsonSteps lib c times.1) := by
          rw [perform_jsonSteps, hsaved]
        rw [if_pos htext, ← hdisk]
        exact stopsAt_saveBinary outcomes.2

end Writers

section Reads

/-- What is read of a JSON text that has been cut off is read of the whole text. -/
theorem exists_loadJson_take_iff
    (h : disk (c.info_hash, .json) = some ((jsonText lib c now).1.take n)) :
    (∃ c', loadJson lib disk c.info_hash = .ok (some c') ∧ R c') ↔
      (jsonText lib c now).1.take n = (jsonText lib c now).1 ∧ ∃ c',
        (lib.loads (jsonText lib c now).1).bind checkpointOfJson = some c' ∧ R c' := by
  rw [exists_loadJson_iff h]
  constructor
  · rintro ⟨c', hread, hR⟩
    obtain ⟨v, hv, -⟩ := Option.bind_eq_some_iff.mp hread
    have hwhole : (jsonText lib c now).1.take n = (jsonText lib c now).1 := (loads_take hv).2
    rw [hwhole] at hread
    exact ⟨hwhole, c', hread, hR⟩
  · rintro ⟨hwhole, hread⟩
    rw [hwhole]
    exact hread

/-- What can be read of a binary file that has been cut off is a beginning of its data. -/
theorem uncompressed_take {data content : Bytes}
    (h : uncompressed lib config ((compressed lib config data).take n) = some content) :
    content <+: data := by
  rw [uncompressed, compressed] at h
  cases hcompression : config.checkpoint_compression with
  | true =>
    rw [hcompression, if_pos rfl, if_pos rfl] at h
    cases hzstd : usesZstd lib config with
    | true =>
      rw [hzstd, if_pos rfl] at h
      rcases lib.gunzip_zstd_take data n with hnone | hempty
      · cases hnone.symm.trans h
      · rw [← Option.some.inj (hempty.symm.trans h)]
        exact List.nil_prefix
    | false =>
      rw [hzstd, if_neg Bool.false_ne_true] at h
      rcases lib.gunzip_gzip_take data n with hnone | ⟨m, hm⟩
      · cases hnone.symm.trans h
      · rw [← Option.some.inj (hm.symm.trans h)]
        exact List.take_prefix m data
  | false =>
    rw [hcompression] at h
    rw [← Option.some.inj h]
    exact List.take_prefix n data

/-- What is read of a binary file that has been cut off is read of the whole data. -/
theorem exists_loadBinary_take_iff {content : Bytes}
    (h : disk (c.info_hash, binarySuffix lib config) = some content)
    (hcut : content = (compressed lib config (binaryData lib c now).1).take n) :
    (∃ c', loadBinary lib config disk c.info_hash = .ok (some c') ∧ R c') ↔
      uncompressed lib config content = some (binaryData lib c now).1 ∧ ∃ c',
        (readBinaryData lib c.info_hash (binaryData lib c now).1).bind asTorrentCheckpoint =
          some c' ∧ R c' := by
  rw [exists_loadBinary_iff h]
  constructor
  · rintro ⟨c', hread, hR⟩
    obtain ⟨d, hd, hc'⟩ := Option.bind_eq_some_iff.mp hread
    obtain ⟨data, hdata, hd⟩ := Option.bind_eq_some_iff.mp hd
    have hbegin : data <+: (binaryData lib c now).1 := uncompressed_take (hcut ▸ hdata)
    have hwhole := (readBinaryData_beginning hbegin hd).2
    refine ⟨hwhole ▸ hdata, c', ?_, hR⟩
    rw [← hwhole, hd, Option.bind_some, hc']
  · rintro ⟨hwhole, hread⟩
    rw [hwhole]
    exact hread

/-- What is read back of the JSON text is the same checkpoint exactly if it survives JSON. -/
theorem readBack_json_iff : (∃ c', (lib.loads (jsonText lib c now).1).bind checkpointOfJson =
      some c' ∧ c' = { c with updated_at := c'.updated_at }) ↔ JsonSurvives lib.repr c := by
  rw [← jsonRoundTrips_iff]
  refine ⟨fun h => ⟨?_, h⟩, fun h => h.2⟩
  obtain ⟨c', hread, -⟩ := h
  obtain ⟨v, hv, -⟩ := Option.bind_eq_some_iff.mp hread
  rw [← List.take_length (l := (jsonText lib c now).1)] at hv
  exact (loads_take hv).1

theorem readBack_binary_iff {content : Bytes}
    (hcut : content = (compressed lib config (binaryData lib c now).1).take n)
    (hwhole : uncompressed lib config content = some (binaryData lib c now).1) :
    (∃ c', (readBinaryData lib c.info_hash (binaryData lib c now).1).bind asTorrentCheckpoint =
      some c' ∧ SameRounded c c') ↔ BinarySurvives lib config c now := by
  constructor
  · rintro ⟨c', hread, hsame⟩
    obtain ⟨d, hd, -⟩ := Option.bind_eq_some_iff.mp hread
    have hsaves := (readBinaryData_beginning (List.prefix_refl _) hd).1
    have hreadable : config.checkpoint_compression = true → usesZstd lib config = false := by
      intro hcompression
      cases hzstd : usesZstd lib config with
      | false => rfl
      | true =>
        -- of a file that zstd has compressed nothing can be read
        rw [hcut, uncompressed, compressed, hcompression, hzstd, if_pos rfl, if_pos rfl,
          if_pos rfl] at hwhole
        rcases lib.gunzip_zstd_take (binaryData lib c now).1 n with hnone | hempty
        · cases hnone.symm.trans hwhole
        · rw [← Option.some.inj (hempty.symm.trans hwhole), readBinaryData_nil] at hd
          cases hd
    refine binarySurvives_iff.mpr ⟨(binaryData_iff now).mpr hsaves, c', ?_, hsame⟩
    rw [uncompressed_compressed config _ hreadable, Option.bind_some]
    exact hread
  · intro h
    obtain ⟨-, c', hread, hsame⟩ := binarySurvives_iff.mp h
    rw [uncompressed_compressed config _ h.readable, Option.bind_some] at hread
    exact ⟨c', hread, hsame⟩

end Reads

/-- The load goes by one file alone. -/
theorem loadAs_congr {info_hash : Bytes} {checkpoint_format : CheckpointFormat}
    (h : disk' (savedPath lib config info_hash checkpoint_format) =
      disk (savedPath lib config info_hash checkpoint_format)) :
    loadAs lib config disk' info_hash checkpoint_format =
      loadAs lib config disk info_hash checkpoint_format := by
  rw [loadAs, loadAs]
  cases checkpoint_format with
  | JSON =>
    rw [tryLoad, tryLoad, loadJson, loadJson, show disk' (info_hash, .json) = _ from h]
    rfl
  | BINARY =>
    rw [tryLoad, tryLoad, loadBinary, loadBinary,
      show disk' (info_hash, binarySuffix lib config) = _ from h]
    rfl
  | BOTH =>
    rw [tryLoad_both, tryLoad_both, loadJson, loadJson,
      show disk' (info_hash, .json) = _ from h]
    rfl

section Stops

/-- What is read back gives the old checkpoint or the new one. -/
theorem exists_old_or_new_iff {x : Option TorrentCheckpoint} :
    (∃ c', x = some c' ∧ (c' = old ∨ R c')) ↔ (∃ c', x = some c' ∧ R c') ∨ x = some old := by
  constructor
  · rintro ⟨c', hx, rfl | hR⟩
    · exact .inr hx
    · exact .inl ⟨c', hx, hR⟩
  · rintro (⟨c', hx, hR⟩ | hx)
    · exact ⟨c', hx, .inr hR⟩
    · exact ⟨old, hx, .inl rfl⟩

theorem loadsOldOrNew_json_iff
    (h : disk (c.info_hash, .json) = some ((jsonText lib c times.1).1.take n)) :
    (∃ c', loadJson lib disk c.info_hash = .ok (some c') ∧
      (c' = old ∨ c' = { c with updated_at := c'.updated_at })) ↔
      disk (c.info_hash, .json) = some (jsonText lib c times.1).1 ∧
        (JsonSurvives lib.repr c ∨
          (lib.loads (jsonText lib c times.1).1).bind checkpointOfJson = some old) := by
  rw [exists_loadJson_take_iff h, exists_old_or_new_iff, readBack_json_iff, h, Option.some.injEq]

theorem loadsOldOrNew_binary_iff
    (h : disk (c.info_hash, binarySuffix lib config) =
      some ((compressed lib config (binaryData lib c times.2).1).take n)) :
    (∃ c', loadBinary lib config disk c.info_hash = .ok (some c') ∧
      (c' = old ∨ SameRounded c c')) ↔
      Whole lib config disk c times .BINARY ∧ (BinarySurvives lib config c times.2 ∨
        readBack lib c times .BINARY = some old) := by
  have hwhole : Whole lib config disk c times .BINARY ↔
      uncompressed lib config ((compressed lib config (binaryData lib c times.2).1).take n) =
        some (binaryData lib c times.2).1 := by
    rw [Whole, h]
    constructor
    · rintro ⟨content, hcontent, hdata⟩
      rwa [← Option.some.inj hcontent] at hdata
    · exact fun hdata => ⟨_, rfl, hdata⟩
  rw [exists_loadBinary_take_iff h rfl, exists_old_or_new_iff, hwhole]
  refine and_congr_right fun hdata => ?_
  rw [readBack_binary_iff rfl hdata, readBack]

/-- Where a save may be stopped, for the file that is read. -/
theorem savedPath_of_stopsAt {checkpoint_format : CheckpointFormat}
    (h : StopsAt disk (saveSteps lib config c times checkpoint_format) disk') :
    disk' (savedPath lib config c.info_hash checkpoint_format) =
        disk (savedPath lib config c.info_hash checkpoint_format) ∨
      match checkpoint_format with
      | .BINARY => ∃ n, disk' (c.info_hash, binarySuffix lib config) =
        some ((compressed lib config (binaryData lib c times.2).1).take n)
      | _ => ∃ n, disk' (c.info_hash, .json) = some ((jsonText lib c times.1).1.take n) := by
  have hjson : StopsAt disk (jsonSteps lib c times.1) disk' →
      disk' (c.info_hash, .json) = disk (c.info_hash, .json) ∨
        ∃ n, disk' (c.info_hash, .json) = some ((jsonText lib c times.1).1.take n) := by
    intro hstop
    rcases stopsAt_jsonSteps_iff.mp hstop with rfl | ⟨n, rfl⟩
    · exact .inl rfl
    · exact .inr ⟨n, Function.update_self _ _ _⟩
  cases checkpoint_format with
  | JSON => exact hjson h
  | BINARY =>
    rcases stopsAt_binarySteps_iff.mp h with rfl | ⟨n, rfl⟩
    · exact .inl rfl
    · exact .inr ⟨n, Function.update_self _ _ _⟩
  | BOTH =>
    rcases stopsAt_append_iff.mp h with hstop | hstop
    · exact hjson hstop
    · -- the JSON text is there, and the binary file is another one
      have hpath : (c.info_hash, Suffix.json) ≠ (c.info_hash, binarySuffix lib config) :=
        fun h => binarySuffix_ne_json (congrArg Prod.snd h).symm
      have hfirst : perform disk (jsonSteps lib c times.1) (c.info_hash, .json) =
          some (jsonText lib c times.1).1 := by
        rw [perform_jsonSteps, saveJson_done]
        exact Function.update_self _ _ _
      refine .inr ⟨(jsonText lib c times.1).1.length, ?_⟩
      rw [List.take_length, ← hfirst]
      split at hstop
      · rcases stopsAt_binarySteps_iff.mp hstop with rfl | ⟨n, rfl⟩
        · rfl
        · exact Function.update_of_ne hpath _ _
      · rw [hstop.nil]

theorem whole_saveJson (lib : Libraries) (config : DiskConfig) (c : TorrentCheckpoint)
    (times : Now × Now) (disk : Disk) :
    Whole lib config (saveJson lib c times.1 .done disk).2 c times .JSON := by
  rw [saveJson_done, Whole]
  · exact Function.update_self _ _ _
  · exact fun h => by cases h

/-- **When a save is stopped, a load gives the old or the new checkpoint if and only if the file
that is read has not been touched yet, or it is whole and the format gives back the new checkpoint
(or the old one for it).** -/
theorem loadsOldOrNew_iff (lib : Libraries) (config : DiskConfig) (times : Now × Now)
    (checkpoint_format : CheckpointFormat)
    (hold : loadAs lib config disk c.info_hash checkpoint_format = .checkpoint old)
    (hstop : StopsAt disk (saveSteps lib config c times checkpoint_format) disk') :
    LoadsOldOrNew lib config disk' old c checkpoint_format ↔
      disk' (savedPath lib config c.info_hash checkpoint_format) =
          disk (savedPath lib config c.info_hash checkpoint_format) ∨
        Whole lib config disk' c times checkpoint_format ∧
          (ComesBack lib config c times checkpoint_format ∨
            readBack lib c times checkpoint_format = some old) := by
  by_cases huntouched : disk' (savedPath lib config c.info_hash checkpoint_format) =
      disk (savedPath lib config c.info_hash checkpoint_format)
  · refine iff_of_true ⟨old, ?_, .inl rfl⟩ (.inl huntouched)
    rw [loadAs_congr huntouched, hold]
  · rw [or_iff_right huntouched, LoadsOldOrNew]
    have hcut := (savedPath_of_stopsAt hstop).resolve_left huntouched
    simp only [loadAs_eq_checkpoint_iff]
    cases checkpoint_format with
    | JSON =>
      obtain ⟨n, hn⟩ := hcut
      exact loadsOldOrNew_json_iff hn
    | BINARY =>
      obtain ⟨n, hn⟩ := hcut
      exact loadsOldOrNew_binary_iff hn
    | BOTH =>
      obtain ⟨n, hn⟩ := hcut
      simp only [tryLoad_both]
      exact loadsOldOrNew_json_iff hn

end Stops

section Truncated

/-- The directory with the JSON file of a checkpoint. -/
noncomputable def savedDisk : Disk :=
  (saveJson standIns someCheckpoint anHour .done fun _ => none).2

/-- The checkpoint is saved again, and the process stops behind `open`. -/
noncomputable def truncatedDisk : Disk :=
  Function.update savedDisk (someCheckpoint.info_hash, .json) (some [])

theorem jsonSurvives_someCheckpoint (repr : PyFloat → Str) : JsonSurvives repr someCheckpoint := by
  constructor
  · rfl
  · intro file hfile
    rw [List.mem_singleton.mp hfile]
  · intro d hd
    cases hd
  · intro d hd
    cases hd
  · intro d hd
    cases hd

theorem loadJson_savedDisk : ∃ old, loadJson standIns savedDisk someCheckpoint.info_hash =
    .ok (some old) := by
  obtain ⟨-, old, hold, -⟩ := (saveJson_loadJson_iff (fun _ => none) anHour).mpr
    (jsonSurvives_someCheckpoint standIns.repr)
  exact ⟨old, hold⟩

/-- A save that is not stopped. -/
theorem loadsOldOrNew_saved : ∃ old, LoadsOldOrNew standIns jsonConfig
    (saveJson standIns someCheckpoint anHour .done savedDisk).2 old someCheckpoint .JSON := by
  obtain ⟨old, hold⟩ := loadJson_savedDisk
  have hloaded : loadAs standIns jsonConfig savedDisk someCheckpoint.info_hash .JSON =
    .checkpoint old := loadAs_eq_checkpoint_iff.mpr hold
  have hstop : StopsAt savedDisk (saveSteps standIns jsonConfig someCheckpoint (anHour, anHour)
    .JSON) (saveJson standIns someCheckpoint anHour .done savedDisk).2 := stopsAt_saveJson .done
  have hwhole : Whole standIns jsonConfig (saveJson standIns someCheckpoint anHour .done
      savedDisk).2 someCheckpoint (anHour, anHour) .JSON :=
    whole_saveJson standIns jsonConfig someCheckpoint (anHour, anHour) savedDisk
  exact ⟨old, (loadsOldOrNew_iff standIns jsonConfig (anHour, anHour) .JSON hloaded hstop).mpr
    (.inr ⟨hwhole, .inl (jsonSurvives_someCheckpoint _)⟩)⟩

/-- Between the truncation and the end of the text nothing can be loaded. -/
theorem not_loadsOldOrNew_truncatedDisk : ∃ old,
    loadAs standIns {} savedDisk someCheckpoint.info_hash .BOTH = .checkpoint old ∧
      StopsAt savedDisk (saveSteps standIns {} someCheckpoint (anHour, anHour) .BOTH)
        truncatedDisk ∧
      ¬ LoadsOldOrNew standIns {} truncatedDisk old someCheckpoint .BOTH := by
  obtain ⟨old, hold⟩ := loadJson_savedDisk
  refine ⟨old, loadAs_eq_checkpoint_iff.mpr ((tryLoad_both _).trans hold), ?_, ?_⟩
  · exact stopsAt_append_iff.mpr (.inl (stopsAt_jsonSteps_iff.mpr (.inr ⟨0, rfl⟩)))
  · rintro ⟨c', hc', -⟩
    rw [loadAs_eq_checkpoint_iff, tryLoad_both, loadJson_eq_ok_iff] at hc'
    obtain ⟨content, c'', hcontent, hread, -⟩ := hc'
    rw [truncatedDisk, Function.update_self] at hcontent
    have hnone : standIns.loads [] = none := by
      rw [show standIns.loads [] = tallyLoads [] from rfl, tallyLoads, readTally,
        if_neg (by decide)]
      rfl
    rw [← Option.some.inj hcontent, hnone] at hread
    cases hread

end Truncated

end Checkpoint

end Ccbt

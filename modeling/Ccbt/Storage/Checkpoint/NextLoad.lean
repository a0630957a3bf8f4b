import Ccbt.Storage.Checkpoint.Manager

/-!
# What the next load gives

A save that returns is what the next load gives, unless it has been skipped and the file is not one
of a checkpoint in the same state, or the format loses the state. In the format `BOTH` a lost JSON
file is never made up for by the binary one.
-/

namespace Ccbt

open Python Transition

namespace Checkpoint

section Definitions

variable (lib : Libraries) (config : DiskConfig)

/-- A load gives the state of the checkpoint. -/
def LoadsState (m : CheckpointManager) (c : TorrentCheckpoint)
    (checkpoint_format : Option CheckpointFormat) : Prop :=
  ∃ c', loadCheckpoint lib config m c.info_hash checkpoint_format = .checkpoint c' ∧
    SameState c c'

/-- The state is loaded whatever becomes of one of the two files, also if it cannot be read. -/
def LoadsFromEither (m : CheckpointManager) (c : TorrentCheckpoint)
    (checkpoint_format : Option CheckpointFormat) : Prop :=
  ∀ content, let json := Function.update m.disk (c.info_hash, .json) content
    let binary := Function.update m.disk (c.info_hash, binarySuffix lib config) content
    ((∀ c', loadJson lib json c.info_hash ≠ .ok (some c')) →
        LoadsState lib config { m with disk := json } c checkpoint_format) ∧
      ((∀ c', loadBinary lib config binary c.info_hash ≠ .ok (some c')) →
        LoadsState lib config { m with disk := binary } c checkpoint_format)

/-- If the call is a save that returns, the next load gives its state, in the format `BOTH` from
each of the two files. -/
def Shown (s : Recorded) : Call → Prop
  | .save_checkpoint c checkpoint_format times outcomes =>
    let (path, m) := saveCheckpoint lib config s.manager c checkpoint_format times outcomes
    path.isSome = true → LoadsState lib config m c checkpoint_format ∧
      (checkpoint_format.getD config.checkpoint_format = .BOTH →
        LoadsFromEither lib config m c checkpoint_format)
  | _ => True

/-- The format keeps the state of the checkpoint. -/
def Keeps (c : TorrentCheckpoint) : CheckpointFormat → Prop
  | .JSON => JsonKeeps lib.repr c
  | .BINARY => BinaryKeeps lib config c
  | .BOTH => JsonKeeps lib.repr c ∧ BinarySaves lib c

/-- A save in one format that keeps the state, or, if it is skipped, that finds the file of a
checkpoint in the same state. -/
def Meets (s : Recorded) : Call → Prop
  | .save_checkpoint c checkpoint_format _ _ =>
    let checkpoint_format := checkpoint_format.getD config.checkpoint_format
    checkpoint_format ≠ .BOTH ∧
      if skips lib config s.manager c then
        ∃ path c₀, getCheckpointPath lib config c.info_hash checkpoint_format = some path ∧
          s.written path = some c₀ ∧ SameState c c₀ ∧ Keeps lib config c₀ checkpoint_format
      else Keeps lib config c checkpoint_format
  | _ => True

/-- The call is a save that writes and returns. -/
def SavesAnew (s : Recorded) : Call → Prop
  | .save_checkpoint c checkpoint_format times outcomes =>
    skips lib config s.manager c = false ∧
      (saveCheckpoint lib config s.manager c checkpoint_format times outcomes).1.isSome = true
  | _ => False

end Definitions

variable {lib : Libraries} {config : DiskConfig} {m : CheckpointManager}
  {c c₀ : TorrentCheckpoint} {now : Now} {disk : Disk} {checkpoint_format : Option CheckpointFormat}
  {outcome : WriteOutcome}

section Files

theorem jsonKeeps_updated (c : TorrentCheckpoint) (updated_at : PyFloat) :
    JsonKeeps lib.repr { c with updated_at := updated_at } ↔ JsonKeeps lib.repr c :=
  ⟨fun h => ⟨h.version, h.file_sha1, h.resume_data, h.peer_info, h.file_selections⟩,
    fun h => ⟨h.version, h.file_sha1, h.resume_data, h.peer_info, h.file_selections⟩⟩

theorem sameState_updated (c c' : TorrentCheckpoint) (updated_at : PyFloat) :
    SameState { c with updated_at := updated_at } c' ↔ SameState c c' :=
  ⟨fun h => ⟨h.verified_pieces, h.piece_states, h.files, h.resume_data⟩,
    fun h => ⟨h.verified_pieces, h.piece_states, h.files, h.resume_data⟩⟩

/-- The JSON text of a checkpoint gives its state exactly if it is kept. -/
theorem jsonText_iff (now : Now) :
    ((lib.dump (.record (jsonDict { c with updated_at := .finite now.val }))).2 = true ∧ ∃ c',
      (lib.loads (lib.dump (.record (jsonDict { c with updated_at := .finite now.val }))).1).bind
        checkpointOfJson = some c' ∧ SameState c c') ↔ JsonKeeps lib.repr c := by
  rw [← jsonKeeps_updated c (.finite now.val), jsonKeeps_iff_read]
  simp only [sameState_updated]

/-- The binary file of a checkpoint gives its state exactly if it is kept. -/
theorem binaryContent_iff (now : Now) :
    ((fileContent lib config c now (binarySuffix lib config)).2 = true ∧ ∃ c',
      ((uncompressed lib config (fileContent lib config c now (binarySuffix lib config)).1).bind
        (readBinaryData lib c.info_hash)).bind asTorrentCheckpoint = some c' ∧
        SameState c c') ↔ BinaryKeeps lib config c := by
  rw [fileContent_binary, ← binaryKeeps_iff_read]

theorem loadsState_iff : LoadsState lib config m c checkpoint_format ↔ ∃ c',
    tryLoad lib config m.disk c.info_hash (checkpoint_format.getD config.checkpoint_format) =
      .ok (some c') ∧ SameState c c' := by
  simp only [LoadsState, loadCheckpoint, loadAs_eq_checkpoint_iff]

/-- What is recorded is loaded. -/
theorem loadsState_of_written {written : Written} (h : Holds lib config m.disk written)
    {path : Bytes × Suffix}
    (hpath : getCheckpointPath lib config c.info_hash
      (checkpoint_format.getD config.checkpoint_format) = some path)
    (hwritten : written path = some c₀) (hsame : SameState c c₀)
    (hkeeps : Keeps lib config c₀ (checkpoint_format.getD config.checkpoint_format)) :
    LoadsState lib config m c checkpoint_format := by
  rw [loadsState_iff]
  obtain ⟨hinfo, now, -, hdisk⟩ := h path c₀ hwritten
  cases hformat : checkpoint_format.getD config.checkpoint_format with
  | JSON =>
    rw [hformat] at hpath hkeeps
    obtain rfl := Option.some.inj hpath
    obtain ⟨-, c', hread, hback⟩ := (jsonText_iff now).mpr hkeeps
    exact (exists_loadJson_iff hdisk).mpr ⟨c', hread, hsame.trans hback⟩
  | BINARY =>
    rw [hformat] at hpath hkeeps
    obtain rfl := Option.some.inj hpath
    obtain ⟨-, c', hread, hback⟩ := (binaryContent_iff now).mpr hkeeps
    refine (exists_loadBinary_iff hdisk).mpr ⟨c', ?_, hsame.trans hback⟩
    rw [← hinfo] at hread
    exact hread
  | BOTH =>
    rw [hformat] at hpath
    cases hpath

end Files

section Saves

theorem saveJson_returns (h : (saveJson lib c now outcome disk).1 = true) : outcome = .done := by
  cases outcome with
  | done => rfl
  | notOpened => exact absurd (Bool.and_eq_true_iff.mp h).2 Bool.false_ne_true
  | stopped n => exact absurd (Bool.and_eq_true_iff.mp h).2 Bool.false_ne_true

theorem saveBinary_returns (h : (saveBinary lib config c now outcome disk).1 = true) :
    outcome = .done := by
  cases outcome with
  | done => rfl
  | notOpened => exact absurd (Bool.and_eq_true_iff.mp h).2 Bool.false_ne_true
  | stopped n => exact absurd (Bool.and_eq_true_iff.mp h).2 Bool.false_ne_true

theorem saveJson_loads_iff (h : (saveJson lib c now outcome disk).1 = true) :
    (∃ c', loadJson lib (saveJson lib c now outcome disk).2 c.info_hash = .ok (some c') ∧
      SameState c c') ↔ JsonKeeps lib.repr c := by
  obtain rfl := saveJson_returns h
  rw [saveJson_done] at h ⊢
  rw [exists_loadJson_iff (Function.update_self _ _ _), ← jsonText_iff now]
  exact (and_iff_right h).symm

theorem saveBinary_loads_iff (h : (saveBinary lib config c now outcome disk).1 = true) :
    (∃ c', loadBinary lib config (saveBinary lib config c now outcome disk).2 c.info_hash =
      .ok (some c') ∧ SameState c c') ↔ BinaryKeeps lib config c := by
  obtain rfl := saveBinary_returns h
  rw [saveBinary_done] at h ⊢
  rw [exists_loadBinary_iff (Function.update_self _ _ _), binaryKeeps_iff_read]
  exact (and_iff_right h).symm

/-- A save that writes and returns is loaded exactly if the format keeps the state. -/
theorem saveAs_loads_iff {times : Now × Now} {outcomes : WriteOutcome × WriteOutcome}
    {checkpoint_format : CheckpointFormat}
    (h : (saveAs lib config c times outcomes disk checkpoint_format).1 = true) :
    (∃ c', tryLoad lib config (saveAs lib config c times outcomes disk checkpoint_format).2
      c.info_hash checkpoint_format = .ok (some c') ∧ SameState c c') ↔
      Keeps lib config c checkpoint_format := by
  cases checkpoint_format with
  | JSON => exact saveJson_loads_iff h
  | BINARY => exact saveBinary_loads_iff h
  | BOTH =>
    simp only [tryLoad_both]
    rw [saveAs] at h ⊢
    cases hjson : saveJson lib c times.1 outcomes.1 disk with
    | mk saved disk' =>
      cases saved with
      | false =>
        rw [hjson] at h
        cases h
      | true =>
        rw [hjson] at h
        have hsaved : (saveJson lib c times.1 outcomes.1 disk).1 = true := by rw [hjson]
        have hloads := saveJson_loads_iff hsaved
        rw [hjson] at hloads
        have hbinary : BinarySaves lib c := by
          have hdone := saveBinary_returns h
          dsimp only at h
          rw [hdone, saveBinary_done] at h
          exact (binaryData_iff _).mp h
        simp only [loadJson_saveBinary]
        rw [hloads, Keeps]
        exact (and_iff_left hbinary).symm

/-- Without the JSON file nothing is loaded. -/
theorem not_loadsFromEither (h : checkpoint_format.getD config.checkpoint_format = .BOTH) :
    ¬ LoadsFromEither lib config m c checkpoint_format := by
  intro heither
  have hnone : loadJson lib (Function.update m.disk (c.info_hash, .json) none) c.info_hash =
      .error .CheckpointNotFoundError := by
    rw [loadJson, Function.update_self]
  have hloads := (heither none).1 fun c' hc' => by
    rw [hnone] at hc'
    cases hc'
  rw [loadsState_iff, h] at hloads
  obtain ⟨c', hc', -⟩ := hloads
  rw [tryLoad_both, hnone] at hc'
  cases hc'

end Saves

section Calls

variable {times : Now × Now} {outcomes : WriteOutcome × WriteOutcome} {s : Recorded}

theorem saveCheckpoint_of_skips (h : skips lib config m c = true) :
    saveCheckpoint lib config m c checkpoint_format times outcomes =
      (getCheckpointPath lib config c.info_hash
        (checkpoint_format.getD config.checkpoint_format), m) := by
  rw [saveCheckpoint, if_pos h]

theorem isSome_saveCheckpoint (h : skips lib config m c = false) :
    (saveCheckpoint lib config m c checkpoint_format times outcomes).1.isSome =
      (saveAs lib config c times outcomes m.disk
        (checkpoint_format.getD config.checkpoint_format)).1 := by
  rw [saveCheckpoint, h, if_neg Bool.false_ne_true]
  dsimp only
  cases (saveAs lib config c times outcomes m.disk
    (checkpoint_format.getD config.checkpoint_format)).1 with
  | true => rfl
  | false => rfl

theorem saveCheckpoint_disk (h : skips lib config m c = false) :
    (saveCheckpoint lib config m c checkpoint_format times outcomes).2.disk =
      (saveAs lib config c times outcomes m.disk
        (checkpoint_format.getD config.checkpoint_format)).2 := by
  rw [saveCheckpoint, h, if_neg Bool.false_ne_true]

/-- A skipped save that finds the file of a checkpoint in the same state. -/
theorem shown_of_skips (hholds : Holds lib config s.manager.disk s.written)
    (hskips : skips lib config s.manager c = true)
    (h : Meets lib config s (.save_checkpoint c checkpoint_format times outcomes)) :
    Shown lib config s (.save_checkpoint c checkpoint_format times outcomes) := by
  rw [Meets, if_pos hskips] at h
  obtain ⟨hboth, path, c₀, hpath, hwritten, hsame, hkeeps⟩ := h
  rw [Shown, saveCheckpoint_of_skips hskips]
  exact fun _ => ⟨loadsState_of_written hholds hpath hwritten hsame hkeeps,
    fun h => absurd h hboth⟩

/-- A save that writes and returns. -/
theorem loadsState_saveCheckpoint_iff (hskips : skips lib config m c = false)
    (hreturns : (saveCheckpoint lib config m c checkpoint_format times outcomes).1.isSome = true) :
    LoadsState lib config (saveCheckpoint lib config m c checkpoint_format times outcomes).2 c
      checkpoint_format ↔
        Keeps lib config c (checkpoint_format.getD config.checkpoint_format) := by
  rw [isSome_saveCheckpoint hskips] at hreturns
  rw [loadsState_iff, saveCheckpoint_disk hskips, saveAs_loads_iff hreturns]

theorem shown_iff_meets (hskips : skips lib config s.manager c = false)
    (hreturns : (saveCheckpoint lib config s.manager c checkpoint_format times outcomes).1.isSome =
      true) :
    Shown lib config s (.save_checkpoint c checkpoint_format times outcomes) ↔
      Meets lib config s (.save_checkpoint c checkpoint_format times outcomes) := by
  rw [Shown, Meets, hskips, if_neg Bool.false_ne_true]
  dsimp only
  rw [loadsState_saveCheckpoint_iff hskips hreturns]
  constructor
  · intro h
    obtain ⟨hkeeps, heither⟩ := h hreturns
    exact ⟨fun hboth => not_loadsFromEither hboth (heither hboth), hkeeps⟩
  · rintro ⟨hboth, hkeeps⟩ -
    exact ⟨hkeeps, fun h => absurd h hboth⟩

end Calls

/-- **In every run, a save that meets the condition is what the next load gives, if it returns; and
one that has written its checkpoint is so only if it meets it.** -/
theorem shown_of_meets (lib : Libraries) (config : DiskConfig) (disk : Disk) (calls : List Call) :
    StepsMeet (Recorded.step lib config)
      (fun s call => (Meets lib config s call → Shown lib config s call) ∧
        (SavesAnew lib config s call → Shown lib config s call → Meets lib config s call))
      (Recorded.new disk) calls := by
  apply stepsMeet_of_invariant
    fun s call (h : Holds lib config s.manager.disk s.written) => holds_step s call h
  · intro s call hholds
    cases call with
    | save_checkpoint c checkpoint_format times outcomes =>
      cases hskips : skips lib config s.manager c with
      | true =>
        refine ⟨shown_of_skips hholds hskips, fun h => ?_⟩
        exact absurd (h.1.symm.trans hskips) Bool.false_ne_true
      | false =>
        refine ⟨fun h => ?_, fun h => (shown_iff_meets hskips h.2).mp⟩
        intro hreturns
        exact (shown_iff_meets hskips hreturns).mpr h hreturns
    | load_checkpoint => exact ⟨fun _ => trivial, fun h => h.elim⟩
    | delete_checkpoint => exact ⟨fun _ => trivial, fun h => h.elim⟩
  · exact holds_new disk

section Deleted

/-- A checkpoint is saved, deleted and saved again. -/
def deletedRun (c : TorrentCheckpoint) (times : Now × Now) : List Call :=
  [.save_checkpoint c none times (.done, .done), .delete_checkpoint c.info_hash,
    .save_checkpoint c none times (.done, .done)]

/-- The hash is remembered by a save, whether it has written anything or not. -/
theorem last_checkpoint_hash_saveCheckpoint {times : Now × Now}
    {outcomes : WriteOutcome × WriteOutcome} (h : config.checkpoint_deduplication = true) :
    (saveCheckpoint lib config m c checkpoint_format times outcomes).2.last_checkpoint_hash =
      some (calculateCheckpointHash lib c) := by
  cases hskips : skips lib config m c with
  | true =>
    rw [saveCheckpoint_of_skips hskips]
    rw [skips, Bool.and_eq_true, decide_eq_true_eq] at hskips
    exact hskips.2
  | false =>
    rw [saveCheckpoint, hskips, if_neg Bool.false_ne_true]
    exact if_pos h

theorem deleteCheckpoint_disk (info_hash : Bytes) :
    (deleteCheckpoint lib config m info_hash).2.disk (info_hash, .json) = none := by
  have hpath : (info_hash, Suffix.json) ≠ (info_hash, binarySuffix lib config) :=
    fun h => binarySuffix_ne_json (congrArg Prod.snd h).symm
  exact (Function.update_of_ne hpath _ _).trans (Function.update_self _ _ _)

/-- A skipped save without a file is not what the next load gives. -/
theorem not_shown_of_lost {s : Recorded} {times : Now × Now}
    {outcomes : WriteOutcome × WriteOutcome} (hskips : skips lib config s.manager c = true)
    (hformat : checkpoint_format.getD config.checkpoint_format = .JSON)
    (hlost : s.manager.disk (c.info_hash, .json) = none) :
    ¬ Shown lib config s (.save_checkpoint c checkpoint_format times outcomes) := by
  intro hshown
  rw [Shown, saveCheckpoint_of_skips hskips, hformat] at hshown
  obtain ⟨hloads, -⟩ := hshown rfl
  rw [loadsState_iff, hformat] at hloads
  obtain ⟨c', hc', -⟩ := hloads
  obtain ⟨content, -, hcontent, -⟩ := loadJson_eq_ok_iff.mp hc'
  cases hlost.symm.trans hcontent

/-- The last save of the run returns, and there is nothing to load. -/
theorem not_stepsMeet_deletedRun {times : Now × Now}
    (hdeduplication : config.checkpoint_deduplication = true)
    (hformat : config.checkpoint_format = .JSON) :
    ¬ StepsMeet (Recorded.step lib config) (Shown lib config) (Recorded.new disk)
      (deletedRun c times) := by
  rintro ⟨-, -, hshown, -⟩
  have hnone : (none : Option CheckpointFormat).getD config.checkpoint_format = .JSON := hformat
  refine not_shown_of_lost ?_ hnone (deleteCheckpoint_disk _) hshown
  have hlast : (saveCheckpoint lib config { disk } c none times
      (.done, .done)).2.last_checkpoint_hash = some (calculateCheckpointHash lib c) :=
    last_checkpoint_hash_saveCheckpoint hdeduplication
  exact Bool.and_eq_true_iff.mpr ⟨hdeduplication, decide_eq_true hlast⟩

def jsonConfig : DiskConfig where
  checkpoint_format := .JSON

theorem not_shown_deletedRun : ¬ StepsMeet (Recorded.step standIns jsonConfig)
    (Shown standIns jsonConfig) (Recorded.new fun _ => none)
    (deletedRun someCheckpoint (anHour, anHour)) :=
  not_stepsMeet_deletedRun rfl rfl

end Deleted

end Checkpoint

end Ccbt

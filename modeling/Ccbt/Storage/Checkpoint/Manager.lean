import Ccbt.Python.Hashlib
import Ccbt.Storage.Checkpoint.RoundTrip
import Ccbt.Transition.Run

/-!
# The checkpoint manager: `storage/checkpoint.py`

A save is skipped when the hash of the checkpoint is the one of the last save. Beside the manager
it is recorded which checkpoint has been written last to each file, as long as no other writing and
no deletion has touched the file since (`Holds`).
-/

namespace Ccbt

open Python Transition

namespace Checkpoint

/-- The state of a `CheckpointManager`: the hash it remembers, and its directory. -/
structure CheckpointManager where
  last_checkpoint_hash : Option Bytes := none
  disk : Disk

section Operations

variable (lib : Libraries) (config : DiskConfig)

/-- `_get_checkpoint_path`, or `none` where it raises `ValueError`. -/
def getCheckpointPath (info_hash : Bytes) : CheckpointFormat → Option (Bytes × Suffix)
  | .JSON => some (info_hash, .json)
  | .BINARY => some (info_hash, binarySuffix lib config)
  | .BOTH => none

/-- `key_data` of `_calculate_checkpoint_hash`. -/
def keyData (c : TorrentCheckpoint) : Value :=
  .dict [(.str "info_hash".toList, .str (hexText c.info_hash)),
    (.str "verified_pieces".toList,
      .list ((c.verified_pieces.insertionSort (· ≤ ·)).map .int)),
    (.str "total_pieces".toList, .int c.total_pieces),
    (.str "piece_states".toList, c.pieceStates),
    (.str "updated_at".toList, .float c.updated_at)]

def calculateCheckpointHash (c : TorrentCheckpoint) : Bytes :=
  sha256 (lib.sortedDumps (keyData c))

/-- Whether a save of the checkpoint is skipped. -/
def skips (m : CheckpointManager) (c : TorrentCheckpoint) : Bool :=
  config.checkpoint_deduplication &&
    decide (m.last_checkpoint_hash = some (calculateCheckpointHash lib c))

def savedPath (info_hash : Bytes) : CheckpointFormat → Bytes × Suffix
  | .BINARY => (info_hash, binarySuffix lib config)
  | _ => (info_hash, .json)

/-- `save_checkpoint`, with `none` where it raises. The hash is remembered before anything has been
written. -/
def saveCheckpoint (m : CheckpointManager) (c : TorrentCheckpoint)
    (checkpoint_format : Option CheckpointFormat) (times : Now × Now)
    (outcomes : WriteOutcome × WriteOutcome) : Option (Bytes × Suffix) × CheckpointManager :=
  let checkpoint_format := checkpoint_format.getD config.checkpoint_format
  if skips lib config m c then
    (getCheckpointPath lib config c.info_hash checkpoint_format, m)
  else
    let last_checkpoint_hash :=
      if config.checkpoint_deduplication then some (calculateCheckpointHash lib c)
      else m.last_checkpoint_hash
    let (saved, disk) := saveAs lib config c times outcomes m.disk checkpoint_format
    (if saved then some (savedPath lib config c.info_hash checkpoint_format) else none,
      { last_checkpoint_hash, disk })

def loadCheckpoint (m : CheckpointManager) (info_hash : Bytes)
    (checkpoint_format : Option CheckpointFormat) : Loaded :=
  loadAs lib config m.disk info_hash (checkpoint_format.getD config.checkpoint_format)

def deleteCheckpoint (m : CheckpointManager) (info_hash : Bytes) : Bool × CheckpointManager :=
  let json_path := (info_hash, .json)
  let bin_path := (info_hash, binarySuffix lib config)
  ((m.disk json_path).isSome || (m.disk bin_path).isSome,
    { m with disk := Function.update (Function.update m.disk json_path none) bin_path none })

end Operations

/-- A call of a manager, with the times and the outcomes of the writing. -/
inductive Call
  | save_checkpoint (c : TorrentCheckpoint) (checkpoint_format : Option CheckpointFormat)
      (times : Now × Now) (outcomes : WriteOutcome × WriteOutcome)
  | load_checkpoint (info_hash : Bytes) (checkpoint_format : Option CheckpointFormat)
  | delete_checkpoint (info_hash : Bytes)

section Records

variable (lib : Libraries) (config : DiskConfig)

/-- The whole content of a file of the checkpoint, and whether there is one. -/
def fileContent (c : TorrentCheckpoint) (now : Now) : Suffix → Bytes × Bool
  | .json => lib.dump (.record (jsonDict { c with updated_at := .finite now.val }))
  | _ => (compressed lib config (binaryData lib c now).1, (binaryData lib c now).2)

/-- Which checkpoint a file is known to be of. -/
abbrev Written := Bytes × Suffix → Option TorrentCheckpoint

/-- The record of a file that gets a content for the checkpoint. -/
def recordFile (written : Written) (c : TorrentCheckpoint) (suffix : Suffix) (whole : Bool) :
    WriteOutcome → Written
  | .done => Function.update written (c.info_hash, suffix) (if whole then some c else none)
  | .notOpened => written
  | .stopped _ => Function.update written (c.info_hash, suffix) none

/-- The record of a save that is not skipped. -/
def recordSave (disk : Disk) (written : Written) (c : TorrentCheckpoint) (times : Now × Now)
    (outcomes : WriteOutcome × WriteOutcome) : CheckpointFormat → Written
  | .JSON => recordFile written c .json (fileContent lib config c times.1 .json).2 outcomes.1
  | .BINARY =>
    recordFile written c (binarySuffix lib config) (binaryData lib c times.2).2 outcomes.2
  | .BOTH =>
    let written :=
      recordFile written c .json (fileContent lib config c times.1 .json).2 outcomes.1
    if (saveJson lib c times.1 outcomes.1 disk).1 then
      recordFile written c (binarySuffix lib config) (binaryData lib c times.2).2 outcomes.2
    else written

/-- A manager with the record of its files. -/
structure Recorded where
  manager : CheckpointManager
  written : Written

/-- Nothing is known of the files that a new manager finds. -/
def Recorded.new (disk : Disk) : Recorded := ⟨{ disk }, fun _ => none⟩

def Recorded.step (s : Recorded) : Call → Recorded
  | .save_checkpoint c checkpoint_format times outcomes =>
    { manager := (saveCheckpoint lib config s.manager c checkpoint_format times outcomes).2
      written :=
        if skips lib config s.manager c then s.written
        else recordSave lib config s.manager.disk s.written c times outcomes
          (checkpoint_format.getD config.checkpoint_format) }
  | .load_checkpoint _ _ => s
  | .delete_checkpoint info_hash =>
    { manager := (deleteCheckpoint lib config s.manager info_hash).2
      written := Function.update (Function.update s.written (info_hash, .json) none)
        (info_hash, binarySuffix lib config) none }

/-- What is recorded is on the disk. -/
def Holds (disk : Disk) (written : Written) : Prop :=
  ∀ path c, written path = some c → path.1 = c.info_hash ∧ ∃ now,
    (fileContent lib config c now path.2).2 = true ∧
      disk path = some (fileContent lib config c now path.2).1

end Records

section Invariant

variable {lib : Libraries} {config : DiskConfig} {disk : Disk} {written : Written}
  {c : TorrentCheckpoint} {now : Now}

theorem binarySuffix_cases (P : Suffix → Prop) (hbin : P .bin) (hgz : P .binGz) (hzst : P .binZst) :
    P (binarySuffix lib config) := by
  rw [binarySuffix]
  split
  · split
    · exact hzst
    · exact hgz
  · exact hbin

theorem fileContent_binary : fileContent lib config c now (binarySuffix lib config) =
    (compressed lib config (binaryData lib c now).1, (binaryData lib c now).2) :=
  binarySuffix_cases (fun suffix => fileContent lib config c now suffix =
    (compressed lib config (binaryData lib c now).1, (binaryData lib c now).2)) rfl rfl rfl

theorem saveJson_disk (config : DiskConfig) (outcome : WriteOutcome) :
    (saveJson lib c now outcome disk).2 =
      (writeFile disk (c.info_hash, .json) (fileContent lib config c now .json).1 outcome).2 := rfl

theorem saveBinary_disk (outcome : WriteOutcome) : (saveBinary lib config c now outcome disk).2 =
    (writeFile disk (c.info_hash, binarySuffix lib config)
      (fileContent lib config c now (binarySuffix lib config)).1 outcome).2 := by
  rw [fileContent_binary]
  rfl

/-- A file may be replaced together with its record. -/
theorem Holds.update (h : Holds lib config disk written) {path : Bytes × Suffix}
    {content : Option Bytes} {x : Option TorrentCheckpoint}
    (hx : ∀ c, x = some c → path.1 = c.info_hash ∧ ∃ now,
      (fileContent lib config c now path.2).2 = true ∧
        content = some (fileContent lib config c now path.2).1) :
    Holds lib config (Function.update disk path content) (Function.update written path x) := by
  intro path' c' hc'
  by_cases hpath : path' = path
  · subst hpath
    rw [Function.update_self] at hc' ⊢
    exact hx c' hc'
  · rw [Function.update_of_ne hpath] at hc' ⊢
    exact h path' c' hc'

theorem Holds.forget (h : Holds lib config disk written) (path : Bytes × Suffix)
    (content : Option Bytes) :
    Holds lib config (Function.update disk path content) (Function.update written path none) :=
  h.update fun _ hc => by cases hc

/-- The writing of a file keeps the record right. -/
theorem Holds.writeFile (h : Holds lib config disk written) (c : TorrentCheckpoint) (now : Now)
    (suffix : Suffix) (outcome : WriteOutcome) :
    Holds lib config
      (writeFile disk (c.info_hash, suffix) (fileContent lib config c now suffix).1 outcome).2
      (recordFile written c suffix (fileContent lib config c now suffix).2 outcome) := by
  cases outcome with
  | done =>
    refine h.update fun c' hc' => ?_
    split at hc'
    · next hwhole =>
      obtain rfl := Option.some.inj hc'
      exact ⟨rfl, now, hwhole, rfl⟩
    · cases hc'
  | notOpened => exact h
  | stopped n => exact h.forget _ _

theorem Holds.saveJson (h : Holds lib config disk written) (c : TorrentCheckpoint) (now : Now)
    (outcome : WriteOutcome) : Holds lib config (saveJson lib c now outcome disk).2
      (recordFile written c .json (fileContent lib config c now .json).2 outcome) := by
  rw [saveJson_disk config]
  exact h.writeFile c now .json outcome

theorem Holds.saveBinary (h : Holds lib config disk written) (c : TorrentCheckpoint) (now : Now)
    (outcome : WriteOutcome) : Holds lib config (saveBinary lib config c now outcome disk).2
      (recordFile written c (binarySuffix lib config) (binaryData lib c now).2 outcome) := by
  have hfile := h.writeFile c now (binarySuffix lib config) outcome
  rw [saveBinary_disk]
  rwa [fileContent_binary] at hfile ⊢

/-- A save keeps the record right. -/
theorem Holds.saveAs (h : Holds lib config disk written) (c : TorrentCheckpoint)
    (times : Now × Now) (outcomes : WriteOutcome × WriteOutcome)
    (checkpoint_format : CheckpointFormat) :
    Holds lib config (saveAs lib config c times outcomes disk checkpoint_format).2
      (recordSave lib config disk written c times outcomes checkpoint_format) := by
  cases checkpoint_format with
  | JSON => exact h.saveJson c times.1 outcomes.1
  | BINARY => exact h.saveBinary c times.2 outcomes.2
  | BOTH =>
    have hfirst := h.saveJson c times.1 outcomes.1
    rw [recordSave, Checkpoint.saveAs]
    cases hsaved : Checkpoint.saveJson lib c times.1 outcomes.1 disk with
    | mk saved disk' =>
      rw [hsaved] at hfirst
      cases saved with
      | false => exact hfirst
      | true => exact hfirst.saveBinary c times.2 outcomes.2

/-- Every call keeps the record right. -/
theorem holds_step (s : Recorded) (call : Call) (h : Holds lib config s.manager.disk s.written) :
    Holds lib config (s.step lib config call).manager.disk (s.step lib config call).written := by
  cases call with
  | save_checkpoint c checkpoint_format times outcomes =>
    rw [Recorded.step, saveCheckpoint]
    dsimp only
    cases skips lib config s.manager c with
    | true => exact h
    | false => exact h.saveAs c times outcomes (checkpoint_format.getD config.checkpoint_format)
  | load_checkpoint => exact h
  | delete_checkpoint info_hash => exact (h.forget _ none).forget _ none

theorem holds_new (disk : Disk) : Holds lib config disk (Recorded.new disk).written :=
  fun _ _ h => by cases h

end Invariant

end Checkpoint

end Ccbt

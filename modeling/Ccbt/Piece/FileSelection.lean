import Ccbt.Piece.FileMapping

/-!
# Which files are wanted: `FileSelectionManager` of `piece/file_selection.py`

Padding files have no state. A file whose state is missing counts as not selected and as of
normal priority.
-/

namespace Ccbt

open Python Torrent

namespace Piece

inductive FilePriority
  | DO_NOT_DOWNLOAD
  | LOW
  | NORMAL
  | HIGH
  | MAXIMUM
  deriving DecidableEq

def FilePriority.value : FilePriority → Nat
  | DO_NOT_DOWNLOAD => 0
  | LOW => 1
  | NORMAL => 2
  | HIGH => 3
  | MAXIMUM => 4

structure FileSelectionState where
  file_index : Nat
  selected : Bool := true
  priority : FilePriority := .NORMAL
  bytes_downloaded : Int := 0
  bytes_total : Int := 0

structure FileSelectionManager where
  mapper : PieceToFileMapper
  file_states : Dict Nat FileSelectionState

namespace FileSelectionManager

def addState (states : Dict Nat FileSelectionState) (file_info : FileInfo) (file_index : Nat) :
    Dict Nat FileSelectionState :=
  if file_info.isPadding then states
  else states.set file_index { file_index := file_index, bytes_total := file_info.length }

def initialStates (files : List FileInfo) : Dict Nat FileSelectionState :=
  files.zipIdx.foldl (fun states (file_info, file_index) => addState states file_info file_index)
    .empty

/-- `FileSelectionManager(torrent_info)` -/
def ofTorrent (t : TorrentInfo) : FileSelectionManager where
  mapper := .ofTorrent t
  file_states := initialStates t.files

variable (fm : FileSelectionManager)

def modifyState (file_index : Nat) (f : FileSelectionState → FileSelectionState) :
    FileSelectionManager :=
  match fm.file_states.get? file_index with
  | some state => { fm with file_states := fm.file_states.set file_index (f state) }
  | none => fm

def selectFile (file_index : Nat) : FileSelectionManager :=
  fm.modifyState file_index fun state => { state with selected := true }

def deselectFile (file_index : Nat) : FileSelectionManager :=
  fm.modifyState file_index fun state => { state with selected := false }

def setFilePriority (file_index : Nat) (priority : FilePriority) : FileSelectionManager :=
  fm.modifyState file_index fun state => { state with priority := priority }

def updateFileProgress (file_index : Nat) (bytes_downloaded : Int) : FileSelectionManager :=
  fm.modifyState file_index fun state => { state with bytes_downloaded := bytes_downloaded }

def isFileSelected (file_index : Nat) : Bool :=
  match fm.file_states.get? file_index with
  | none => false
  | some state => state.selected

def getFilePriority (file_index : Nat) : FilePriority :=
  match fm.file_states.get? file_index with
  | none => .NORMAL
  | some state => state.priority

def isPieceNeeded (piece_index : Nat) : Bool :=
  match fm.mapper.piece_to_files.get? piece_index with
  | none => true
  | some segments => segments.any fun s => fm.isFileSelected s.file_index

def getPiecePriority (piece_index : Nat) : Nat :=
  match fm.mapper.piece_to_files.get? piece_index with
  | none => 0
  | some segments => segments.foldl (fun max_priority s =>
      if fm.isFileSelected s.file_index then
        max max_priority (fm.getFilePriority s.file_index).value
      else max_priority) FilePriority.DO_NOT_DOWNLOAD.value

def getFilesForPiece (piece_index : Nat) : List Nat :=
  (fm.mapper.segments piece_index).map Segment.file_index

/-- `get_file_state(file_index).bytes_downloaded` of a file that has a state. -/
def bytesDownloaded (file_index : Nat) : Option Int :=
  (fm.file_states.get? file_index).map FileSelectionState.bytes_downloaded

theorem get?_modifyState (file_index j : Nat) (f : FileSelectionState → FileSelectionState) :
    (fm.modifyState file_index f).file_states.get? j =
      if j = file_index then (fm.file_states.get? j).map f else fm.file_states.get? j := by
  unfold modifyState
  split
  · next state h =>
    rw [Dict.get?_set]
    split
    · next hj => rw [hj, h, Option.map_some]
    · rfl
  · next h =>
    split
    · next hj => rw [hj, h, Option.map_none]
    · rfl

@[simp] theorem mapper_modifyState (file_index : Nat)
    (f : FileSelectionState → FileSelectionState) :
    (fm.modifyState file_index f).mapper = fm.mapper := by
  unfold modifyState
  split <;> rfl

@[simp] theorem mapper_updateFileProgress (file_index : Nat) (n : Int) :
    (fm.updateFileProgress file_index n).mapper = fm.mapper :=
  fm.mapper_modifyState file_index _

theorem bytesDownloaded_updateFileProgress (file_index j : Nat) (n : Int) :
    (fm.updateFileProgress file_index n).bytesDownloaded j =
      if j = file_index then (fm.bytesDownloaded j).map fun _ => n else fm.bytesDownloaded j := by
  rw [bytesDownloaded, updateFileProgress, get?_modifyState]
  split
  · rw [Option.map_map, bytesDownloaded, Option.map_map]
    rfl
  · rfl

section InitialStates

variable {files : List FileInfo} {file : FileInfo} {states : Dict Nat FileSelectionState}
  {n j k : Nat}

theorem get?_addState (h : j ≠ n) : (addState states file n).get? j = states.get? j := by
  unfold addState
  split
  · rfl
  · exact Dict.get?_set_ne _ h _

theorem get?_foldl_addState_of_lt (h : j < n) :
    ((files.zipIdx n).foldl (fun states (file_info, file_index) =>
      addState states file_info file_index) states).get? j = states.get? j := by
  induction files generalizing n states with
  | nil => rfl
  | cons file files ih =>
    rw [List.zipIdx_cons, List.foldl_cons, ih (h.trans n.lt_succ_self), get?_addState h.ne]

theorem get?_foldl_addState (hfile : files[k]? = some file) (hpad : file.isPadding = false) :
    ((files.zipIdx n).foldl (fun states (file_info, file_index) =>
      addState states file_info file_index) states).get? (n + k) =
      some { file_index := n + k, bytes_total := file.length } := by
  induction files generalizing n k states with
  | nil => cases hfile
  | cons first files ih =>
    rw [List.zipIdx_cons, List.foldl_cons]
    cases k with
    | zero =>
      obtain rfl : first = file := Option.some.inj hfile
      rw [get?_foldl_addState_of_lt (by omega)]
      simp [addState, hpad]
    | succ k => rw [← add_assoc, add_right_comm, ih hfile]

end InitialStates

/-- Every file that is no padding starts with nothing downloaded. -/
theorem bytesDownloaded_ofTorrent {t : TorrentInfo} {f : Nat} {file : FileInfo}
    (hfile : t.files[f]? = some file) (hpad : file.isPadding = false) :
    (ofTorrent t).bytesDownloaded f = some 0 := by
  have hstates : (initialStates t.files).get? f =
      some { file_index := f, bytes_total := file.length } := by
    have hloop : (initialStates t.files).get? (0 + f) =
        some { file_index := 0 + f, bytes_total := file.length } := get?_foldl_addState hfile hpad
    rwa [zero_add] at hloop
  simp only [bytesDownloaded, ofTorrent, hstates, Option.map_some]

end FileSelectionManager

end Piece

end Ccbt

import Ccbt.Python.Bytes
import Ccbt.Storage.WriteSequence

/-!
# Batched writes

How `DiskIOManager` of `ccbt/storage/disk_io.py` writes the requests for one file: they are sorted
by offset and combined into runs, a small gap being filled with zeros, and the runs go through a
staging buffer. `_write_combined_sync` does what it is asked for (`writeCombinedSync_eq`), call by
call (`StagingLoop.run_leaves_writes`); the combined runs are not always what the requests ask for.
-/

namespace Ccbt.Storage

open Python PositionalWrite

/-- A request to write data into a file, as far as what is written depends on it. -/
structure WriteRequest where
  offset : Nat
  data : Bytes
  deriving DecidableEq, Repr

/-- The positional write that the request asks for. -/
def WriteRequest.write (req : WriteRequest) : Nat × Bytes := (req.offset, req.data)

section Combine

variable (write_contiguous_threshold : Nat)

/-- The loop of `_combine_contiguous_writes`. -/
def combineLoop : Nat → Bytes → List WriteRequest → List (Nat × Bytes)
  | current_offset, current_data, [] => [(current_offset, current_data)]
  | current_offset, current_data, req :: writes =>
    let gap : Int := req.offset - (current_offset + current_data.length)
    if gap ≤ write_contiguous_threshold then
      -- merge, with the gap filled with zeros if there is one
      let filled :=
        if gap > 0 then current_data ++ List.replicate gap.toNat 0 else current_data
      combineLoop current_offset (filled ++ req.data) writes
    else (current_offset, current_data) :: combineLoop req.offset req.data writes

def combineContiguousWrites (writes : List WriteRequest) : List (Nat × Bytes) :=
  match sortOn WriteRequest.offset writes with
  | [] => []
  | req :: writes => combineLoop write_contiguous_threshold req.offset req.data writes

end Combine

section WriteCombined

/-- The state of the loop of `_write_combined_sync`: the file, the octets in the staging buffer up
to `buf_pos`, and the run. -/
structure Staging where
  file : Bytes
  buffer : Bytes
  run_start : Option Nat
  prev_end : Option Nat

def Staging.flushRun (s : Staging) : Staging :=
  match s.run_start with
  | none => s
  | some start =>
    if s.buffer = [] then s
    else { s with file := pwrite 0 s.file start s.buffer, run_start := none, buffer := [] }

/-- Flush the run and start one at the offset. -/
def Staging.restart (s : Staging) (offset : Nat) : Staging :=
  { s.flushRun with run_start := some offset, prev_end := some offset }

/-- If there is no active run, one is started. -/
def Staging.activate (s : Staging) (offset : Nat) : Staging :=
  if s.run_start = none then
    { s with run_start := some offset, prev_end := some offset, buffer := [] }
  else s

/-- If the write is not contiguous with the run, a new run is started. -/
def Staging.align (s : Staging) (offset : Nat) : Staging :=
  if s.prev_end ≠ some offset then s.restart offset else s

/-- If the data do not fit into the buffer, it is flushed. -/
def Staging.makeRoom (s : Staging) (size offset data_len : Nat) : Staging :=
  if s.buffer.length + data_len > size then s.restart offset else s

/-- A round of the loop, with a staging buffer of `size` octets. -/
def Staging.round (size : Nat) (s : Staging) (write : Nat × Bytes) : Staging :=
  let offset := write.1
  let data := write.2
  let s := (s.activate offset).align offset
  if data.length ≥ size then
    let s := s.flushRun
    { s with
      file := pwrite 0 s.file offset data, run_start := none
      prev_end := some (offset + data.length) }
  else
    let s := s.makeRoom size offset data.length
    { s with buffer := s.buffer ++ data, prev_end := some (offset + data.length) }

/-- `max(offset + len(data) for offset, data in combined_writes)`. -/
def maxOffset (combined_writes : List (Nat × Bytes)) : Nat :=
  combined_writes.foldr (fun w n => max (w.1 + w.2.length) n) 0

/-- `_write_combined_sync`, without an error of the operating system. A file that is not there is
created with zeros up to the end of the writes. -/
def writeCombinedSync (size : Nat) (file : Option Bytes) (combined_writes : List (Nat × Bytes)) :
    Bytes :=
  let file := file.getD (List.replicate (maxOffset combined_writes) 0)
  (combined_writes.foldl (Staging.round size) ⟨file, [], none, none⟩).flushRun.file

/-- What `_flush_file_writes` makes of a file, with nothing in the ring buffer of the thread. -/
def flushFileWrites (write_contiguous_threshold size : Nat) (file : Option Bytes)
    (writes_to_process : List WriteRequest) : Option Bytes :=
  if writes_to_process = [] then file
  else
    let sorted := sortOn WriteRequest.offset writes_to_process
    some (writeCombinedSync size file
      (combineContiguousWrites write_contiguous_threshold sorted))

/-- The requests as positional writes, one after the other in the order of submission. -/
def sequentialWrites (file : Option Bytes) (writes : List WriteRequest) : Option Bytes :=
  if writes = [] then file
  else some (writeAll 0 (file.getD []) (writes.map WriteRequest.write))

end WriteCombined

section Staging

namespace Staging

/-- The run in the buffer ends where the last write has ended. -/
structure Consistent (s : Staging) : Prop where
  idle : s.run_start = none → s.buffer = []
  active : ∀ start, s.run_start = some start → s.prev_end = some (start + s.buffer.length)

/-- The file when the buffer has been written to it. -/
def flushed (s : Staging) : Bytes := s.flushRun.file

/-- There is a run, and it ends at the offset. -/
structure EndsAt (s : Staging) (offset : Nat) : Prop extends Consistent s where
  run : ∃ start, s.run_start = some start ∧ start + s.buffer.length = offset

variable {s : Staging} {size offset : Nat} {data : Bytes}

theorem flushed_eq {start : Nat} (h : s.run_start = some start) :
    s.flushed = pwrite 0 s.file start s.buffer := by
  rw [flushed, flushRun, h]
  dsimp only
  split
  · next hnil => rw [hnil, pwrite_nil]
  · rfl

/-- Data that come behind those in the buffer are flushed behind them. -/
theorem flushed_append {start : Nat} (h : s.run_start = some start) (data : Bytes)
    (prev_end : Option Nat) :
    { s with buffer := s.buffer ++ data, prev_end := prev_end : Staging }.flushed =
      pwrite 0 s.flushed (start + s.buffer.length) data := by
  rw [flushed_eq h, pwrite_append]
  exact flushed_eq h

theorem flushed_of_idle (h : s.run_start = none) : s.flushed = s.file := by
  rw [flushed, flushRun, h]

theorem flushRun_buffer (h : s.Consistent) : s.flushRun.buffer = [] := by
  rw [flushRun]
  split
  · next hidle => exact h.idle hidle
  · split
    · next hnil => exact hnil
    · rfl

/-- A run that has nothing in the buffer. -/
theorem endsAt_fresh {s : Staging} (hstart : s.run_start = some offset)
    (hend : s.prev_end = some offset) (hbuffer : s.buffer = []) : s.EndsAt offset where
  idle := fun h => by simp [hstart] at h
  active := fun start h => by
    rw [hstart, Option.some.injEq] at h
    rw [hbuffer, hend, h, List.length_nil, Nat.add_zero]
  run := ⟨offset, hstart, by rw [hbuffer, List.length_nil, Nat.add_zero]⟩

theorem restart_spec (h : s.Consistent) (offset : Nat) :
    (s.restart offset).EndsAt offset ∧ (s.restart offset).flushed = s.flushed := by
  have hbuffer := flushRun_buffer h
  refine ⟨endsAt_fresh rfl rfl hbuffer, ?_⟩
  have hrestart : (s.restart offset).flushed =
      pwrite 0 s.flushRun.file offset s.flushRun.buffer := flushed_eq rfl
  rw [hrestart, hbuffer, pwrite_nil, flushed]

theorem activate_spec (h : s.Consistent) (offset : Nat) : (s.activate offset).Consistent ∧
    (s.activate offset).run_start ≠ none ∧ (s.activate offset).flushed = s.flushed := by
  rw [activate]
  split
  · next hidle =>
    refine ⟨(endsAt_fresh rfl rfl rfl).toConsistent, by simp, ?_⟩
    have hfresh : ({ s with run_start := some offset, prev_end := some offset
                            buffer := [] } : Staging).flushed = pwrite 0 s.file offset [] :=
      flushed_eq rfl
    rw [hfresh, pwrite_nil, flushed_of_idle hidle]
  · next hactive => exact ⟨h, hactive, rfl⟩

theorem align_spec (h : s.Consistent) (hactive : s.run_start ≠ none) (offset : Nat) :
    (s.align offset).EndsAt offset ∧ (s.align offset).flushed = s.flushed := by
  rw [align]
  split
  · exact restart_spec h offset
  · next hend =>
    obtain ⟨start, hstart⟩ := Option.ne_none_iff_exists'.mp hactive
    refine ⟨⟨h, start, hstart, ?_⟩, rfl⟩
    rw [not_not, h.active start hstart, Option.some.injEq] at hend
    exact hend

theorem makeRoom_spec (h : s.EndsAt offset) (size data_len : Nat) :
    (s.makeRoom size offset data_len).EndsAt offset ∧
      (s.makeRoom size offset data_len).flushed = s.flushed := by
  rw [makeRoom]
  split
  · exact restart_spec h.toConsistent offset
  · exact ⟨h, rfl⟩

/-- A round adds its write to those that are flushed. -/
theorem round_spec (h : s.Consistent) (size : Nat) (write : Nat × Bytes) :
    (s.round size write).Consistent ∧
      (s.round size write).flushed = pwrite 0 s.flushed write.1 write.2 := by
  obtain ⟨offset, data⟩ := write
  obtain ⟨hactivate, hactive, hflushed⟩ := activate_spec h offset
  obtain ⟨halign, hflushed'⟩ := align_spec hactivate hactive offset
  rw [round]
  dsimp only
  split
  · refine ⟨⟨fun _ => flushRun_buffer halign.toConsistent, fun start hstart => ?_⟩, ?_⟩
    · simp at hstart
    · rw [flushed_of_idle rfl, ← hflushed, ← hflushed', flushed]
  · obtain ⟨hroom, hflushed''⟩ := makeRoom_spec halign size data.length
    obtain ⟨start, hstart, hend⟩ := hroom.run
    refine ⟨⟨fun hnone => by simp [hstart] at hnone, fun start' hstart' => ?_⟩, ?_⟩
    · rw [hstart, Option.some.injEq] at hstart'
      rw [← hstart', List.length_append, ← Nat.add_assoc, hend]
    · rw [flushed_append hstart, hend, hflushed'', hflushed', hflushed]

/-- The loop writes what it is given, one write after the other. -/
theorem foldl_round (h : s.Consistent) (combined_writes : List (Nat × Bytes)) :
    (combined_writes.foldl (round size) s).flushed = writeAll 0 s.flushed combined_writes := by
  induction combined_writes generalizing s with
  | nil => rfl
  | cons write writes ih =>
    obtain ⟨hround, hflushed⟩ := round_spec h size write
    rw [List.foldl_cons, ih hround, hflushed, writeAll_cons]

end Staging

/-- The staging buffer makes no difference. -/
theorem writeCombinedSync_eq (size : Nat) (file : Option Bytes)
    (combined_writes : List (Nat × Bytes)) : writeCombinedSync size file combined_writes =
      writeAll 0 (file.getD (List.replicate (maxOffset combined_writes) 0)) combined_writes :=
  Staging.foldl_round ⟨fun _ => rfl, fun start h => by simp at h⟩ combined_writes

end Staging

section Calls

inductive FileCall
  | lseek (offset : Nat)
  | write (data : Bytes)
  deriving DecidableEq, Repr

/-- An open file: its octets and where the descriptor stands. -/
structure OpenFile where
  octets : Bytes
  position : Nat
  deriving DecidableEq, Repr

/-- What a call does to the file, `os.write` writing everything. -/
def OpenFile.call (f : OpenFile) : FileCall → OpenFile
  | .lseek offset => { f with position := offset }
  | .write data => ⟨pwrite 0 f.octets f.position data, f.position + data.length⟩

/-- What calls do to the file, one after the other. -/
def OpenFile.run (f : OpenFile) (calls : List FileCall) : OpenFile := calls.foldl OpenFile.call f

/-- The variables of the loop of `_write_combined_sync` with the whole of the staging buffer, the
statistics, and the calls made so far. Behind `buf_pos` the buffer holds what was left there. -/
structure StagingLoop where
  calls : List FileCall
  writes : Nat
  bytes_written : Nat
  buffer : Bytes
  buf_pos : Nat
  run_start : Option Nat
  prev_end : Option Nat
  deriving DecidableEq, Repr

namespace StagingLoop

def flushRun (s : StagingLoop) : StagingLoop :=
  match s.run_start with
  | none => s
  | some start =>
    if s.buf_pos = 0 then s
    else
      { s with
        calls := s.calls ++ [.lseek start, .write (s.buffer.take s.buf_pos)]
        writes := s.writes + 1, bytes_written := s.bytes_written + s.buf_pos
        run_start := none, buf_pos := 0 }

/-- `flush_run`, and a run that starts at the offset. -/
def restart (s : StagingLoop) (offset : Nat) : StagingLoop :=
  { s.flushRun with run_start := some offset, prev_end := some offset }

/-- `if run_start is None`. -/
def activate (s : StagingLoop) (offset : Nat) : StagingLoop :=
  if s.run_start = none then
    { s with run_start := some offset, prev_end := some offset, buf_pos := 0 }
  else s

/-- `if prev_end is None or offset != prev_end`. -/
def align (s : StagingLoop) (offset : Nat) : StagingLoop :=
  if s.prev_end ≠ some offset then s.restart offset else s

/-- `if data_len >= len(buffer)`: the data are written directly. -/
def writeDirectly (s : StagingLoop) (offset : Nat) (data : Bytes) : StagingLoop :=
  let s := s.flushRun
  { s with
    calls := s.calls ++ [.lseek offset, .write data]
    writes := s.writes + 1, bytes_written := s.bytes_written + data.length
    run_start := none, prev_end := some (offset + data.length) }

/-- `if buf_pos + data_len > len(buffer)`. -/
def makeRoom (s : StagingLoop) (offset data_len : Nat) : StagingLoop :=
  if s.buf_pos + data_len > s.buffer.length then s.restart offset else s

/-- The data are copied into the buffer at `buf_pos`. -/
def stage (s : StagingLoop) (offset : Nat) (data : Bytes) : StagingLoop :=
  { s with
    buffer := s.buffer.take s.buf_pos ++ data ++ s.buffer.drop (s.buf_pos + data.length)
    buf_pos := s.buf_pos + data.length, prev_end := some (offset + data.length) }

/-- A round of the loop. -/
def round (s : StagingLoop) (write : Nat × Bytes) : StagingLoop :=
  let offset := write.1
  let data := write.2
  let s := (s.activate offset).align offset
  if data.length ≥ s.buffer.length then s.writeDirectly offset data
  else (s.makeRoom offset data.length).stage offset data

/-- The loop over the writes and the last `flush_run`, with the statistics before it and what the
buffer of the thread holds. -/
def run (writes bytes_written : Nat) (buffer : Bytes) (combined_writes : List (Nat × Bytes)) :
    StagingLoop :=
  (combined_writes.foldl round ⟨[], writes, bytes_written, buffer, 0, none, none⟩).flushRun

/-- The buffer keeps its size, and the position is in it. -/
structure Fits (size : Nat) (s : StagingLoop) : Prop where
  length : s.buffer.length = size
  position : s.buf_pos ≤ size

/-- What the loop amounts to, its calls made on a file. -/
def staging (s : StagingLoop) (f : OpenFile) : Staging :=
  ⟨(f.run s.calls).octets, s.buffer.take s.buf_pos, s.run_start, s.prev_end⟩

/-- The octets that are written or in the buffer. -/
def accepted (s : StagingLoop) : Nat := s.bytes_written + s.buf_pos

/-- The loop does what `Staging` does in a round, and takes `n` octets more. -/
structure Follows (size : Nat) (f : OpenFile) (s : StagingLoop) (after : Staging) (n : Nat)
    (s' : StagingLoop) : Prop where
  fits : s'.Fits size
  staging_eq : s'.staging f = after
  accepted_eq : s'.accepted = s.accepted + n

variable {s : StagingLoop} {size : Nat}

/-- To seek and to write is to write at the offset. -/
theorem octets_run (f : OpenFile) (calls : List FileCall) (offset : Nat) (data : Bytes) :
    (f.run (calls ++ [.lseek offset, .write data])).octets =
      pwrite 0 (f.run calls).octets offset data := by
  rw [OpenFile.run, List.foldl_append]
  rfl

theorem length_staged (h : s.Fits size) : (s.buffer.take s.buf_pos).length = s.buf_pos := by
  rw [List.length_take, h.length, Nat.min_eq_left h.position]

theorem staged_eq_nil (h : s.Fits size) : s.buffer.take s.buf_pos = [] ↔ s.buf_pos = 0 := by
  rw [← List.length_eq_zero_iff, length_staged h]

theorem flushRun_follows (h : s.Fits size) (f : OpenFile) :
    s.Follows size f (s.staging f).flushRun 0 s.flushRun := by
  have hstaging : (s.staging f).run_start = s.run_start := rfl
  rw [flushRun, Staging.flushRun, hstaging]
  cases hrun : s.run_start with
  | none => exact ⟨h, rfl, rfl⟩
  | some start =>
    by_cases hzero : s.buf_pos = 0
    · have hnil : (s.staging f).buffer = [] := (staged_eq_nil h).mpr hzero
      dsimp only
      rw [if_pos hzero, if_pos hnil]
      exact ⟨h, rfl, rfl⟩
    · have hdata : (s.staging f).buffer ≠ [] := fun hnil => hzero ((staged_eq_nil h).mp hnil)
      dsimp only
      rw [if_neg hzero, if_neg hdata]
      refine ⟨⟨h.length, Nat.zero_le size⟩, ?_, rfl⟩
      rw [staging, octets_run]
      rfl

theorem restart_follows (h : s.Fits size) (f : OpenFile) (offset : Nat) :
    s.Follows size f ((s.staging f).restart offset) 0 (s.restart offset) := by
  obtain ⟨hfits, hstaging, haccepted⟩ := flushRun_follows h f
  refine ⟨⟨hfits.length, hfits.position⟩, ?_, haccepted⟩
  rw [Staging.restart, ← hstaging]
  rfl

/-- A loop without a run has nothing in the buffer, so that nothing is lost by `buf_pos = 0`. -/
theorem activate_follows (h : s.Fits size) {f : OpenFile} (hidle : (s.staging f).Consistent)
    (offset : Nat) : s.Follows size f ((s.staging f).activate offset) 0 (s.activate offset) := by
  have hstaging : (s.staging f).run_start = s.run_start := rfl
  rw [activate, Staging.activate, hstaging]
  split
  · next hrun =>
    have hzero : s.buf_pos = 0 := (staged_eq_nil h).mp (hidle.idle hrun)
    refine ⟨⟨h.length, Nat.zero_le size⟩, rfl, ?_⟩
    rw [accepted, accepted, hzero]
    rfl
  · exact ⟨h, rfl, rfl⟩

theorem align_follows (h : s.Fits size) (f : OpenFile) (offset : Nat) :
    s.Follows size f ((s.staging f).align offset) 0 (s.align offset) := by
  have hstaging : (s.staging f).prev_end = s.prev_end := rfl
  rw [align, Staging.align, hstaging]
  split
  · exact restart_follows h f offset
  · exact ⟨h, rfl, rfl⟩

theorem makeRoom_follows (h : s.Fits size) (f : OpenFile) (offset data_len : Nat) :
    s.Follows size f ((s.staging f).makeRoom size offset data_len) 0
      (s.makeRoom offset data_len) := by
  have hstaging : (s.staging f).buffer.length = s.buf_pos := length_staged h
  rw [makeRoom, Staging.makeRoom, hstaging, h.length]
  split
  · exact restart_follows h f offset
  · exact ⟨h, rfl, rfl⟩

/-- Nothing is left in the buffer when it has been flushed. -/
theorem buf_pos_flushRun (h : s.Fits size) {f : OpenFile} (hidle : (s.staging f).Consistent) :
    s.flushRun.buf_pos = 0 := by
  have hflush := flushRun_follows h f
  have hbuffer := Staging.flushRun_buffer hidle
  rw [← hflush.staging_eq] at hbuffer
  exact (staged_eq_nil hflush.fits).mp hbuffer

/-- There is room for data that are smaller than the buffer. -/
theorem buf_pos_makeRoom (h : s.Fits size) {f : OpenFile} (hidle : (s.staging f).Consistent)
    (offset : Nat) {data_len : Nat} (hsmall : data_len < size) :
    (s.makeRoom offset data_len).buf_pos + data_len ≤ size := by
  rw [makeRoom, h.length]
  split
  · have hzero : (s.restart offset).buf_pos = 0 := buf_pos_flushRun h hidle
    omega
  · omega

/-- What is copied stands behind what is in the buffer, whatever was there before. -/
theorem stage_follows (h : s.Fits size) (f : OpenFile) (offset : Nat) {data : Bytes}
    (hroom : s.buf_pos + data.length ≤ size) : s.Follows size f
      { s.staging f with
        buffer := (s.staging f).buffer ++ data, prev_end := some (offset + data.length) }
      data.length (s.stage offset data) := by
  have hstaged := length_staged h
  refine ⟨⟨?_, hroom⟩, ?_, (Nat.add_assoc _ _ _).symm⟩
  · show (s.buffer.take s.buf_pos ++ data ++ s.buffer.drop (s.buf_pos + data.length)).length = size
    rw [List.length_append, List.length_append, hstaged, List.length_drop, h.length]
    omega
  · have htake : (s.buffer.take s.buf_pos ++ data ++ s.buffer.drop (s.buf_pos + data.length)).take
        (s.buf_pos + data.length) = s.buffer.take s.buf_pos ++ data :=
      List.take_left' (by rw [List.length_append, hstaged])
    rw [staging, stage, htake]
    rfl

/-- A round is the round of `Staging`, and takes the data. -/
theorem round_follows (h : s.Fits size) {f : OpenFile} (hidle : (s.staging f).Consistent)
    (write : Nat × Bytes) :
    s.Follows size f ((s.staging f).round size write) write.2.length (s.round write) := by
  obtain ⟨offset, data⟩ := write
  obtain ⟨hactivate, hactivated, hcount⟩ := activate_follows h hidle offset
  obtain ⟨halign, haligned, hcount'⟩ := align_follows hactivate f offset
  rw [hactivated] at haligned
  rw [hcount, Nat.add_zero] at hcount'
  rw [round, Staging.round]
  dsimp only
  rw [halign.length, ← haligned]
  split
  · obtain ⟨hflush, hflushed, hcount''⟩ := flushRun_follows halign f
    refine ⟨⟨hflush.length, hflush.position⟩, ?_, ?_⟩
    · rw [writeDirectly, staging, octets_run, ← hflushed]
      rfl
    · rw [Nat.add_zero] at hcount''
      rw [← hcount', ← hcount'']
      exact Nat.add_right_comm _ _ _
  · next hsmall =>
    have hconsistent : (((s.activate offset).align offset).staging f).Consistent := by
      obtain ⟨hactive, hrun, -⟩ := Staging.activate_spec hidle offset
      rw [haligned]
      exact (Staging.align_spec hactive hrun offset).1.toConsistent
    obtain ⟨hroom, hroomed, hcount''⟩ := makeRoom_follows halign f offset data.length
    obtain ⟨hstage, hstaged, hstages⟩ := stage_follows hroom f offset
      (buf_pos_makeRoom halign hconsistent offset (Nat.lt_of_not_le hsmall))
    refine ⟨hstage, ?_, ?_⟩
    · rw [hstaged, hroomed]
    · rw [hstages, hcount'', hcount', Nat.add_zero]

/-- The rounds are those of `Staging`, and take all data. -/
theorem foldl_round_follows (h : s.Fits size) {f : OpenFile} (hidle : (s.staging f).Consistent)
    (combined_writes : List (Nat × Bytes)) :
    s.Follows size f (combined_writes.foldl (Staging.round size) (s.staging f))
        (combined_writes.map fun w => w.2.length).sum (combined_writes.foldl round s) ∧
      (combined_writes.foldl (Staging.round size) (s.staging f)).Consistent := by
  induction combined_writes generalizing s with
  | nil => exact ⟨⟨h, rfl, rfl⟩, hidle⟩
  | cons write writes ih =>
    obtain ⟨hfits, hstaging, hcount⟩ := round_follows h hidle write
    have hround : ((s.round write).staging f).Consistent := by
      rw [hstaging]
      exact (Staging.round_spec hidle size write).1
    obtain ⟨⟨hfits', hstaging', hcount'⟩, hconsistent⟩ := ih hfits hround
    rw [hstaging] at hstaging' hconsistent
    refine ⟨⟨hfits', hstaging', ?_⟩, hconsistent⟩
    rw [List.foldl_cons, hcount', hcount, List.map_cons, List.sum_cons, Nat.add_assoc]

/-- Whatever the buffer of the thread holds and wherever the descriptor stands, the calls of the
loop leave the file as the writes do one after the other, and `bytes_written` grows by their
data. -/
theorem run_leaves_writes (f : OpenFile) (writes bytes_written : Nat) (buffer : Bytes)
    (combined_writes : List (Nat × Bytes)) :
    (f.run (run writes bytes_written buffer combined_writes).calls).octets =
        writeAll 0 f.octets combined_writes ∧
      (run writes bytes_written buffer combined_writes).bytes_written =
        bytes_written + (combined_writes.map fun w => w.2.length).sum := by
  let start : StagingLoop := ⟨[], writes, bytes_written, buffer, 0, none, none⟩
  have hstart : start.Fits buffer.length := ⟨rfl, Nat.zero_le _⟩
  have hidle : (start.staging f).Consistent := ⟨fun _ => rfl, fun run hrun => by simp [start, staging] at hrun⟩
  obtain ⟨⟨hloop, hstaging, hcount⟩, hconsistent⟩ :=
    foldl_round_follows hstart hidle combined_writes
  obtain ⟨-, hflushed, hcount'⟩ := flushRun_follows hloop f
  rw [← hstaging] at hconsistent
  rw [hstaging] at hflushed
  constructor
  · have hfile := congrArg Staging.file hflushed
    exact hfile.trans (Staging.foldl_round hidle combined_writes)
  · have hzero := buf_pos_flushRun hloop hconsistent
    rw [accepted, hzero] at hcount'
    exact hcount'.trans hcount

end StagingLoop

end Calls

section Placement

/-- Where the loop over the sorted requests puts things, with the last run up to `e`: every request
behind the one before it if the gap is small, and zeros into the gap. -/
def place (threshold : Nat) : Nat → List WriteRequest → List (Nat × Bytes)
  | _, [] => []
  | e, req :: writes =>
    if req.offset ≤ e then (e, req.data) :: place threshold (e + req.data.length) writes
    else if req.offset ≤ e + threshold then
      (e, List.replicate (req.offset - e) 0) :: (req.offset, req.data) ::
        place threshold (req.offset + req.data.length) writes
    else (req.offset, req.data) :: place threshold (req.offset + req.data.length) writes

/-- The combined runs write what is placed. -/
theorem writeAll_combineLoop (threshold : Nat) (file : Bytes) (current_offset : Nat)
    (current_data : Bytes) (writes : List WriteRequest) :
    writeAll 0 file (combineLoop threshold current_offset current_data writes) =
      writeAll 0 (pwrite 0 file current_offset current_data)
        (place threshold (current_offset + current_data.length) writes) := by
  induction writes generalizing file current_offset current_data with
  | nil => rfl
  | cons req writes ih =>
    rw [combineLoop, place]
    dsimp only
    by_cases hbehind : req.offset ≤ current_offset + current_data.length
    · rw [if_pos (by omega), if_neg (by omega), ih, if_pos hbehind, writeAll_cons, ← pwrite_append,
        List.length_append, Nat.add_assoc]
    · by_cases hsmall : req.offset ≤ current_offset + current_data.length + threshold
      · have hgap : ((req.offset : Int) - (current_offset + current_data.length)).toNat =
            req.offset - (current_offset + current_data.length) := by omega
        have hend : current_offset + (current_data ++ List.replicate
            (req.offset - (current_offset + current_data.length)) 0).length = req.offset := by
          rw [List.length_append, List.length_replicate]
          omega
        rw [if_pos (by omega), if_pos (by omega), hgap, ih, if_neg hbehind, if_pos hsmall,
          writeAll_cons, writeAll_cons, pwrite_append, ← pwrite_append _ _ (_ ++ _), hend,
          List.length_append, ← Nat.add_assoc, hend]
      · rw [if_neg (by omega), if_neg hbehind, if_neg hsmall, writeAll_cons, writeAll_cons, ih]

/-- What the loop puts down stands at the last end or behind it. -/
theorem le_of_mem_place {threshold e : Nat} {writes : List WriteRequest} {w : Nat × Bytes}
    (h : w ∈ place threshold e writes) : e ≤ w.1 := by
  induction writes generalizing e with
  | nil => simp [place] at h
  | cons req writes ih =>
    rw [place] at h
    split at h
    · obtain rfl | h := List.mem_cons.mp h
      · exact Nat.le_refl e
      · have hle := ih h
        omega
    · split at h
      · simp only [List.mem_cons] at h
        obtain rfl | rfl | h := h
        · exact Nat.le_refl e
        · show e ≤ req.offset
          omega
        · have hle := ih h
          omega
      · obtain rfl | h := List.mem_cons.mp h
        · show e ≤ req.offset
          omega
        · have hle := ih h
          omega

def fills (threshold : Nat) : Nat → List WriteRequest → List (Nat × Bytes)
  | _, [] => []
  | e, req :: writes =>
    if req.offset ≤ e then fills threshold (e + req.data.length) writes
    else if req.offset ≤ e + threshold then
      (e, List.replicate (req.offset - e) 0) ::
        fills threshold (req.offset + req.data.length) writes
    else fills threshold (req.offset + req.data.length) writes

theorem le_of_mem_fills {threshold e : Nat} {writes : List WriteRequest} {w : Nat × Bytes}
    (h : w ∈ fills threshold e writes) : e ≤ w.1 := by
  have hplace : ∀ (e : Nat) (writes : List WriteRequest), w ∈ fills threshold e writes →
      w ∈ place threshold e writes := by
    intro e writes h
    induction writes generalizing e with
    | nil => exact h
    | cons req writes ih =>
      rw [fills] at h
      rw [place]
      split
      · next hle =>
        rw [if_pos hle] at h
        exact List.mem_cons_of_mem _ (ih _ h)
      · next hle =>
        rw [if_neg hle] at h
        split
        · next hsmall =>
          rw [if_pos hsmall] at h
          obtain rfl | h := List.mem_cons.mp h
          · exact List.mem_cons_self
          · exact List.mem_cons_of_mem _ (List.mem_cons_of_mem _ (ih _ h))
        · next hsmall =>
          rw [if_neg hsmall] at h
          exact List.mem_cons_of_mem _ (ih _ h)
  exact le_of_mem_place (hplace e writes h)

/-- Some request with data is put down behind its offset, where the one before it has ended. -/
def Shifted : Nat → List WriteRequest → Prop
  | _, [] => False
  | e, req :: writes =>
    (req.offset < e ∧ req.data ≠ []) ∨
      Shifted (if req.offset ≤ e then e + req.data.length else req.offset + req.data.length) writes

/-- Requests that stand where they belong, up to the zeros that are filled in first. -/
theorem writeAll_place {threshold e : Nat} {writes : List WriteRequest} (h : ¬Shifted e writes)
    (file : Bytes) : writeAll 0 file (place threshold e writes) =
      writeAll 0 (writeAll 0 file (fills threshold e writes)) (writes.map WriteRequest.write) := by
  induction writes generalizing e file with
  | nil => rfl
  | cons req writes ih =>
    rw [Shifted, not_or] at h
    obtain ⟨hhead, htail⟩ := h
    -- the zeros of later gaps do not touch the request
    have hcomm : ∀ (file : Bytes) (e : Nat), req.offset + req.data.length ≤ e →
        pwrite 0 (writeAll 0 file (fills threshold e writes)) req.offset req.data =
          writeAll 0 (pwrite 0 file req.offset req.data) (fills threshold e writes) := by
      intro file e he
      refine pwrite_writeAll (w := req.write) (fun w' hw' k hk hk' => ?_) file
      have hle := le_of_mem_fills hw'
      have hlt : k < req.offset + req.data.length := hk.2
      have hge : w'.1 ≤ k := hk'.1
      omega
    rw [List.map_cons, writeAll_cons, place, fills]
    by_cases hle : req.offset ≤ e
    · rw [if_pos hle] at htail
      rw [if_pos hle, if_pos hle, writeAll_cons, ih htail]
      by_cases hnil : req.data = []
      · simp only [WriteRequest.write, hnil, pwrite_nil]
      · have heq : req.offset = e := by
          by_contra hne
          exact hhead ⟨by omega, hnil⟩
        rw [← heq, ← hcomm file _ (Nat.le_refl _)]
        rfl
    · rw [if_neg hle] at htail
      rw [if_neg hle, if_neg hle]
      split
      · rw [writeAll_cons, writeAll_cons, writeAll_cons, ih htail, ← hcomm _ _ (Nat.le_refl _)]
        rfl
      · rw [writeAll_cons, ih htail, ← hcomm _ _ (Nat.le_refl _)]
        rfl

end Placement

end Ccbt.Storage

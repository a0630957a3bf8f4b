import Ccbt.Python.Bytes

/-!
# What peers are served from

`AsyncPieceManager.get_block` finds blocks of verified pieces in memory, and
`AsyncFileAssembler.read_block`, a coroutine, reads them back from the files.
-/

namespace Ccbt

open Python

inductive PieceState
  | MISSING
  | REQUESTED
  | DOWNLOADING
  | COMPLETE
  | VERIFIED
  deriving DecidableEq

structure PieceBlock where
  begin : Nat
  length : Nat
  data : Bytes := []

structure PieceData where
  length : Nat
  blocks : List PieceBlock
  state : PieceState := .MISSING

structure FileSegment where
  file_path : String
  start_offset : Nat
  end_offset : Nat
  piece_index : Nat
  piece_offset : Nat

/-- `disk_io.read_block(path, offset, length)`, `none` where it raises. -/
abbrev DiskRead := String → Nat → Nat → Option Bytes

structure FileAssembler where
  num_pieces : Nat
  file_segments : List FileSegment
  disk_io : DiskRead

namespace FileAssembler

/-- The reads for a range of a piece: path, offset in the file and length. The range begins at
an offset in the piece and has some octets remaining. -/
def segmentsToRead : List FileSegment → Nat → Nat → List (String × Nat × Nat) × Nat
  | [], _, remaining => ([], remaining)
  | seg :: segs, offset, remaining =>
    if remaining = 0 then ([], 0)
    else
      let overlap_start := max offset seg.piece_offset
      let overlap_end :=
        min (offset + remaining) (seg.piece_offset + (seg.end_offset - seg.start_offset))
      if overlap_start < overlap_end then
        let read_len := overlap_end - overlap_start
        let (reads, left) := segmentsToRead segs overlap_end (remaining - read_len)
        ((seg.file_path, seg.start_offset + (overlap_start - seg.piece_offset), read_len) :: reads,
          left)
      else segmentsToRead segs offset remaining

/-- What awaiting `read_block` gives. -/
def readBlock (fa : FileAssembler) (piece_index begin length : Nat) : Option Bytes :=
  if fa.num_pieces ≤ piece_index then none
  else
    match fa.file_segments.filter fun seg => seg.piece_index = piece_index with
    | [] => none
    | [seg] => fa.disk_io seg.file_path (seg.start_offset + begin) length
    | segs =>
      let (reads, remaining) :=
        segmentsToRead (sortOn FileSegment.piece_offset segs) begin length
      let parts := reads.mapM fun (path, offset, read_len) =>
        (fa.disk_io path offset read_len).filter fun (chunk : Bytes) => chunk.length = read_len
      if remaining = 0 then parts.map List.flatten else none

end FileAssembler

structure PieceManager where
  is_downloading : Bool := false
  /-- Whether `_peer_manager` is set. -/
  peer_manager : Bool := false
  pieces : List PieceData := []
  file_assembler : Option FileAssembler := none

namespace PieceManager

/-- The first block of a piece that holds the beginning of a range, cut at its end. -/
def findBlock (begin length : Nat) : List PieceBlock → Option Bytes
  | [] => none
  | block :: blocks =>
    if block.begin ≤ begin ∧ begin < block.begin + block.length then
      let offset := begin - block.begin
      some (slice block.data offset (min (offset + length) block.length))
    else findBlock begin length blocks

def getBlock (pm : PieceManager) (piece_index begin length : Nat) : Option Bytes :=
  match pm.pieces[piece_index]? with
  | none => none
  | some piece => if piece.state ≠ .VERIFIED then none else findBlock begin length piece.blocks

end PieceManager

end Ccbt

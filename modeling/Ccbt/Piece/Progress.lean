import Ccbt.Piece.Manager
import Ccbt.Transition.Run

/-!
# File progress: what `handle_piece_block` counts

A received block counts for each file of its piece as if it were the whole piece. The sums
that this gives are compared with the octets that the received blocks have of a file.
-/

namespace Ccbt

open Python Torrent Interval Transition

namespace Piece

/-- Piece, offset and length of a block. -/
def PieceBlock.extent (b : PieceBlock) : Nat × Nat × Nat := (b.piece_index, b.begin, b.length)

/-- Where a block with this extent begins in the torrent, -/
def blockStart (t : TorrentInfo) (e : Nat × Nat × Nat) : Int := pieceStart t e.1 + e.2.1

def blockEnd (t : TorrentInfo) (e : Nat × Nat × Nat) : Int := blockStart t e + e.2.2

/-- The arguments of `handle_piece_block`. -/
structure ReceivedBlock where
  piece_index : Nat
  begin : Nat
  data : Bytes

/-- What the parser's torrent gives the manager. -/
def TorrentData.ofTorrent (t : TorrentInfo) : TorrentData where
  num_pieces := t.numPieces
  piece_length := t.pieceLength.toNat
  piece_hashes := t.pieces
  file_info_total_length := some t.totalLength.toNat

namespace AsyncPieceManager

open PieceToFileMapper FileSelectionManager

/-- The manager of a torrent with file selection. -/
def ofTorrent (config : Config) (t : TorrentInfo) : AsyncPieceManager :=
  new config (.ofTorrent t) (some (.ofTorrent t))

def allBlocks (m : AsyncPieceManager) : List PieceBlock := m.pieces.flatMap PieceData.blocks

def receivedBlocks (m : AsyncPieceManager) : List PieceBlock :=
  m.allBlocks.filter PieceBlock.received

def receive (m : AsyncPieceManager) (b : ReceivedBlock) : AsyncPieceManager :=
  (m.handlePieceBlock b.piece_index b.begin b.data).2

/-- The octets of a file that received blocks have. -/
def coveredBytes (t : TorrentInfo) (m : AsyncPieceManager) (f : Nat) (file : FileInfo) : Nat :=
  (List.range file.length.toNat).countP fun k : Nat => ∃ b ∈ m.receivedBlocks,
    blockStart t b.extent ≤ lengthBefore t.files f + k ∧
      lengthBefore t.files f + k < blockEnd t b.extent

/-- The progress of every file that is no padding tells how many of its octets are there. -/
def ProgressExact (t : TorrentInfo) (m : AsyncPieceManager) : Prop :=
  ∃ fm, m.file_selection_manager = some fm ∧ ∀ f file, t.files[f]? = some file →
    file.isPadding = false → fm.bytesDownloaded f = some (coveredBytes t m f file : Int)

/-- The octets that a file has in a piece. -/
def bytesInPiece (t : TorrentInfo) (piece_index file_index : Nat) : Int :=
  ((((PieceToFileMapper.ofTorrent t).segments piece_index).filter
    fun s => s.file_index = file_index).map Segment.length).sum

/-- A block has as many octets of every file as its piece. -/
def SharesWhole (t : TorrentInfo) (e : Nat × Nat × Nat) : Prop :=
  ∀ f file, t.files[f]? = some file → file.isPadding = false →
    overlap (blockStart t e) (blockEnd t e) (lengthBefore t.files f)
      (lengthBefore t.files f + file.length) = bytesInPiece t e.1 f

/-- The block is one that its piece has no data for. -/
def Fits (m : AsyncPieceManager) (b : ReceivedBlock) : Prop :=
  ∃ piece block, m.pieces[b.piece_index]? = some piece ∧
    PieceData.openBlock b.begin piece.blocks = some block ∧ block.length = b.data.length

/-- A block that is taken has as many octets of every file as its piece. -/
def TakesWhole (t : TorrentInfo) (m : AsyncPieceManager) (b : ReceivedBlock) : Prop :=
  Fits m b → SharesWhole t (b.piece_index, b.begin, b.data.length)

section Update

variable {fm : FileSelectionManager} {i f : Nat}

/-- What `handle_piece_block` adds for a file. -/
def bytesForFile (fm : FileSelectionManager) (piece_index file_index : Nat) : Int :=
  (((fm.mapper.segments piece_index).filter fun s => s.file_index = file_index).map
    Segment.length).sum

/-- The turn of the loop of `updateProgress` for one file. -/
def addProgress (piece_index : Nat) (fm : FileSelectionManager) (file_index : Nat) :
    FileSelectionManager :=
  match fm.bytesDownloaded file_index with
  | some current_bytes =>
    fm.updateFileProgress file_index (current_bytes + bytesForFile fm piece_index file_index)
  | none => fm

theorem updateProgress_eq :
    updateProgress fm i = (fm.getFilesForPiece i).foldl (addProgress i) fm := rfl

theorem mapper_addProgress : (addProgress i fm f).mapper = fm.mapper := by
  unfold addProgress
  split
  · exact mapper_updateFileProgress _ _ _
  · rfl

theorem bytesDownloaded_addProgress (j : Nat) : (addProgress i fm f).bytesDownloaded j =
    (fm.bytesDownloaded j).map (· + if j = f then bytesForFile fm i j else 0) := by
  unfold addProgress
  split
  · next current_bytes h =>
    rw [bytesDownloaded_updateFileProgress]
    split
    · next hj =>
      rw [hj, h]
      rfl
    · simp
  · next h =>
    split
    · next hj =>
      rw [hj, h]
      rfl
    · simp

theorem foldl_addProgress {l : List Nat} (hl : l.Nodup) :
    (l.foldl (addProgress i) fm).mapper = fm.mapper ∧
      ∀ j, (l.foldl (addProgress i) fm).bytesDownloaded j =
        (fm.bytesDownloaded j).map (· + if j ∈ l then bytesForFile fm i j else 0) := by
  induction l generalizing fm with
  | nil => simp
  | cons f l ih =>
    obtain ⟨hf, hl⟩ := List.nodup_cons.mp hl
    obtain ⟨hmapper, hbytes⟩ := @ih (addProgress i fm f) hl
    have hsame (j : Nat) : bytesForFile (addProgress i fm f) i j = bytesForFile fm i j := by
      rw [bytesForFile, mapper_addProgress, bytesForFile]
    refine ⟨hmapper.trans mapper_addProgress, fun j => ?_⟩
    rw [List.foldl_cons, hbytes, hsame, bytesDownloaded_addProgress, Option.map_map]
    congr 1
    funext n
    by_cases hj : j = f
    · simp [hj, hf]
    · simp [hj]

/-- A block of a piece counts for every file as much as the file has in the piece. -/
theorem bytesDownloaded_updateProgress (h : (fm.getFilesForPiece i).Nodup) (j : Nat) :
    (updateProgress fm i).bytesDownloaded j =
      (fm.bytesDownloaded j).map (· + bytesForFile fm i j) := by
  rw [updateProgress_eq, (foldl_addProgress h).2]
  split
  · rfl
  · next hj =>
    have hzero : bytesForFile fm i j = 0 := by
      have hnone : (fm.mapper.segments i).filter (fun s => s.file_index = j) = [] := by
        rw [List.filter_eq_nil_iff]
        intro s hs hsj
        exact hj (List.mem_map.mpr ⟨s, hs, of_decide_eq_true hsj⟩)
      rw [bytesForFile, hnone]
      rfl
    rw [hzero]

theorem mapper_updateProgress (h : (fm.getFilesForPiece i).Nodup) :
    (updateProgress fm i).mapper = fm.mapper := by
  rw [updateProgress_eq]
  exact (foldl_addProgress h).1

end Update

section Extents

variable {config : Config} {t : TorrentInfo} {m : AsyncPieceManager} {i : Nat}

def extents (config : Config) (t : TorrentInfo) : List (Nat × Nat × Nat) :=
  (List.range t.numPieces).flatMap fun i =>
    (initialBlocks config.block_size i (initialLength (.ofTorrent t) i)).map PieceBlock.extent

theorem extents_ofTorrent :
    (ofTorrent config t).allBlocks.map PieceBlock.extent = extents config t := by
  have hpieces : (ofTorrent config t).pieces = (List.range t.numPieces).map fun i =>
      newPiece config (ofTorrent config t) i (initialLength (.ofTorrent t) i) := rfl
  rw [allBlocks, hpieces, List.flatMap_map, List.map_flatMap, extents]
  rfl

variable (htotal : t.totalLength = (t.files.map FileInfo.length).sum)
  (hnum : (t.numPieces : Int) = (t.totalLength + t.pieceLength - 1) / t.pieceLength)

include hnum in
/-- The manager makes every piece as long as it is in the torrent. -/
theorem initialLength_ofTorrent (hi : i < t.numPieces) :
    (initialLength (.ofTorrent t) i : Int) = pieceEnd t i - pieceStart t i := by
  have hpos := t.pieceLength_pos
  have hstart := pieceStart_lt hnum hi
  have hcast : ((i * t.pieceLength.toNat : Nat) : Int) = pieceStart t i := by
    rw [Nat.cast_mul, Int.toNat_of_nonneg hpos.le, pieceStart]
  have hnonneg : 0 ≤ pieceStart t i := by
    unfold pieceStart
    positivity
  have hvalue : initialLength (.ofTorrent t) i =
      if i + 1 = t.numPieces then
        if t.totalLength.toNat - i * t.pieceLength.toNat = 0 then t.pieceLength.toNat
        else t.totalLength.toNat - i * t.pieceLength.toNat
      else t.pieceLength.toNat := rfl
  rw [hvalue, pieceEnd]
  by_cases hlast : i + 1 = t.numPieces
  · have hend : t.totalLength ≤ pieceStart t i + t.pieceLength := by
      have hle : t.totalLength + t.pieceLength - 1 < (t.numPieces + 1) * t.pieceLength := by
        rw [hnum]
        exact Int.lt_ediv_add_one_mul_self _ hpos
      have hstarts : ((t.numPieces : Int) + 1) * t.pieceLength =
          pieceStart t i + t.pieceLength + t.pieceLength := by
        rw [← pieceStart_succ, ← pieceStart_succ, pieceStart, hlast]
        rfl
      omega
    rw [if_pos hlast, if_neg (by omega)]
    omega
  · have hnext := pieceStart_lt hnum (i := i + 1) (by omega)
    rw [pieceStart_succ] at hnext
    rw [if_neg hlast]
    omega

theorem mem_initialBlocks {block_size length : Nat} {b : PieceBlock}
    (hb : b ∈ initialBlocks block_size i length) :
    b.piece_index = i ∧ b.begin + b.length ≤ length ∧ b.received = false := by
  obtain ⟨n, hn, rfl⟩ := List.mem_map.mp hb
  refine ⟨rfl, ?_, rfl⟩
  rcases Nat.eq_zero_or_pos block_size with rfl | hpos
  · exact absurd (List.mem_range.mp hn) (by simp)
  · have hlt : (n + 1) * block_size ≤ length + block_size - 1 :=
      (Nat.le_div_iff_mul_le hpos).mp (List.mem_range.mp hn)
    rw [Nat.succ_mul] at hlt
    dsimp only
    omega

theorem pairwise_initialBlocks (block_size length : Nat) :
    (initialBlocks block_size i length).Pairwise fun a b => a.begin + a.length ≤ b.begin := by
  rw [initialBlocks, List.pairwise_map]
  refine List.pairwise_lt_range.imp fun {a b} hab => ?_
  have hmul : a * block_size + block_size ≤ b * block_size := by
    rw [← Nat.succ_mul]
    exact Nat.mul_le_mul_right block_size hab
  dsimp only
  omega

include hnum in
theorem mem_extents {e : Nat × Nat × Nat} (he : e ∈ extents config t) :
    e.1 < t.numPieces ∧ pieceStart t e.1 ≤ blockStart t e ∧ blockStart t e ≤ blockEnd t e ∧
      blockEnd t e ≤ pieceEnd t e.1 := by
  obtain ⟨i, hi, hblock⟩ := List.mem_flatMap.mp he
  obtain ⟨b, hb, rfl⟩ := List.mem_map.mp hblock
  obtain ⟨hindex, hle, -⟩ := mem_initialBlocks hb
  have hi := List.mem_range.mp hi
  have hlength := initialLength_ofTorrent hnum hi
  simp only [PieceBlock.extent, blockEnd, blockStart, hindex]
  omega

/-- The blocks of a torrent follow one another. -/
theorem pairwise_extents :
    (extents config t).Pairwise fun a b => blockEnd t a ≤ blockStart t b := by
  have hpos := t.pieceLength_pos
  rw [extents, List.pairwise_flatMap]
  constructor
  · intro i _
    rw [List.pairwise_map]
    refine (pairwise_initialBlocks _ _).imp_of_mem fun {a b} ha hb hab => ?_
    simp only [PieceBlock.extent, blockEnd, blockStart, (mem_initialBlocks ha).1,
      (mem_initialBlocks hb).1]
    omega
  · refine List.pairwise_lt_range.imp_of_mem fun {i j} _ hj hij => ?_
    intro x hx y hy
    obtain ⟨a, ha, rfl⟩ := List.mem_map.mp hx
    obtain ⟨b, hb, rfl⟩ := List.mem_map.mp hy
    have hj := List.mem_range.mp hj
    have hlength : initialLength (.ofTorrent t) i = t.pieceLength.toNat :=
      if_neg (Nat.ne_of_lt (by omega : i + 1 < t.numPieces))
    have hfits := (mem_initialBlocks ha).2.1
    have hbetween : pieceStart t i + t.pieceLength ≤ pieceStart t j := by
      rw [← pieceStart_succ]
      exact Int.mul_le_mul_of_nonneg_right (by omega) hpos.le
    rw [hlength] at hfits
    simp only [PieceBlock.extent, blockEnd, blockStart, (mem_initialBlocks ha).1,
      (mem_initialBlocks hb).1]
    omega

end Extents

section Run

variable {config : Config} {t : TorrentInfo} {m : AsyncPieceManager} {i f : Nat}

/-- The blocks stand in the pieces they name. -/
def Indexed (m : AsyncPieceManager) : Prop :=
  ∀ (i : Nat) (piece : PieceData), m.pieces[i]? = some piece →
    ∀ b : PieceBlock, b ∈ piece.blocks → b.piece_index = i

/-- What `receive` keeps: every received block has been counted with the octets that the file
has in its piece, and the extents of the blocks are those of the beginning. -/
structure Tracked (config : Config) (t : TorrentInfo) (m : AsyncPieceManager) : Prop where
  counted : ∃ fm, m.file_selection_manager = some fm ∧ fm.mapper = .ofTorrent t ∧
    ∀ f file, t.files[f]? = some file → file.isPadding = false → fm.bytesDownloaded f =
      some (m.receivedBlocks.map fun b => bytesInPiece t b.piece_index f).sum
  extents : m.allBlocks.map PieceBlock.extent = extents config t
  indexed : Indexed m

theorem nodup_getFilesForPiece {fm : FileSelectionManager} (h : fm.mapper = .ofTorrent t) :
    (fm.getFilesForPiece i).Nodup := by
  rw [getFilesForPiece, h, segments_ofTorrent]
  split
  · exact (List.pairwise_map.mpr pairwise_segmentsFrom).imp ne_of_lt
  · exact List.nodup_nil

theorem allBlocks_acceptBlock {piece piece' : PieceData} {front back : List PieceBlock}
    {block block' : PieceBlock} (h : m.pieces[i]? = some piece)
    (hblocks : piece.blocks = front ++ block :: back)
    (hblocks' : piece'.blocks = front ++ block' :: back) :
    ∃ before after, m.allBlocks = before ++ block :: after ∧
      (m.acceptBlock i piece').allBlocks = before ++ block' :: after := by
  obtain ⟨hlt, rfl⟩ := List.getElem?_eq_some_iff.mp h
  refine ⟨(m.pieces.take i).flatMap PieceData.blocks ++ front,
    back ++ (m.pieces.drop (i + 1)).flatMap PieceData.blocks, ?_, ?_⟩
  · have hsplit : m.pieces = m.pieces.take i ++ m.pieces[i] :: m.pieces.drop (i + 1) := by
      rw [← List.drop_eq_getElem_cons hlt, List.take_append_drop]
    calc m.allBlocks
      _ = (m.pieces.take i ++ m.pieces[i] :: m.pieces.drop (i + 1)).flatMap PieceData.blocks := by
        rw [allBlocks, ← hsplit]
      _ = _ := by
        simp only [List.flatMap_append, List.flatMap_cons, hblocks, List.append_assoc,
          List.cons_append]
  · rw [allBlocks, acceptBlock, List.set_eq_take_append_cons_drop, if_pos hlt]
    simp [hblocks']

theorem blocks_ofTorrent {piece : PieceData} (h : (ofTorrent config t).pieces[i]? = some piece) :
    piece.blocks = initialBlocks config.block_size i (initialLength (.ofTorrent t) i) := by
  have hpieces : (ofTorrent config t).pieces = (List.range t.numPieces).map fun i =>
      newPiece config (ofTorrent config t) i (initialLength (.ofTorrent t) i) := rfl
  rw [hpieces, List.getElem?_map, Option.map_eq_some_iff] at h
  obtain ⟨j, hj, rfl⟩ := h
  obtain ⟨hlt, rfl⟩ := List.getElem?_eq_some_iff.mp hj
  rw [List.getElem_range]
  rfl

theorem receivedBlocks_ofTorrent : (ofTorrent config t).receivedBlocks = [] := by
  rw [receivedBlocks, List.filter_eq_nil_iff]
  intro b hb
  obtain ⟨piece, hpiece, hb⟩ := List.mem_flatMap.mp hb
  obtain ⟨i, hi⟩ := List.getElem?_of_mem hpiece
  rw [blocks_ofTorrent hi] at hb
  rw [(mem_initialBlocks hb).2.2]
  exact Bool.false_ne_true

theorem tracked_ofTorrent : Tracked config t (ofTorrent config t) := by
  refine ⟨⟨.ofTorrent t, rfl, rfl, fun f file hfile hpad => ?_⟩, extents_ofTorrent, ?_⟩
  · rw [bytesDownloaded_ofTorrent hfile hpad, receivedBlocks_ofTorrent]
    rfl
  · intro i piece hpiece b hb
    rw [blocks_ofTorrent hpiece] at hb
    exact (mem_initialBlocks hb).1

/-- What a block does that is received: nothing, or it takes the place of an open block. -/
theorem receive_cases (h : Indexed m) (b : ReceivedBlock) :
    (¬Fits m b ∧ m.receive b = m) ∨
      Fits m b ∧ (m.receive b).file_selection_manager =
          m.file_selection_manager.map (updateProgress · b.piece_index) ∧
        ∃ before after block block', m.allBlocks = before ++ block :: after ∧
          (m.receive b).allBlocks = before ++ block' :: after ∧ block.received = false ∧
          block'.received = true ∧ block.extent = block'.extent ∧
          block'.extent = (b.piece_index, b.begin, b.data.length) := by
  have hfits : Fits m b ↔ ∃ piece, m.pieces[b.piece_index]? = some piece ∧
      (piece.addBlock b.begin b.data).1 = true := by
    simp only [Fits, PieceData.addBlock_fst_iff, exists_and_left]
  rw [receive, hfits, handlePieceBlock]
  cases hpiece : m.pieces[b.piece_index]? with
  | none => exact .inl ⟨nofun, rfl⟩
  | some piece =>
    rcases hadded : piece.addBlock b.begin b.data with ⟨_ | _, piece'⟩
    · simp only [hadded]
      refine .inl ⟨?_, trivial⟩
      rintro ⟨_, ⟨⟩, htrue⟩
      rw [hadded] at htrue
      cases htrue
    · have htrue : (piece.addBlock b.begin b.data).1 = true := by rw [hadded]
      obtain ⟨front, block, back, hblocks, hbegin, hopen, hlen, hblocks'⟩ :=
        PieceData.addBlock_eq_true htrue
      rw [hadded] at hblocks'
      obtain ⟨before, after, hall, hall'⟩ := allBlocks_acceptBlock hpiece hblocks hblocks'
      have hindex : block.piece_index = b.piece_index := h _ piece hpiece block (by simp [hblocks])
      simp only [hadded]
      refine .inr
        ⟨⟨piece, rfl, htrue⟩, rfl, before, after, block, _, hall, hall', hopen, rfl, rfl, ?_⟩
      rw [PieceBlock.extent, hindex, hbegin, hlen]

theorem indexed_receive (h : Indexed m) (b : ReceivedBlock) : Indexed (m.receive b) := by
  rw [receive]
  obtain heq | ⟨piece, hpiece, hadded, heq⟩ := m.handlePieceBlock_cases b.piece_index b.begin b.data
  · rwa [heq]
  · obtain ⟨front, block, back, hblocks, -, -, -, hblocks'⟩ := PieceData.addBlock_eq_true hadded
    intro i piece' hpiece' c hc
    rw [heq, getElem?_acceptBlock m hpiece] at hpiece'
    split at hpiece'
    · next hi =>
      cases hpiece'
      have hold := h _ piece hpiece
      simp only [hblocks, hblocks', List.mem_append, List.mem_cons] at hold hc
      rw [hi]
      obtain hc | rfl | hc := hc
      · exact hold c (.inl hc)
      · exact hold block (.inr (.inl rfl))
      · exact hold c (.inr (.inr hc))
    · exact h i piece' hpiece' c hc

/-- The blocks that are received after a block has been put in its place. -/
theorem receivedBlocks_of_split {m' : AsyncPieceManager} {before after : List PieceBlock}
    {block block' : PieceBlock} (h : m.allBlocks = before ++ block :: after)
    (hopen : block.received = false) (h' : m'.allBlocks = before ++ block' :: after)
    (hreceived : block'.received = true) :
    ∃ front back, m.receivedBlocks = front ++ back ∧
      m'.receivedBlocks = front ++ block' :: back := by
  refine ⟨before.filter PieceBlock.received, after.filter PieceBlock.received, ?_, ?_⟩
  · rw [receivedBlocks, h, List.filter_append, List.filter_cons, hopen]
    rfl
  · rw [receivedBlocks, h', List.filter_append, List.filter_cons, hreceived]
    rfl

/-- A block that is added counts once with all that the files have in its piece. -/
theorem tracked_receive (h : Tracked config t m) (b : ReceivedBlock) :
    Tracked config t (m.receive b) := by
  obtain ⟨-, heq⟩ | ⟨-, hfsm, before, after, block, block', hall, hall', hopen, hclosed, hsame,
    hextent⟩ := receive_cases h.indexed b
  · rwa [heq]
  · have hindex : block'.piece_index = b.piece_index := congrArg Prod.fst hextent
    refine ⟨?_, ?_, indexed_receive h.indexed b⟩
    · obtain ⟨fm, hfm, hmapper, hbytes⟩ := h.counted
      have hnodup := nodup_getFilesForPiece (i := b.piece_index) hmapper
      refine ⟨updateProgress fm b.piece_index, ?_, ?_, fun f file hfile hpad => ?_⟩
      · rw [hfsm, hfm, Option.map_some]
      · rw [mapper_updateProgress hnodup, hmapper]
      · obtain ⟨front, back, hreceived, hreceived'⟩ :=
          receivedBlocks_of_split hall hopen hall' hclosed
        have hbefore := hbytes f file hfile hpad
        rw [hreceived] at hbefore
        rw [bytesDownloaded_updateProgress hnodup, hbefore, hreceived', bytesForFile, hmapper,
          Option.map_some]
        simp only [List.map_append, List.map_cons, List.sum_append, List.sum_cons, hindex,
          bytesInPiece]
        congr 1
        omega
    · rw [hall', ← h.extents, hall]
      simp [hsame]

/-- Received blocks do not overlap, so that what they have of a file adds up. -/
theorem coveredBytes_eq (h : Tracked config t m) (file : FileInfo) :
    (coveredBytes t m f file : Int) = (m.receivedBlocks.map fun b =>
      overlap (blockStart t b.extent) (blockEnd t b.extent) (lengthBefore t.files f)
        (lengthBefore t.files f + file.length)).sum := by
  have hpairwise : (m.receivedBlocks.map fun b =>
      (blockStart t b.extent, blockEnd t b.extent)).Pairwise fun a b => a.2 ≤ b.1 := by
    have hall : (extents config t).Pairwise fun a b => blockEnd t a ≤ blockStart t b :=
      pairwise_extents
    rw [← h.extents, List.pairwise_map] at hall
    rw [List.pairwise_map]
    exact hall.sublist List.filter_sublist
  have hcount := countP_range_any (c := lengthBefore t.files f) hpairwise file.length.toNat
  rw [Int.toNat_of_nonneg file.length_nonneg, List.map_map] at hcount
  rw [coveredBytes]
  simpa [Function.comp_def] using hcount

theorem progressExact_iff (h : Tracked config t m) : ProgressExact t m ↔
    ∀ f file, t.files[f]? = some file → file.isPadding = false →
      (m.receivedBlocks.map fun b => bytesInPiece t b.piece_index f).sum =
        (m.receivedBlocks.map fun b => overlap (blockStart t b.extent) (blockEnd t b.extent)
          (lengthBefore t.files f) (lengthBefore t.files f + file.length)).sum := by
  obtain ⟨fm, hfm, -, hbytes⟩ := h.counted
  constructor
  · rintro ⟨fm', hfm', hexact⟩ f file hfile hpad
    cases hfm.symm.trans hfm'
    have hf := hexact f file hfile hpad
    rwa [hbytes f file hfile hpad, coveredBytes_eq h, Option.some_inj] at hf
  · intro hsums
    refine ⟨fm, hfm, fun f file hfile hpad => ?_⟩
    rw [hbytes f file hfile hpad, coveredBytes_eq h, hsums f file hfile hpad]

/-- A block that is taken keeps the progress exact only if it has all that its piece has. -/
theorem progressExact_receive (h : Tracked config t m) (hexact : ProgressExact t m)
    (b : ReceivedBlock) : ProgressExact t (m.receive b) ↔ TakesWhole t m b := by
  obtain ⟨hfits, heq⟩ | ⟨hfits, -, before, after, block, block', hall, hall', hopen, hclosed, -,
    hextent⟩ := receive_cases h.indexed b
  · rw [heq]
    exact iff_of_true hexact fun hb => absurd hb hfits
  · obtain ⟨front, back, hreceived, hreceived'⟩ := receivedBlocks_of_split hall hopen hall' hclosed
    have hindex : block'.piece_index = b.piece_index := congrArg Prod.fst hextent
    rw [TakesWhole, forall_prop_of_true hfits, progressExact_iff (tracked_receive h b), SharesWhole]
    refine forall₄_congr fun f file hfile hpad => ?_
    have hold := (progressExact_iff h).mp hexact f file hfile hpad
    rw [hreceived] at hold
    rw [hreceived']
    simp only [List.map_append, List.map_cons, List.sum_append, List.sum_cons, hindex, hextent]
      at hold ⊢
    omega

theorem progressExact_ofTorrent : ProgressExact t (ofTorrent config t) := by
  rw [progressExact_iff tracked_ofTorrent, receivedBlocks_ofTorrent]
  intros
  rfl

/-- The progress of the files is exact in every state of a run if every block that is taken has
as many octets of every file as its piece, and only then. -/
theorem always_progressExact_iff (config : Config) (t : TorrentInfo) (bs : List ReceivedBlock) :
    Always receive (ProgressExact t) (ofTorrent config t) bs ↔
      StepsMeet receive (TakesWhole t) (ofTorrent config t) bs := by
  have hpart : ∀ m, Tracked config t m ∧ ProgressExact t m → ProgressExact t m := fun m h => h.2
  refine always_iff_stepsMeet_of hpart ?_ ?_ ⟨tracked_ofTorrent, progressExact_ofTorrent⟩
  · rintro m b ⟨h, hexact⟩ hnext
    exact (progressExact_receive h hexact b).mp hnext
  · rintro m b ⟨h, hexact⟩ hwhole
    exact ⟨tracked_receive h b, (progressExact_receive h hexact b).mpr hwhole⟩

/-- The first half of a piece of eight octets arrives and counts as the whole file. -/
theorem not_always_progressExact :
    ¬Always receive (ProgressExact (plainTorrent [plainFile 8 none] 8 (by decide)))
      (ofTorrent { block_size := 4 } (plainTorrent [plainFile 8 none] 8 (by decide)))
      [⟨0, 0, [1, 2, 3, 4]⟩] := by
  rintro ⟨-, hexact⟩
  have hwhole := (progressExact_receive tracked_ofTorrent progressExact_ofTorrent _).mp hexact
    ⟨_, _, rfl, rfl, rfl⟩
  exact absurd (hwhole 0 (plainFile 8 none) rfl rfl) (by decide)

end Run

section Layout

variable {config : Config} {t : TorrentInfo} {i f : Nat}

/-- A block has all the octets that files have in its piece. -/
def CoversFiles (t : TorrentInfo) (e : Nat × Nat × Nat) : Prop :=
  ∀ s ∈ (PieceToFileMapper.ofTorrent t).segments e.1,
    blockStart t e ≤ lengthBefore t.files s.file_index + s.file_offset ∧
      lengthBefore t.files s.file_index + s.file_offset + s.length ≤ blockEnd t e

theorem bytesInPiece_eq {file : FileInfo} (hi : i < t.numPieces) (hfile : t.files[f]? = some file)
    (hpad : file.isPadding = false) : bytesInPiece t i f =
      overlap (pieceStart t i) (pieceEnd t i) (lengthBefore t.files f)
        (lengthBefore t.files f + file.length) := by
  have hsum :=
    @sum_filter_segmentsFrom (pieceStart t i) (pieceEnd t i) 0 0 f file t.files hfile hpad
  rw [zero_add, zero_add] at hsum
  rw [bytesInPiece, segments_ofTorrent, if_pos hi, segmentsOf, hsum]

/-- In a torrent with as many pieces as its length takes, a block has as many octets of every
file as its piece if it has all the octets that files have in the piece. -/
theorem sharesWhole_iff {e : Nat × Nat × Nat} (he : e ∈ extents config t)
    (hnum : (t.numPieces : Int) = (t.totalLength + t.pieceLength - 1) / t.pieceLength) :
    SharesWhole t e ↔ CoversFiles t e := by
  obtain ⟨hi, hstart, -, hend⟩ := mem_extents hnum he
  constructor
  · intro h s hs
    rw [segments_ofTorrent, if_pos hi, segmentsOf, mem_segmentsFrom] at hs
    obtain ⟨f, file, hfile, hs⟩ := hs
    obtain ⟨hpad, hmeet, rfl⟩ := overlapSegment_eq_some.mp hs
    have heq := h f file hfile hpad
    rw [zero_add] at hmeet
    rw [bytesInPiece_eq hi hfile hpad, overlap_eq_iff hstart hend hmeet] at heq
    simp only [zero_add]
    omega
  · intro h f file hfile hpad
    rw [bytesInPiece_eq hi hfile hpad]
    rcases lt_or_ge (max (pieceStart t e.1) (lengthBefore t.files f))
      (min (pieceEnd t e.1) (lengthBefore t.files f + file.length)) with hmeet | hapart
    · rw [overlap_eq_iff hstart hend hmeet]
      have hs : (⟨f, max (pieceStart t e.1) (lengthBefore t.files f) - lengthBefore t.files f,
          min (pieceEnd t e.1) (lengthBefore t.files f + file.length) -
            max (pieceStart t e.1) (lengthBefore t.files f)⟩ : Segment) ∈
          (PieceToFileMapper.ofTorrent t).segments e.1 := by
        rw [segments_ofTorrent, if_pos hi, segmentsOf, mem_segmentsFrom]
        refine ⟨f, file, hfile, ?_⟩
        rw [zero_add, zero_add, overlapSegment_eq_some]
        exact ⟨hpad, hmeet, rfl⟩
      obtain ⟨hfirst, hlast⟩ := h _ hs
      dsimp only at hfirst hlast
      omega
    · have hle := overlap_mono hstart hend (lengthBefore t.files f)
        (lengthBefore t.files f + file.length)
      rw [overlap_of_le hapart] at hle ⊢
      exact le_antisymm hle overlap_nonneg

end Layout

end AsyncPieceManager

end Piece

end Ccbt

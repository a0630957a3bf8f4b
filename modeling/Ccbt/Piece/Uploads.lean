import Ccbt.Piece.Layout

/-!
# What is uploaded of a piece: `get_block` of `piece/async_piece_manager.py`

A range of a verified piece is looked up in the block in which it starts, and what reaches
beyond that block is cut off.
-/

namespace Ccbt

open Python Transition

namespace Piece

/-! ### Consecutive blocks -/

/-- Intervals, given by their starts and lengths, that follow each other from `o` to `stop`. -/
def Consecutive : Nat → Nat → List (Nat × Nat) → Prop
  | o, stop, [] => o = stop
  | o, stop, e :: es => e.1 = o ∧ 0 < e.2 ∧ Consecutive (o + e.2) stop es

theorem Consecutive.le {o stop : Nat} {es : List (Nat × Nat)} (h : Consecutive o stop es) :
    ∀ e ∈ es, o ≤ e.1 := by
  induction es generalizing o with
  | nil => simp
  | cons e es ih =>
    obtain ⟨hstart, -, hrest⟩ := h
    refine List.forall_mem_cons.mpr ⟨hstart.ge, fun e' he' => ?_⟩
    have := ih hrest e' he'
    omega

theorem Consecutive.pairwise {o stop : Nat} {es : List (Nat × Nat)} (h : Consecutive o stop es) :
    es.Pairwise (fun e e' => e.1 ≤ e'.1) := by
  induction es generalizing o with
  | nil => exact .nil
  | cons e es ih =>
    obtain ⟨hstart, -, hrest⟩ := h
    refine List.pairwise_cons.mpr ⟨fun e' he' => ?_, ih hrest⟩
    have := hrest.le e' he'
    omega

/-- Where a block of the partition lies. -/
def PieceBlock.span (b : PieceBlock) : Nat × Nat := (b.begin, b.length)

theorem lt_blockCount_iff {block_size length n : Nat} (hbs : 0 < block_size) :
    n < (length + block_size - 1) / block_size ↔ n * block_size < length := by
  rw [Nat.lt_iff_add_one_le, Nat.le_div_iff_mul_le hbs, Nat.succ_mul]
  omega

/-- The blocks from the `k`-th one on. -/
theorem consecutive_range' {block_size length : Nat} (hbs : 0 < block_size) (m k : Nat)
    (hk : k + m = (length + block_size - 1) / block_size) :
    Consecutive (min (k * block_size) length) length ((List.range' k m).map fun n =>
      (n * block_size, min block_size (length - n * block_size))) := by
  induction m generalizing k with
  | zero =>
    have hlast : ¬k < (length + block_size - 1) / block_size := by omega
    rw [lt_blockCount_iff hbs] at hlast
    exact min_eq_right (Nat.le_of_not_lt hlast)
  | succ m ih =>
    have hlt : k * block_size < length := (lt_blockCount_iff hbs).mp (by omega)
    have hnext : (k + 1) * block_size = k * block_size + block_size := Nat.succ_mul _ _
    have hrest := ih (k + 1) (by omega)
    rw [List.range'_succ, List.map_cons]
    refine ⟨?_, ?_, ?_⟩
    · simp only
      omega
    · simp only
      omega
    · have hstop : min (k * block_size) length + min block_size (length - k * block_size) =
          min ((k + 1) * block_size) length := by omega
      simp only
      rwa [hstop]

theorem consecutive_initialBlocks {block_size : Nat} (hbs : 0 < block_size)
    (piece_index length : Nat) :
    Consecutive 0 length ((initialBlocks block_size piece_index length).map
      PieceBlock.span) := by
  have hall : Consecutive (min (0 * block_size) length) length _ :=
    consecutive_range' hbs _ 0 (Nat.zero_add _)
  rw [Nat.zero_mul, Nat.zero_min, ← List.range_eq_range'] at hall
  rw [initialBlocks, List.map_map]
  exact hall

/-- A block of the partition holds the range exactly when the range does not cross a multiple of
the block size. -/
theorem within_initialBlocks_iff {block_size piece_index length begin n : Nat}
    (hbs : 0 < block_size) (hle : begin + n ≤ length) :
    (∃ e ∈ (initialBlocks block_size piece_index length).map PieceBlock.span,
      e.1 ≤ begin ∧ begin < e.1 + e.2 ∧ begin + n ≤ e.1 + e.2) ↔
      begin < length ∧ begin % block_size + n ≤ block_size := by
  have hdiv := Nat.div_add_mod' begin block_size
  have hmod := Nat.mod_lt begin hbs
  constructor
  · rintro ⟨e, he, h1, h2, h3⟩
    obtain ⟨b, hb, rfl⟩ := List.mem_map.mp he
    obtain ⟨k, -, rfl⟩ := List.mem_map.mp hb
    simp only [PieceBlock.span] at h1 h2 h3
    have hquot : begin / block_size = k :=
      Nat.div_eq_of_lt_le h1 (by
        rw [Nat.succ_mul]
        omega)
    rw [hquot] at hdiv
    omega
  · rintro ⟨hlt, hfit⟩
    refine ⟨(begin / block_size * block_size,
      min block_size (length - begin / block_size * block_size)), ?_, ?_, ?_, ?_⟩
    · refine List.mem_map.mpr ⟨_, List.mem_map.mpr ⟨begin / block_size, ?_, rfl⟩, rfl⟩
      rw [List.mem_range, lt_blockCount_iff hbs]
      omega
    · simp only
      omega
    · simp only
      omega
    · simp only
      omega

/-! ### The lookup -/

def blockRange (begin length : Nat) (blocks : List PieceBlock) : Option Bytes :=
  (blocks.find? fun block => block.begin ≤ begin ∧ begin < block.begin + block.length).map
    fun block => slice block.data (begin - block.begin : Nat)
      (min (begin - block.begin + length) block.length : Nat)

namespace AsyncPieceManager

/-- `get_piece_data`, with `none` also for the `ValueError` of `get_data`. -/
def getPieceData (m : AsyncPieceManager) (piece_index : Nat) : Option Bytes :=
  match m.pieces[piece_index]? with
  | none => none
  | some piece => if piece.state = .VERIFIED then piece.getData else none

def getBlock (m : AsyncPieceManager) (piece_index begin length : Nat) : Option Bytes :=
  match m.pieces[piece_index]? with
  | none => none
  | some piece =>
    if piece.state ≠ .VERIFIED then none else blockRange begin length piece.blocks

end AsyncPieceManager

/-- What a received block holds is as long as the block. -/
def WellFilled (contents : Nat × Nat × Bytes × Bool) : Prop :=
  contents.2.2.2 = true → contents.2.2.1.length = contents.2.1

/-- The block of a range that starts in it gives the range as far as the block goes. -/
theorem blockRange_cons {b : PieceBlock} {blocks : List PieceBlock} {begin n : Nat}
    (hstart : b.begin ≤ begin) (hend : begin < b.begin + b.length)
    (hdata : b.data.length = b.length) :
    blockRange begin n (b :: blocks) = some ((b.data.drop (begin - b.begin)).take n) := by
  rw [blockRange, List.find?_cons_of_pos (by simp [hstart, hend]), Option.map_some,
    slice_natCast _ (by omega) (by omega)]
  by_cases hn : begin - b.begin + n ≤ b.length
  · rw [min_eq_left hn, Nat.add_sub_cancel_left]
  · have hlen : (b.data.drop (begin - b.begin)).length = b.length - (begin - b.begin) := by
      rw [List.length_drop, hdata]
    rw [min_eq_right (by omega), List.take_of_length_le hlen.le, List.take_of_length_le (by omega)]

/-- Blocks that end before the range are passed over. -/
theorem blockRange_cons_of_le {b : PieceBlock} {begin : Nat} (hend : b.begin + b.length ≤ begin)
    (n : Nat) (blocks : List PieceBlock) :
    blockRange begin n (b :: blocks) = blockRange begin n blocks := by
  rw [blockRange, List.find?_cons_of_neg (by simpa using fun _ => hend)]
  rfl

theorem length_flatMap_data {o stop : Nat} {blocks : List PieceBlock}
    (hcons : Consecutive o stop (blocks.map PieceBlock.span))
    (hdata : ∀ b ∈ blocks, b.data.length = b.length) :
    o + (blocks.flatMap PieceBlock.data).length = stop := by
  induction blocks generalizing o with
  | nil => exact hcons
  | cons b blocks ih =>
    obtain ⟨-, -, hrest⟩ := hcons
    have hblock : b.data.length = b.length := hdata b List.mem_cons_self
    have hlater := ih hrest fun b' hb' => hdata b' (List.mem_cons_of_mem _ hb')
    simp only [PieceBlock.span] at hlater
    rw [List.flatMap_cons, List.length_append, hblock]
    omega

/-- In consecutive blocks the lookup finds the range exactly when one of them holds it. -/
theorem blockRange_eq_iff {o stop : Nat} {blocks : List PieceBlock}
    (hcons : Consecutive o stop (blocks.map PieceBlock.span))
    (hdata : ∀ b ∈ blocks, b.data.length = b.length) {begin n : Nat} (ho : o ≤ begin)
    (hle : begin + n ≤ stop) :
    blockRange begin n blocks =
        some (((blocks.flatMap PieceBlock.data).drop (begin - o)).take n) ↔
      ∃ e ∈ blocks.map PieceBlock.span,
        e.1 ≤ begin ∧ begin < e.1 + e.2 ∧ begin + n ≤ e.1 + e.2 := by
  induction blocks generalizing o with
  | nil => simp [blockRange]
  | cons b blocks ih =>
    obtain ⟨hstart, hpos, hrest⟩ := hcons
    simp only [PieceBlock.span] at hstart hpos
    have hblock : b.data.length = b.length := hdata b List.mem_cons_self
    rw [List.map_cons, List.exists_mem_cons_iff, List.flatMap_cons]
    simp only [PieceBlock.span] at hrest ⊢
    subst hstart
    by_cases hin : begin < b.begin + b.length
    · have hoff : begin - b.begin ≤ b.data.length := by omega
      have hlater : ¬∃ e ∈ blocks.map PieceBlock.span,
          e.1 ≤ begin ∧ begin < e.1 + e.2 ∧ begin + n ≤ e.1 + e.2 := by
        rintro ⟨e, he, h1, -, -⟩
        have := hrest.le e he
        omega
      rw [or_iff_left hlater, blockRange_cons ho hin hblock, Option.some_inj,
        List.drop_append_of_le_length hoff]
      constructor
      · intro heq
        have hrest' := length_flatMap_data hrest fun b' hb' => hdata b' (List.mem_cons_of_mem _ hb')
        have hlen := congrArg List.length heq
        rw [List.length_take, List.length_take, List.length_append, List.length_drop] at hlen
        omega
      · rintro ⟨-, -, hfit⟩
        rw [List.take_append_of_le_length]
        rw [List.length_drop]
        omega
    · have hdrop : (b.data ++ blocks.flatMap PieceBlock.data).drop (begin - b.begin) =
          (blocks.flatMap PieceBlock.data).drop (begin - (b.begin + b.length)) := by
        rw [List.drop_append, List.drop_eq_nil_of_le (by omega), List.nil_append, hblock,
          Nat.sub_sub]
      rw [blockRange_cons_of_le (Nat.le_of_not_lt hin), hdrop,
        ih hrest (fun b' hb' => hdata b' (List.mem_cons_of_mem _ hb')) (by omega),
        or_iff_right (fun h => hin h.2.1)]

/-! ### Verified pieces -/

namespace System

variable {config : Config} {s : System} {n i : Nat}

/-- The pieces hold the same blocks. -/
def SameContents (m m' : AsyncPieceManager) : Prop :=
  m'.pieces.map PieceData.contents = m.pieces.map PieceData.contents

theorem SameContents.modify (m : AsyncPieceManager) (i : Nat) {f : PieceData → PieceData}
    (hf : ∀ p, (f p).contents = p.contents) : SameContents m (m.modifyPiece i f) :=
  map_modify_eq_map hf _ _

theorem SameContents.setState {m m' : AsyncPieceManager} (h : SameContents m m') (i : Nat)
    (state : PieceState) : SameContents m (m'.setState i state) :=
  (SameContents.modify m' i (f := fun piece => { piece with state := state }) fun _ => rfl).trans h

theorem sameContents_sendNext {m : AsyncPieceManager} (h : SameContents m s.manager)
    (peers : PeerManager) (available_peers : List String) (pairs : List (Nat × String))
    (missing_blocks : List Nat) :
    SameContents m (s.sendNext config peers n i available_peers pairs missing_blocks).manager := by
  rw [sendNext]
  split
  · exact h
  · exact h.setState i .DOWNLOADING

theorem sameContents_startRequest (h : Coherent s) (peers : PeerManager) :
    SameContents s.manager (s.startRequest config peers n i).manager := by
  rw [startRequest, initializePieces_eq h.length]
  dsimp only
  split
  · exact rfl
  · split
    · exact rfl
    · have hrequested := SameContents.modify s.manager i (f := fun piece =>
        { piece with state := .REQUESTED, request_count := piece.request_count + 1 }) fun _ => rfl
      split
      · exact hrequested.setState i .MISSING
      · exact hrequested
      · split
        · exact sameContents_sendNext (s := s.setManager _) hrequested _ _ _ _
        · exact sameContents_sendNext (s := s.setManager _) hrequested _ _ _ _

theorem sameContents_resume (h : Coherent s) (peers : PeerManager) (raises : Bool) :
    SameContents s.manager (s.resume config n peers raises).manager := by
  have hverified : ∀ (s : System) (i : Nat),
      SameContents s.manager (s.pieceVerified i).manager := by
    intro s i
    rw [manager_pieceVerified]
    exact SameContents.setState rfl i .VERIFIED
  rw [resume]
  split
  · exact sameContents_startRequest h peers
  · split
    · exact rfl
    · next t _ _ =>
      have hsent := SameContents.modify s.manager t.piece_index
        fun p => p.contents_addRequestedFrom t.current.1 t.current.2
      exact sameContents_sendNext (s := s.setManager _) hsent _ _ _ _
  · rw [startVerify]
    split <;> exact rfl
  · rw [hashed]
    split
    · exact rfl
    · split
      · exact hverified (s.setTask n .finished) _
      · split <;> exact rfl
  all_goals exact rfl

/-- All blocks are well filled. -/
def AllFilled (s : System) : Prop :=
  ∀ p ∈ s.manager.pieces, ∀ b ∈ p.contents, WellFilled b

theorem AllFilled.of_sameContents {s' : System} (h : AllFilled s)
    (hs : SameContents s.manager s'.manager) : AllFilled s' := by
  intro p hp b hb
  have hmem : p.contents ∈ s.manager.pieces.map PieceData.contents := by
    rw [← hs]
    exact List.mem_map_of_mem hp
  obtain ⟨q, hq, hcontents⟩ := List.mem_map.mp hmem
  exact h q hq b (hcontents ▸ hb)

theorem wellFilled_addBlock {p : PieceData} (h : ∀ b ∈ p.contents, WellFilled b) {begin : Nat}
    {data : Bytes} (hadded : (p.addBlock begin data).1 = true) :
    ∀ b ∈ (p.addBlock begin data).2.contents, WellFilled b := by
  obtain ⟨front, block, back, hblocks, -, -, hlen, hblocks'⟩ := PieceData.addBlock_eq_true hadded
  rw [PieceData.contents, hblocks] at h
  rw [PieceData.contents, hblocks']
  simp only [List.map_append, List.map_cons, List.mem_append, List.mem_cons] at h ⊢
  rintro b (hb | rfl | hb)
  · exact h b (.inl hb)
  · exact fun _ => hlen
  · exact h b (.inr (.inr hb))

theorem AllFilled.handlePieceBlock (h : AllFilled s) (i begin : Nat) (data : Bytes) :
    AllFilled (s.handlePieceBlock i begin data) := by
  rw [System.handlePieceBlock]
  obtain heq | ⟨piece, hpiece, hadded, heq⟩ := s.manager.handlePieceBlock_cases i begin data
  · rw [heq]
    exact h
  · have hpieces : AllFilled (s.setManager
        (s.manager.acceptBlock i (piece.addBlock begin data).2)) := by
      intro p hp
      obtain hp | rfl := List.mem_or_eq_of_mem_set hp
      · exact h p hp
      · exact wellFilled_addBlock (h piece (List.mem_of_getElem? hpiece)) hadded
    rw [heq]
    dsimp only
    split
    · show AllFilled ((System.call _ true (.on_piece_completed i)).spawn [.verify i])
      rw [AllFilled, spawn, manager_call]
      exact hpieces
    · exact hpieces

theorem allFilled_step (config : Config) (hc : Coherent s) (h : AllFilled s) (e : Event) :
    AllFilled (s.step config e) := by
  have hpeers : ∀ {s' : System}, s'.manager.pieces = s.manager.pieces → AllFilled s' := by
    intro s' hpieces
    rwa [AllFilled, hpieces]
  cases e with
  | handle_piece_block i begin data => exact h.handlePieceBlock i begin data
  | request_piece_from_peers i => exact h
  | _verify_piece_hash i =>
    rw [step]
    split <;> exact h
  | get_missing_pieces =>
    apply hpeers
    rw [step, setManager, getMissingPieces_snd hc.complete]
  | _select_pieces active_peers =>
    apply hpeers
    obtain ⟨b, hb⟩ := selectPieces_snd hc.complete config hc.length active_peers
    rw [step]
    simp only [hb]
    rfl
  | _add_peer peer_key =>
    apply hpeers
    rw [step, AsyncPieceManager.addPeer]
    split <;> rfl
  | update_peer_availability peer_key bitfield => exact hpeers rfl
  | update_peer_have peer_key i => exact hpeers rfl
  | _remove_peer peer_key =>
    apply hpeers
    rw [step, AsyncPieceManager.removePeer]
    split <;> rfl
  | resume n peers raises => exact h.of_sameContents (sameContents_resume hc peers raises)
  | hash n =>
    rw [step, hash]
    split <;> exact h

/-- What is known of the pieces in every state that can be reached. -/
structure Reached (config : Config) (t : TorrentData) (fm : Option FileSelectionManager)
    (s : System) : Prop where
  coherent : Coherent s
  filled : AllFilled s
  listed : s.manager.Listed
  shape : SameShape (AsyncPieceManager.new config t fm) s.manager

theorem reached_new (config : Config) (t : TorrentData) (fm : Option FileSelectionManager)
    (a b c : Bool) : Reached config t fm (new config t fm a b c) where
  coherent := coherent_new t fm a b c
  filled := by
    intro p hp block hblock hreceived
    obtain ⟨k, -, rfl⟩ := List.mem_map.mp hp
    obtain ⟨b, hb, rfl⟩ := List.mem_map.mp hblock
    obtain ⟨n, -, rfl⟩ := List.mem_map.mp hb
    cases hreceived
  listed := by
    rw [AsyncPieceManager.Listed, new, AsyncPieceManager.new, List.map_eq_nil_iff,
      List.range_eq_nil]
  shape := ⟨rfl, rfl, rfl, rfl, fun _ => rfl⟩

theorem Reached.step {t : TorrentData} {fm : Option FileSelectionManager}
    (h : Reached config t fm s) (e : Event) : Reached config t fm (s.step config e) where
  coherent := coherent_step config h.coherent e
  filled := allFilled_step config h.coherent h.filled e
  listed := h.listed.of_sameShape (sameShape_step config h.listed e)
  shape := h.shape.trans (sameShape_step config h.listed e)

/-- The blocks of a piece are the partition of its length. -/
theorem Reached.spans {t : TorrentData} {fm : Option FileSelectionManager}
    (h : Reached config t fm s) {p : PieceData} (hp : s.manager.pieces[i]? = some p) :
    p.blocks.map PieceBlock.span =
      (initialBlocks config.block_size i p.length).map PieceBlock.span := by
  have hlayout := congrArg (·[i]?) h.shape.pieces
  simp only [List.getElem?_map, hp, Option.map_some] at hlayout
  obtain ⟨q, hq, hsame⟩ := Option.map_eq_some_iff.mp hlayout.symm
  rw [AsyncPieceManager.new, List.getElem?_map, Option.map_eq_some_iff] at hq
  obtain ⟨j, hj, rfl⟩ := hq
  have hij : j = i := by
    obtain ⟨hlt, hj⟩ := List.getElem?_eq_some_iff.mp hj
    rw [← hj, List.getElem_range]
  subst hij
  simp only [PieceData.layout, AsyncPieceManager.newPiece, PieceData.new, Prod.mk.injEq] at hsame
  obtain ⟨-, hlength, -, hblocks⟩ := hsame
  have hextent := congrArg (List.map Prod.snd) hblocks
  rw [List.map_map, List.map_map] at hextent
  rw [← hlength]
  exact hextent.symm

/-- A verified piece has all its data. -/
theorem Reached.getPieceData {t : TorrentData} {fm : Option FileSelectionManager}
    (h : Reached config t fm s) {p : PieceData} (hp : s.manager.pieces[i]? = some p)
    (hverified : p.state = .VERIFIED) :
    (∀ b ∈ p.blocks, b.data.length = b.length) ∧
      s.manager.getPieceData i = some (p.blocks.flatMap PieceBlock.data) := by
  have hcomplete : p.isComplete = true := h.coherent.complete i p hp (.inr hverified)
  have hsorted : p.blocks.Pairwise (fun b b' => b.begin ≤ b'.begin) := by
    have hpairs := (consecutive_initialBlocks config.block_size_pos i p.length).pairwise
    rwa [← h.spans hp, List.pairwise_map] at hpairs
  constructor
  · intro b hb
    exact h.filled p (List.mem_of_getElem? hp) _ (List.mem_map_of_mem hb)
      (PieceData.isComplete_iff.mp hcomplete b hb)
  · simp only [AsyncPieceManager.getPieceData, hp, if_pos hverified, PieceData.getData,
      if_pos hcomplete]
    rw [sortOn_eq_self _ hsorted]

/-- A lookup gives the range of the piece's data. -/
def BlockExact (m : AsyncPieceManager) (piece_index begin length : Nat) : Prop :=
  ∃ data, m.getPieceData piece_index = some data ∧
    m.getBlock piece_index begin length = some (slice data begin (begin + length : Nat))

/-- A range of a verified piece is uploaded as it is exactly when it starts in the piece and stays
in one block. -/
theorem blockExact_iff (config : Config) (t : TorrentData) (fm : Option FileSelectionManager)
    (a b c : Bool) (es : List Event) {i : Nat} {piece : PieceData}
    (hpiece : (run (step config) (new config t fm a b c) es).manager.pieces[i]? = some piece)
    (hverified : piece.state = .VERIFIED) {begin length : Nat}
    (hle : begin + length ≤ piece.length) :
    BlockExact (run (step config) (new config t fm a b c) es).manager i begin length ↔
      begin < piece.length ∧ begin % config.block_size + length ≤ config.block_size := by
  have hreached : Reached config t fm (run (step config) (new config t fm a b c) es) :=
    run_of_invariant (fun _ e h => h.step e) (reached_new config t fm a b c) es
  obtain ⟨hdata, hget⟩ := hreached.getPieceData hpiece hverified
  have hcons := consecutive_initialBlocks config.block_size_pos i piece.length
  rw [← hreached.spans hpiece] at hcons
  have htotal := length_flatMap_data hcons hdata
  rw [Nat.zero_add] at htotal
  rw [← within_initialBlocks_iff config.block_size_pos hle, ← hreached.spans hpiece,
    ← blockRange_eq_iff hcons hdata (Nat.zero_le begin) hle, BlockExact, hget, Nat.sub_zero]
  have hslice : slice (piece.blocks.flatMap PieceBlock.data) begin (begin + length : Nat) =
      ((piece.blocks.flatMap PieceBlock.data).drop begin).take length := by
    rw [slice_natCast _ (Nat.le_add_right begin length) (hle.trans htotal.ge),
      Nat.add_sub_cancel_left]
  simp only [AsyncPieceManager.getBlock, hpiece, hverified, ne_eq, not_true_eq_false, if_false,
    Option.some.injEq, exists_eq_left', hslice]

def twoBlocksTorrent : TorrentData := ⟨1, 4, [sha1 [1, 2, 3, 4]], none, none, none, 1⟩

def octetPairs : Config := { block_size := 2, block_size_pos := Nat.two_pos }

/-- A piece of two blocks arrives and is verified. -/
def twoArrive : List Event :=
  [.handle_piece_block 0 0 [1, 2], .handle_piece_block 0 2 [3, 4], ._verify_piece_hash 0,
    .resume 0 ⟨[], fun _ => true⟩ false, .hash 0, .resume 0 ⟨[], fun _ => true⟩ false]

def twoBlocks : System :=
  run (step octetPairs) (new octetPairs twoBlocksTorrent none false false false) twoArrive

def twoBlocksData : PieceData where
  piece_index := 0
  length := 4
  blocks := [⟨0, 0, 2, [1, 2], true, ∅⟩, ⟨0, 2, 2, [3, 4], true, ∅⟩]
  state := .VERIFIED

theorem blockExact_twoBlocks : BlockExact twoBlocks.manager 0 2 2 := by
  have hpiece : twoBlocks.manager.pieces[0]? = some twoBlocksData := by decide +kernel
  rw [twoBlocks] at hpiece ⊢
  exact (blockExact_iff octetPairs twoBlocksTorrent none false false false twoArrive hpiece rfl
    (by decide)).mpr (by decide)

/-- Of a range in two blocks only the part in the first one is given. -/
theorem not_blockExact_twoBlocks : twoBlocks.manager.getPieceData 0 = some [1, 2, 3, 4] ∧
    twoBlocks.manager.getBlock 0 1 2 = some [2] ∧ ¬BlockExact twoBlocks.manager 0 1 2 := by
  have hdata : twoBlocks.manager.getPieceData 0 = some [1, 2, 3, 4] := by decide +kernel
  have hblock : twoBlocks.manager.getBlock 0 1 2 = some [2] := by decide +kernel
  refine ⟨hdata, hblock, ?_⟩
  rintro ⟨data, hget, hexact⟩
  rw [hdata, Option.some_inj] at hget
  rw [hblock, ← hget] at hexact
  revert hexact
  decide

end System

end Piece

end Ccbt

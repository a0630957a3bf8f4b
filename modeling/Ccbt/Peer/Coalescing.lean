import Ccbt.Peer.Pipeline
import Ccbt.Piece.Uploads

/-!
# What coalesced requests ask for

`_coalesce_requests` of `peer/async_peer_connection.py` merges requests of one piece whose distance
is within a threshold, and `handle_piece_block` of `piece/async_piece_manager.py` takes what comes
for them if it is a block.
-/

namespace Ccbt

open Python Piece

namespace Peer

/-! ### The ranges of the requests -/

/-- The octet is in the range that is requested. -/
def RequestInfo.Covers (r : RequestInfo) (piece_index x : Nat) : Prop :=
  r.piece_index = piece_index ∧ r.begin ≤ x ∧ x < r.begin + r.length

/-- The order in which `_coalesce_requests` goes through the requests. -/
def RequestInfo.Before (r s : RequestInfo) : Prop :=
  r.piece_index < s.piece_index ∨ r.piece_index = s.piece_index ∧ r.begin ≤ s.begin

/-- Requests of one piece that are farther apart than the threshold, the first one first. -/
def Apart (threshold : Nat) (r s : RequestInfo) : Prop :=
  r.piece_index = s.piece_index → r.begin + r.length + threshold < s.begin

/-- The octet is between two requests that are within the threshold of each other. -/
def Bridged (threshold : Nat) (requests : List RequestInfo) (piece_index x : Nat) : Prop :=
  ∃ r ∈ requests, ∃ s ∈ requests, r.piece_index = piece_index ∧ s.piece_index = piece_index ∧
    r.begin + r.length ≤ x ∧ x < s.begin ∧ s.begin ≤ r.begin + r.length + threshold

section Loop

variable {threshold : Nat} {current q r : RequestInfo} {requests rest : List RequestInfo}

/-- The request that goes on starts where the first one does, so the order is kept. -/
theorem before_of_start {c req : RequestInfo}
    (hsorted : (current :: req :: rest).Pairwise RequestInfo.Before)
    (hpiece : c.piece_index = current.piece_index) (hbegin : c.begin = current.begin) :
    (c :: rest).Pairwise RequestInfo.Before := by
  obtain ⟨hfirst, hrest⟩ := List.pairwise_cons.mp hsorted
  refine List.pairwise_cons.mpr ⟨fun s hs => ?_, (List.pairwise_cons.mp hrest).2⟩
  have hbefore := hfirst s (List.mem_cons_of_mem _ hs)
  rwa [RequestInfo.Before, hpiece, hbegin]

/-- A request that goes on for two starts where the first of them does and ends where the later
end of the two is. -/
structure Merges (current req c : RequestInfo) : Prop where
  piece_index : c.piece_index = current.piece_index
  start : c.begin = current.begin
  ends : c.begin + c.length = max (current.begin + current.length) (req.begin + req.length)

/-- The next request is merged into the current one, or the current one comes out. -/
theorem coalesceFrom_cons (threshold : Nat) (current req : RequestInfo) (rest : List RequestInfo) :
    (current.piece_index = req.piece_index ∧
      req.begin ≤ current.begin + current.length + threshold ∧
      ∃ c, Merges current req c ∧
        coalesceFrom threshold current (req :: rest) = coalesceFrom threshold c rest) ∨
    (current.piece_index = req.piece_index →
      current.begin + current.length + threshold < req.begin) ∧
      coalesceFrom threshold current (req :: rest) =
        current :: coalesceFrom threshold req rest := by
  rw [coalesceFrom]
  split
  · next hmerge =>
    refine .inl ⟨hmerge.1, hmerge.2, ?_⟩
    dsimp only
    split
    · next hlater =>
      refine ⟨_, ?_, rfl⟩
      refine ⟨rfl, rfl, ?_⟩
      rw [max_eq_right hlater.le]
      exact Nat.add_sub_of_le ((Nat.le_add_right _ _).trans hlater.le)
    · next hlater => exact ⟨current, ⟨rfl, rfl, (max_eq_left (Nat.le_of_not_lt hlater)).symm⟩, rfl⟩
  · next hmerge =>
    exact .inr ⟨fun hpiece => Nat.lt_of_not_le fun hle => hmerge ⟨hpiece, hle⟩, rfl⟩

/-- A request that comes out starts where one that went in starts. -/
theorem start_of_mem_coalesceFrom (h : q ∈ coalesceFrom threshold current requests) :
    ∃ r ∈ current :: requests, r.piece_index = q.piece_index ∧ r.begin = q.begin := by
  induction requests generalizing current with
  | nil =>
    cases List.mem_singleton.mp h
    exact ⟨q, List.mem_cons_self, rfl, rfl⟩
  | cons req rest ih =>
    obtain ⟨-, -, c, hmerges, heq⟩ | ⟨-, heq⟩ := coalesceFrom_cons threshold current req rest
    · rw [heq] at h
      obtain ⟨r, hr, hpiece, hstart⟩ := ih h
      obtain rfl | hr := List.mem_cons.mp hr
      · exact ⟨current, List.mem_cons_self, hmerges.piece_index.symm.trans hpiece,
          hmerges.start.symm.trans hstart⟩
      · exact ⟨r, List.mem_cons_of_mem _ (List.mem_cons_of_mem _ hr), hpiece, hstart⟩
    · rw [heq] at h
      obtain rfl | h := List.mem_cons.mp h
      · exact ⟨q, List.mem_cons_self, rfl, rfl⟩
      · obtain ⟨r, hr, hstart⟩ := ih h
        exact ⟨r, List.mem_cons_of_mem _ hr, hstart⟩

/-- Every request is within one that comes out. -/
theorem exists_coalesceFrom (hsorted : (current :: requests).Pairwise RequestInfo.Before)
    (hr : r ∈ current :: requests) :
    ∃ q ∈ coalesceFrom threshold current requests, q.piece_index = r.piece_index ∧
      q.begin ≤ r.begin ∧ r.begin + r.length ≤ q.begin + q.length := by
  induction requests generalizing current r with
  | nil =>
    rw [List.mem_singleton.mp hr]
    exact ⟨current, List.mem_cons_self, rfl, le_rfl, le_rfl⟩
  | cons req rest ih =>
    obtain ⟨hfirst, hrest⟩ := List.pairwise_cons.mp hsorted
    have hreq := hfirst req List.mem_cons_self
    obtain ⟨hpiece, -, c, ⟨hcpiece, hstart, hends⟩, heq⟩ | ⟨-, heq⟩ :=
      coalesceFrom_cons threshold current req rest
    · rw [heq]
      obtain hlt | ⟨-, hle⟩ := hreq
      · exact absurd hpiece hlt.ne
      have hsorted' := before_of_start hsorted hcpiece hstart
      obtain ⟨q, hq, hqpiece, hqbegin, hqend⟩ := ih (r := c) hsorted' List.mem_cons_self
      obtain rfl | hr := List.mem_cons.mp hr
      · exact ⟨q, hq, hqpiece.trans hcpiece, by omega, by omega⟩
      · obtain rfl | hr := List.mem_cons.mp hr
        · exact ⟨q, hq, hqpiece.trans (hcpiece.trans hpiece), by omega, by omega⟩
        · exact ih hsorted' (List.mem_cons_of_mem _ hr)
    · rw [heq]
      obtain rfl | hr := List.mem_cons.mp hr
      · exact ⟨r, List.mem_cons_self, rfl, le_rfl, le_rfl⟩
      · obtain ⟨q, hq, hwithin⟩ := ih hrest hr
        exact ⟨q, List.mem_cons_of_mem _ hq, hwithin⟩

/-- The requests of a piece that come out are farther apart than the threshold. -/
theorem apart_coalesceFrom (hsorted : (current :: requests).Pairwise RequestInfo.Before) :
    (coalesceFrom threshold current requests).Pairwise (Apart threshold) := by
  induction requests generalizing current with
  | nil => exact List.pairwise_singleton _ _
  | cons req rest ih =>
    obtain ⟨hfirst, hrest⟩ := List.pairwise_cons.mp hsorted
    obtain ⟨-, -, c, hmerges, heq⟩ | ⟨hfar, heq⟩ := coalesceFrom_cons threshold current req rest
    · rw [heq]
      exact ih (before_of_start hsorted hmerges.piece_index hmerges.start)
    · rw [heq]
      refine List.pairwise_cons.mpr ⟨fun q hq hpiece => ?_, ih hrest⟩
      obtain ⟨s, hs, hspiece, hsbegin⟩ := start_of_mem_coalesceFrom hq
      have hreq := hfirst req List.mem_cons_self
      -- `req` is between `current` and `s`, and so in their piece
      have hafter : req.piece_index < s.piece_index ∨
          req.piece_index = s.piece_index ∧ req.begin ≤ s.begin := by
        obtain rfl | hs := List.mem_cons.mp hs
        · exact .inr ⟨rfl, le_rfl⟩
        · exact (List.pairwise_cons.mp hrest).1 s hs
      unfold RequestInfo.Before at hreq
      omega

/-- Each octet is in a request of the list or between two of them, and one of them ends with this
one. -/
structure Chained (threshold : Nat) (requests : List RequestInfo) (q : RequestInfo) : Prop where
  octets : ∀ x, q.Covers q.piece_index x → (∃ r ∈ requests, r.Covers q.piece_index x) ∨
    Bridged threshold requests q.piece_index x
  last : ∃ r ∈ requests, r.piece_index = q.piece_index ∧
    r.begin + r.length = q.begin + q.length

theorem chained_of_mem (h : q ∈ requests) : Chained threshold requests q where
  octets _ hx := .inl ⟨q, h, hx⟩
  last := ⟨q, h, rfl, rfl⟩

theorem Chained.merges {c req : RequestInfo} (h : Chained threshold requests current)
    (hreq : req ∈ requests) (hpiece : current.piece_index = req.piece_index)
    (hnear : req.begin ≤ current.begin + current.length + threshold)
    (hmerges : Merges current req c) : Chained threshold requests c := by
  obtain ⟨hcpiece, hstart, hends⟩ := hmerges
  obtain ⟨r, hr, hrpiece, hend⟩ := h.last
  constructor
  · rintro x ⟨-, hle, hlt⟩
    rw [hcpiece]
    by_cases hold : x < current.begin + current.length
    · exact h.octets x ⟨rfl, by omega, hold⟩
    · by_cases hgap : x < req.begin
      · exact .inr ⟨r, hr, req, hreq, hrpiece, hpiece.symm, by omega, hgap, by omega⟩
      · exact .inl ⟨req, hreq, hpiece.symm, by omega, by omega⟩
  · rw [hcpiece, hends]
    obtain hle | hle := le_total (current.begin + current.length) (req.begin + req.length)
    · exact ⟨req, hreq, hpiece.symm, (max_eq_right hle).symm⟩
    · exact ⟨r, hr, hrpiece, hend.trans (max_eq_left hle).symm⟩

theorem chained_coalesceFrom (hcurrent : Chained threshold requests current)
    (hrest : ∀ r ∈ rest, r ∈ requests) :
    ∀ q ∈ coalesceFrom threshold current rest, Chained threshold requests q := by
  induction rest generalizing current with
  | nil =>
    intro q hq
    rwa [List.mem_singleton.mp hq]
  | cons req rest ih =>
    obtain ⟨hreq, hrest⟩ := List.forall_mem_cons.mp hrest
    obtain ⟨hpiece, hnear, c, hmerges, heq⟩ | ⟨-, heq⟩ :=
      coalesceFrom_cons threshold current req rest
    · rw [heq]
      exact ih (hcurrent.merges hreq hpiece hnear hmerges) hrest
    · rw [heq]
      exact List.forall_mem_cons.mpr ⟨hcurrent, ih (chained_of_mem hreq) hrest⟩

end Loop

section Requests

variable {config : PipelineConfig} {requests : List RequestInfo}

/-- The loop goes through the requests in their order. -/
theorem coalesceRequests_cases (h : config.pipeline_enable_coalescing = true)
    (requests : List RequestInfo) :
    requests = [] ∧ coalesceRequests config requests = [] ∨
      ∃ current rest, (current :: rest).Perm requests ∧
        (current :: rest).Pairwise RequestInfo.Before ∧
        coalesceRequests config requests =
          coalesceFrom (config.pipeline_coalesce_threshold_kib * 1024) current rest := by
  have hsorted := @List.pairwise_mergeSort RequestInfo (fun a b =>
    decide (a.piece_index < b.piece_index) ||
      decide (a.piece_index = b.piece_index ∧ a.begin ≤ b.begin))
    (fun a b c => by
      simp only [Bool.or_eq_true, decide_eq_true_eq]
      omega)
    (fun a b => by
      simp only [Bool.or_eq_true, decide_eq_true_eq]
      omega) requests
  have hperm := List.mergeSort_perm requests fun a b : RequestInfo =>
    decide (a.piece_index < b.piece_index) ||
      decide (a.piece_index = b.piece_index ∧ a.begin ≤ b.begin)
  rw [coalesceRequests, if_pos h]
  split
  · next hnil =>
    rw [hnil] at hperm
    exact .inl ⟨hperm.symm.eq_nil, rfl⟩
  · next current rest hcons =>
    rw [hcons] at hperm hsorted
    refine .inr ⟨current, rest, hperm, hsorted.imp fun hle => ?_, rfl⟩
    rwa [Bool.or_eq_true, decide_eq_true_eq, decide_eq_true_eq] at hle

/-- Every request is within one that is returned. -/
theorem exists_coalesceRequests (h : config.pipeline_enable_coalescing = true) {r : RequestInfo}
    (hr : r ∈ requests) :
    ∃ q ∈ coalesceRequests config requests, q.piece_index = r.piece_index ∧
      q.begin ≤ r.begin ∧ r.begin + r.length ≤ q.begin + q.length := by
  obtain ⟨rfl, -⟩ | ⟨current, rest, hperm, hsorted, heq⟩ := coalesceRequests_cases h requests
  · exact absurd hr List.not_mem_nil
  · rw [heq]
    exact exists_coalesceFrom hsorted (hperm.mem_iff.mpr hr)

theorem apart_coalesceRequests (h : config.pipeline_enable_coalescing = true)
    (requests : List RequestInfo) : (coalesceRequests config requests).Pairwise
      (Apart (config.pipeline_coalesce_threshold_kib * 1024)) := by
  obtain ⟨-, heq⟩ | ⟨current, rest, -, hsorted, heq⟩ := coalesceRequests_cases h requests
  · rw [heq]
    exact .nil
  · rw [heq]
    exact apart_coalesceFrom hsorted

theorem chained_coalesceRequests (h : config.pipeline_enable_coalescing = true)
    {q : RequestInfo} (hq : q ∈ coalesceRequests config requests) :
    Chained (config.pipeline_coalesce_threshold_kib * 1024) requests q := by
  obtain ⟨-, heq⟩ | ⟨current, rest, hperm, -, heq⟩ := coalesceRequests_cases h requests
  · rw [heq] at hq
    exact absurd hq List.not_mem_nil
  · rw [heq] at hq
    refine chained_coalesceFrom (chained_of_mem (hperm.mem_iff.mp List.mem_cons_self))
      (fun r hr => ?_) q hq
    exact hperm.mem_iff.mp (List.mem_cons_of_mem _ hr)

/-- Requests that are returned with one start are the same request. -/
theorem eq_of_start (h : config.pipeline_enable_coalescing = true) {q s : RequestInfo}
    (hq : q ∈ coalesceRequests config requests) (hs : s ∈ coalesceRequests config requests)
    (hpiece : q.piece_index = s.piece_index) (hbegin : q.begin = s.begin) : q = s := by
  have hnodup :
      ((coalesceRequests config requests).map fun r => (r.piece_index, r.begin)).Nodup := by
    refine List.pairwise_map.mpr ((apart_coalesceRequests h requests).imp fun hapart heq => ?_)
    have := hapart (congrArg Prod.fst heq)
    have hstart := congrArg Prod.snd heq
    dsimp only at hstart
    omega
  exact List.inj_on_of_nodup_map hnodup hq hs (Prod.ext hpiece hbegin)

end Requests

end Peer

/-! ### The answers -/

namespace Piece

theorem Consecutive.end_le {o stop : Nat} {es : List (Nat × Nat)} (h : Consecutive o stop es) :
    o ≤ stop ∧ ∀ e ∈ es, e.1 + e.2 ≤ stop := by
  induction es generalizing o with
  | nil => exact ⟨Nat.le_of_eq h, fun e he => absurd he List.not_mem_nil⟩
  | cons e es ih =>
    obtain ⟨hstart, -, hrest⟩ := h
    obtain ⟨hle, hall⟩ := ih hrest
    refine ⟨by omega, List.forall_mem_cons.mpr ⟨?_, hall⟩⟩
    rwa [hstart]

/-- Consecutive intervals with one start are the same interval. -/
theorem Consecutive.eq_of_start {o stop : Nat} {es : List (Nat × Nat)} (h : Consecutive o stop es)
    {e e' : Nat × Nat} (he : e ∈ es) (he' : e' ∈ es) (hstart : e.1 = e'.1) : e = e' := by
  induction es generalizing o with
  | nil => exact absurd he List.not_mem_nil
  | cons first es ih =>
    obtain ⟨hfirst, hpos, hrest⟩ := h
    have hle := hrest.le
    obtain rfl | hmem := List.mem_cons.mp he
    · obtain rfl | hmem' := List.mem_cons.mp he'
      · rfl
      · have := hle e' hmem'
        omega
    · obtain rfl | hmem' := List.mem_cons.mp he'
      · have := hle e hmem
        omega
      · exact ih hrest hmem hmem'

namespace AsyncPieceManager

variable {m : AsyncPieceManager} {i j begin start n : Nat} {data : Bytes}

/-- The block that is open at the place has this length. -/
def Awaits (m : AsyncPieceManager) (piece_index begin length : Nat) : Prop :=
  ∃ piece block, m.pieces[piece_index]? = some piece ∧
    PieceData.openBlock begin piece.blocks = some block ∧ block.length = length

theorem handlePieceBlock_fst : (m.handlePieceBlock i begin data).1 = true ↔
    m.Awaits i begin data.length := by
  unfold handlePieceBlock Awaits
  cases hpiece : m.pieces[i]? with
  | none => simp
  | some piece =>
    have hadded : (piece.addBlock begin data).1 = true ↔ _ := PieceData.addBlock_fst_iff
    dsimp only
    rcases hadd : piece.addBlock begin data with ⟨_ | _, piece'⟩
    · rw [hadd] at hadded
      simpa using hadded
    · rw [hadd] at hadded
      simpa using hadded

/-- A block elsewhere leaves the place open. -/
theorem openBlock_addBlock {piece : PieceData} (h : begin ≠ start)
    (hadded : (piece.addBlock start data).1 = true) :
    PieceData.openBlock begin (piece.addBlock start data).2.blocks =
      PieceData.openBlock begin piece.blocks := by
  obtain ⟨front, block, back, hblocks, hbegin, -, -, hblocks'⟩ := PieceData.addBlock_eq_true hadded
  rw [PieceData.openBlock, PieceData.openBlock, hblocks', hblocks, List.find?_append,
    List.find?_append, List.find?_cons_of_neg, List.find?_cons_of_neg]
  · simp [hbegin, h.symm]
  · simp

theorem awaits_handlePieceBlock (h : m.Awaits i begin n) (hne : i = j → begin ≠ start) :
    (m.handlePieceBlock j start data).2.Awaits i begin n := by
  obtain ⟨piece, block, hpiece, hopen, hlength⟩ := h
  obtain heq | ⟨piece', hpiece', hadded, heq⟩ := m.handlePieceBlock_cases j start data
  · rw [heq]
    exact ⟨piece, block, hpiece, hopen, hlength⟩
  · rw [heq]
    by_cases hij : i = j
    · subst hij
      cases hpiece.symm.trans hpiece'
      refine ⟨_, block, ?_, (openBlock_addBlock (hne rfl) hadded).trans hopen, hlength⟩
      rw [getElem?_acceptBlock m hpiece', if_pos rfl]
    · refine ⟨piece, block, ?_, hopen, hlength⟩
      rw [getElem?_acceptBlock m hpiece', if_neg hij, hpiece]

end AsyncPieceManager

end Piece

namespace Peer

/-- The octets of the range, out of the contents of the pieces. -/
def RequestInfo.answer (content : Nat → Bytes) (r : RequestInfo) : Bytes :=
  ((content r.piece_index).drop r.begin).take r.length

/-- The blocks that `handle_piece_block` accepts when the requests are answered one after the
other. -/
def acceptedBlocks (content : Nat → Bytes) :
    AsyncPieceManager → List RequestInfo → List (Nat × Nat × Bytes)
  | _, [] => []
  | m, q :: rest =>
    let handled := m.handlePieceBlock q.piece_index q.begin (q.answer content)
    if handled.1 then
      (q.piece_index, q.begin, q.answer content) :: acceptedBlocks content handled.2 rest
    else acceptedBlocks content handled.2 rest

/-- The requests are for blocks of the partition of their pieces, which have not come yet. -/
def ForOpenBlocks (block_size : Nat) (m : AsyncPieceManager) (requests : List RequestInfo) : Prop :=
  ∀ r ∈ requests, ∃ piece, m.pieces[r.piece_index]? = some piece ∧
    piece.blocks.map PieceBlock.span =
      (initialBlocks block_size r.piece_index piece.length).map PieceBlock.span ∧
    ∃ block ∈ piece.blocks, block.span = (r.begin, r.length) ∧ block.received = false

section Answers

variable {block_size : Nat} {m : AsyncPieceManager} {requests qs : List RequestInfo}
  {r q : RequestInfo} {content : Nat → Bytes}

theorem ForOpenBlocks.consecutive (hpos : 0 < block_size) (h : ForOpenBlocks block_size m requests)
    (hr : r ∈ requests) : ∃ piece, m.pieces[r.piece_index]? = some piece ∧
      Consecutive 0 piece.length (piece.blocks.map PieceBlock.span) ∧
      ∃ block ∈ piece.blocks, block.span = (r.begin, r.length) ∧ block.received = false := by
  obtain ⟨piece, hpiece, hextents, hblock⟩ := h r hr
  refine ⟨piece, hpiece, ?_, hblock⟩
  rw [hextents]
  exact consecutive_initialBlocks hpos _ _

theorem ForOpenBlocks.awaits (hpos : 0 < block_size) (h : ForOpenBlocks block_size m requests)
    (hr : r ∈ requests) : m.Awaits r.piece_index r.begin r.length := by
  obtain ⟨piece, hpiece, hcons, block, hblock, hextent, hopen⟩ := h.consecutive hpos hr
  have hbegin : block.begin = r.begin := congrArg Prod.fst hextent
  obtain ⟨found, hfound⟩ : ∃ found, PieceData.openBlock r.begin piece.blocks = some found := by
    rw [← Option.isSome_iff_exists, PieceData.openBlock, List.find?_isSome]
    exact ⟨block, hblock, by simp [hbegin, hopen]⟩
  refine ⟨piece, found, hpiece, hfound, ?_⟩
  have hplace := List.find?_some hfound
  simp only [decide_eq_true_eq] at hplace
  have heq := hcons.eq_of_start (List.mem_map_of_mem (List.mem_of_find?_eq_some hfound))
    (List.mem_map_of_mem hblock) (hplace.1.trans hbegin.symm)
  exact (congrArg Prod.snd heq).trans (congrArg Prod.snd hextent)

/-- Requests for blocks that start at one place are for one block. -/
theorem ForOpenBlocks.length_eq (hpos : 0 < block_size) (h : ForOpenBlocks block_size m requests)
    (hr : r ∈ requests) (hq : q ∈ requests) (hpiece : q.piece_index = r.piece_index)
    (hbegin : q.begin = r.begin) : q.length = r.length := by
  obtain ⟨piece, block, hpieces, hopen, hlength⟩ := h.awaits hpos hr
  obtain ⟨piece', block', hpieces', hopen', hlength'⟩ := h.awaits hpos hq
  rw [hpiece, hpieces] at hpieces'
  cases hpieces'
  rw [hbegin, hopen] at hopen'
  cases hopen'
  exact hlength'.symm.trans hlength

theorem ForOpenBlocks.length_answer (hpos : 0 < block_size)
    (h : ForOpenBlocks block_size m requests)
    (hcontent : ∀ i piece, m.pieces[i]? = some piece → (content i).length = piece.length)
    (hr : r ∈ requests) : (r.answer content).length = r.length := by
  obtain ⟨piece, hpiece, hcons, block, hblock, hextent, -⟩ := h.consecutive hpos hr
  have hend := hcons.end_le.2 _ (List.mem_map_of_mem hblock)
  rw [hextent] at hend
  rw [RequestInfo.answer, List.length_take, List.length_drop, hcontent _ _ hpiece]
  dsimp only at hend
  omega

/-- A block that is awaited is accepted when the first request for it is answered. -/
theorem mem_acceptedBlocks (hawaits : m.Awaits r.piece_index r.begin r.length)
    (hanswer : (r.answer content).length = r.length)
    (hq : ∃ q ∈ qs, q.key = r.key)
    (hall : ∀ q ∈ qs, q.piece_index = r.piece_index → q.begin = r.begin → q.length = r.length) :
    (r.piece_index, r.begin, r.answer content) ∈ acceptedBlocks content m qs := by
  induction qs generalizing m with
  | nil =>
    obtain ⟨q, hq, -⟩ := hq
    exact absurd hq List.not_mem_nil
  | cons first rest ih =>
    obtain ⟨hfirst, hrest⟩ := List.forall_mem_cons.mp hall
    rw [acceptedBlocks]
    by_cases hsame : first.piece_index = r.piece_index ∧ first.begin = r.begin
    · have hlength := hfirst hsame.1 hsame.2
      have heq : first.answer content = r.answer content := by
        rw [RequestInfo.answer, RequestInfo.answer, hsame.1, hsame.2, hlength]
      rw [hsame.1, hsame.2, heq, if_pos]
      · exact List.mem_cons_self
      · rw [AsyncPieceManager.handlePieceBlock_fst, hanswer]
        exact hawaits
    · have hlater : ∃ q ∈ rest, q.key = r.key := by
        obtain ⟨q, hq, hkey⟩ := hq
        obtain rfl | hq := List.mem_cons.mp hq
        · simp only [RequestInfo.key, Prod.mk.injEq] at hkey
          exact absurd ⟨hkey.1, hkey.2.1⟩ hsame
        · exact ⟨q, hq, hkey⟩
      have hkept : (m.handlePieceBlock first.piece_index first.begin
          (first.answer content)).2.Awaits r.piece_index r.begin r.length :=
        AsyncPieceManager.awaits_handlePieceBlock hawaits
          fun hpiece hbegin => hsame ⟨hpiece.symm, hbegin.symm⟩
      have hmem := ih hkept hlater hrest
      split
      · exact List.mem_cons_of_mem _ hmem
      · exact hmem

/-- What the requests that are returned ask for, and what becomes of the answers to them when they
come in the order of `qs`. -/
structure AsksForBlocks (config : PipelineConfig) (content : Nat → Bytes) (m : AsyncPieceManager)
    (requests qs : List RequestInfo) : Prop where
  covered : ∀ i x, (∃ r ∈ requests, r.Covers i x) →
    ∃ q ∈ coalesceRequests config requests, q.Covers i x
  within : ∀ i x, (∃ q ∈ coalesceRequests config requests, q.Covers i x) →
    (∃ r ∈ requests, r.Covers i x) ∨ config.pipeline_enable_coalescing = true ∧
      Bridged (config.pipeline_coalesce_threshold_kib * 1024) requests i x
  once : config.pipeline_enable_coalescing = true →
    (coalesceRequests config requests).Pairwise fun q s => ∀ i x, q.Covers i x → ¬ s.Covers i x
  unchanged : config.pipeline_enable_coalescing = false →
    coalesceRequests config requests = requests
  accepted : ∀ r ∈ requests, (∃ q ∈ coalesceRequests config requests, q.key = r.key) →
    (r.piece_index, r.begin, r.answer content) ∈ acceptedBlocks content m qs

/-- Coalesced requests ask for every block, for nothing twice, and besides only for what lies
between two blocks within the threshold; blocks that have requests of their own are accepted. -/
theorem asksForBlocks (config : PipelineConfig) {block_size : Nat} (hpos : 0 < block_size)
    (h : ForOpenBlocks block_size m requests)
    (hcontent : ∀ i piece, m.pieces[i]? = some piece → (content i).length = piece.length)
    (hqs : qs.Perm (coalesceRequests config requests)) :
    AsksForBlocks config content m requests qs := by
  have hunchanged : config.pipeline_enable_coalescing = false →
      coalesceRequests config requests = requests := by
    intro hoff
    rw [coalesceRequests, if_neg (by rw [hoff]; decide)]
  constructor
  · rintro i x ⟨r, hr, hpiece, hle, hlt⟩
    cases hon : config.pipeline_enable_coalescing with
    | false => exact ⟨r, (hunchanged hon).symm ▸ hr, hpiece, hle, hlt⟩
    | true =>
      obtain ⟨q, hq, hqpiece, hqle, hqlt⟩ := exists_coalesceRequests hon hr
      exact ⟨q, hq, hqpiece.trans hpiece, hqle.trans hle, hlt.trans_le hqlt⟩
  · rintro i x ⟨q, hq, hcovers⟩
    cases hon : config.pipeline_enable_coalescing with
    | false => exact .inl ⟨q, hunchanged hon ▸ hq, hcovers⟩
    | true =>
      obtain rfl := hcovers.1
      obtain hr | hbridged := (chained_coalesceRequests hon hq).octets x hcovers
      · exact .inl hr
      · exact .inr ⟨rfl, hbridged⟩
  · intro hon
    refine (apart_coalesceRequests hon requests).imp fun hapart i x hq hs => ?_
    have := hapart (hq.1.trans hs.1.symm)
    have := hq.2
    have := hs.2
    omega
  · exact hunchanged
  · rintro r hr ⟨q, hq, hkey⟩
    have hparts := hkey
    simp only [RequestInfo.key, Prod.mk.injEq] at hparts
    refine mem_acceptedBlocks (h.awaits hpos hr) (h.length_answer hpos hcontent hr)
      ⟨q, hqs.mem_iff.mpr hq, hkey⟩ fun s hs hpiece hbegin => ?_
    have hs' := hqs.mem_iff.mp hs
    cases hon : config.pipeline_enable_coalescing with
    | false =>
      rw [hunchanged hon] at hs'
      exact h.length_eq hpos hr hs' hpiece hbegin
    | true =>
      rw [eq_of_start hon hs' hq (hpiece.trans hparts.1.symm) (hbegin.trans hparts.2.1.symm)]
      exact hparts.2.2

end Answers

/-- What is requested is in the blocks, nothing is requested twice, and every block is accepted. -/
structure DeliversBlocks (config : PipelineConfig) (content : Nat → Bytes) (m : AsyncPieceManager)
    (requests qs : List RequestInfo) : Prop where
  octets : ∀ i x, (∃ q ∈ coalesceRequests config requests, q.Covers i x) ↔
    ∃ r ∈ requests, r.Covers i x
  once : (coalesceRequests config requests).Pairwise
    fun q s => ∀ i x, q.Covers i x → ¬ s.Covers i x
  accepted : ∀ r ∈ requests,
    (r.piece_index, r.begin, r.answer content) ∈ acceptedBlocks content m qs

/-- A piece of three blocks. -/
def threeBlocks : AsyncPieceManager :=
  .new { block_size := 1024 } ⟨1, 3072, [], none, none, none, 1⟩ none

def zeros (_ : Nat) : Bytes := List.replicate 3072 0

def firstBlock : RequestInfo := { piece_index := 0, begin := 0, length := 1024, timestamp := 0 }

def lastBlock : RequestInfo := { piece_index := 0, begin := 2048, length := 1024, timestamp := 0 }

theorem asksForBlocks_threeBlocks :
    AsksForBlocks {} zeros threeBlocks [firstBlock, lastBlock]
      (coalesceRequests {} [firstBlock, lastBlock]) := by
  have hpieces : threeBlocks.pieces = [PieceData.new 1024 0 3072] := by decide
  refine asksForBlocks {} (by decide : 0 < 1024) ?_ ?_ (List.Perm.refl _)
  · intro r hr
    refine ⟨PieceData.new 1024 0 3072, ?_⟩
    obtain rfl | hr := List.mem_cons.mp hr
    · exact ⟨by rw [hpieces]; rfl, rfl, ⟨0, 0, 1024, [], false, ∅⟩, by decide⟩
    · cases List.mem_singleton.mp hr
      exact ⟨by rw [hpieces]; rfl, rfl, ⟨0, 2048, 1024, [], false, ∅⟩, by decide⟩
  · intro i piece hpiece
    rw [hpieces] at hpiece
    cases List.mem_singleton.mp (List.mem_of_getElem? hpiece)
    exact List.length_replicate

/-- The first and the last block are requested with the one between them, and when all three
come neither is accepted. Requests that are not coalesced may be for one block. -/
theorem not_deliversBlocks_threeBlocks :
    (¬ ∀ i x, (∃ q ∈ coalesceRequests {} [firstBlock, lastBlock], q.Covers i x) ↔
      ∃ r ∈ [firstBlock, lastBlock], r.Covers i x) ∧
    acceptedBlocks zeros threeBlocks (coalesceRequests {} [firstBlock, lastBlock]) = [] ∧
    ¬ DeliversBlocks { pipeline_enable_coalescing := false } zeros threeBlocks
      [firstBlock, firstBlock] [firstBlock, firstBlock] := by
  have hcoalesced : coalesceRequests {} [firstBlock, lastBlock] =
      [{ firstBlock with length := 3072 }] := by
    rw [coalesceRequests, if_pos rfl, List.mergeSort_of_pairwise (by decide)]
    rfl
  refine ⟨fun h => ?_, ?_, fun h => ?_⟩
  · rw [hcoalesced] at h
    obtain ⟨r, hr, -, hle, hlt⟩ := (h 0 1500).mp ⟨_, List.mem_cons_self, by decide, by decide,
      by decide⟩
    obtain rfl | hr := List.mem_cons.mp hr
    · exact absurd hlt (by decide)
    · cases List.mem_singleton.mp hr
      exact absurd hle (by decide)
  · rw [hcoalesced, acceptedBlocks, if_neg, acceptedBlocks]
    rw [AsyncPieceManager.handlePieceBlock_fst]
    rintro ⟨piece, block, hpiece, hopen, hlength⟩
    have hpieces : threeBlocks.pieces = [PieceData.new 1024 0 3072] := by decide
    rw [hpieces] at hpiece
    cases hpiece
    have hfirst : PieceData.openBlock 0 (PieceData.new 1024 0 3072).blocks =
        some ⟨0, 0, 1024, [], false, ∅⟩ := by decide
    cases hfirst.symm.trans hopen
    rw [RequestInfo.answer, zeros, List.length_take, List.length_drop, List.length_replicate]
      at hlength
    exact absurd hlength (by decide)
  · have htwice := (List.pairwise_cons.mp h.once).1 firstBlock List.mem_cons_self 0 0
    exact htwice ⟨rfl, by decide, by decide⟩ ⟨rfl, by decide, by decide⟩

end Peer

end Ccbt

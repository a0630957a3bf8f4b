import Ccbt.Piece.Tasks

/-!
# Which blocks are requested: `_request_blocks_normal` of `piece/async_piece_manager.py`

The missing blocks are cut into runs of one length, a run for each peer. The length is the
quotient of the two numbers, and what the division leaves over is in no run.
-/

namespace Ccbt

open Python

namespace Piece

namespace AsyncPieceManager

/-- One round of the inner loop of `_request_blocks_normal`, behind the requests that have been
sent and with the piece as its blocks have noted them. What a peer answers may depend on the
requests. -/
def requestRound (can_request : List (Nat × String) → String → Bool)
    (sent : List (Nat × String) × PieceData) (pair : Nat × String) :
    List (Nat × String) × PieceData :=
  if can_request sent.1 pair.2 then
    (sent.1 ++ [pair], sent.2.addRequestedFrom pair.1 pair.2)
  else sent

def requestBlocksNormal (m : AsyncPieceManager)
    (can_request : List (Nat × String) → String → Bool) (piece : PieceData)
    (available_peers : List String) : List (Nat × String) × PieceData :=
  (distribute piece.getMissingBlocks (m.sortByReliability available_peers)).foldl
    (requestRound can_request) ([], piece)

/-- The blocks that are given to the peers are the first ones, in their order. -/
theorem map_fst_distribute_zipIdx {α : Type*} (blocks : List α) (k : Nat) (peers : List String)
    (first : Nat) :
    ((peers.zipIdx first).flatMap fun e =>
      ((blocks.drop (e.2 * k)).take k).map (·, e.1)).map Prod.fst =
        (blocks.drop (first * k)).take (peers.length * k) := by
  induction peers generalizing first with
  | nil => simp
  | cons peer_key peers ih =>
    have hnext : (first + 1) * k = first * k + k := Nat.succ_mul first k
    rw [List.zipIdx_cons, List.flatMap_cons, List.map_append, ih, List.map_map, hnext,
      ← List.drop_drop, List.length_cons, Nat.succ_mul, Nat.add_comm (peers.length * k) k,
      List.take_add]
    congr 1
    exact List.map_id _

theorem map_fst_distribute (missing_blocks : List Nat) (peers : List String) :
    (distribute missing_blocks peers).map Prod.fst =
      missing_blocks.take (peers.length * max 1 (missing_blocks.length / peers.length)) := by
  have hzip := map_fst_distribute_zipIdx missing_blocks
    (max 1 (missing_blocks.length / peers.length)) peers 0
  rwa [Nat.zero_mul, List.drop_zero] at hzip

theorem mem_distribute {missing_blocks : List Nat} {peers : List String} {r : Nat × String}
    (h : r ∈ distribute missing_blocks peers) : r.1 ∈ missing_blocks ∧ r.2 ∈ peers := by
  obtain ⟨⟨peer_key, i⟩, hpeer, hr⟩ := List.mem_flatMap.mp h
  obtain ⟨block, hblock, rfl⟩ := List.mem_map.mp hr
  refine ⟨List.mem_of_mem_drop (List.mem_of_mem_take hblock), ?_⟩
  exact (List.mem_zipIdx' hpeer).2 ▸ List.getElem_mem _

/-- The runs take all blocks when there are fewer blocks than peers, or when the division leaves
nothing over. -/
theorem length_le_mul_iff {n p : Nat} (hp : 0 < p) : n ≤ p * max 1 (n / p) ↔ n < p ∨ p ∣ n := by
  by_cases hlt : n < p
  · have hquot : n / p = 0 := Nat.div_eq_of_lt hlt
    rw [hquot, max_eq_left (Nat.zero_le 1), Nat.mul_one]
    exact iff_of_true hlt.le (.inl hlt)
  · have hle : 1 ≤ n / p := (Nat.one_le_div_iff hp).mpr (Nat.le_of_not_lt hlt)
    rw [max_eq_right hle, or_iff_right hlt]
    constructor
    · intro h
      exact ⟨n / p, Nat.le_antisymm h (Nat.mul_div_le n p)⟩
    · intro h
      exact (Nat.mul_div_cancel' h).ge

variable {m : AsyncPieceManager} {can_request : List (Nat × String) → String → Bool}
  {piece : PieceData} {available_peers : List String}

/-- A block knows that the peer has been asked for it. -/
def Asked (piece : PieceData) (r : Nat × String) : Prop :=
  ∃ block, piece.blocks[r.1]? = some block ∧ r.2 ∈ block.requested_from

theorem asked_addRequestedFrom {r : Nat × String} (hr : r.1 < piece.blocks.length) :
    Asked (piece.addRequestedFrom r.1 r.2) r := by
  simp only [Asked, PieceData.addRequestedFrom, List.getElem?_modify,
    List.getElem?_eq_getElem hr]
  exact ⟨_, rfl, by simp⟩

theorem Asked.add {r : Nat × String} (h : Asked piece r) (r' : Nat × String) :
    Asked (piece.addRequestedFrom r'.1 r'.2) r := by
  obtain ⟨block, hblock, hmem⟩ := h
  simp only [Asked, PieceData.addRequestedFrom, List.getElem?_modify, hblock]
  by_cases hn : r'.1 = r.1
  · exact ⟨_, rfl, by simp [hn, hmem]⟩
  · exact ⟨_, rfl, by simpa [hn] using hmem⟩

/-- The loop over pairs whose peers can be asked. -/
theorem foldl_requestRound {pairs : List (Nat × String)}
    (hcan : ∀ requests, ∀ pair ∈ pairs, can_request requests pair.2 = true)
    (requests : List (Nat × String)) (piece : PieceData)
    (hlt : ∀ pair ∈ pairs, pair.1 < piece.blocks.length) :
    (pairs.foldl (requestRound can_request) (requests, piece)).1 = requests ++ pairs ∧
      ∀ r, Asked piece r ∨ r ∈ pairs →
        Asked (pairs.foldl (requestRound can_request) (requests, piece)).2 r := by
  induction pairs generalizing requests piece with
  | nil => exact ⟨(List.append_nil _).symm, fun r hr => hr.resolve_right List.not_mem_nil⟩
  | cons pair pairs ih =>
    have hlater : ∀ q ∈ pairs, q.1 < (piece.addRequestedFrom pair.1 pair.2).blocks.length := by
      intro q hq
      rw [PieceData.addRequestedFrom, List.length_modify]
      exact hlt q (List.mem_cons_of_mem _ hq)
    obtain ⟨hrequests, hasked⟩ := ih (fun requests q hq =>
      hcan requests q (List.mem_cons_of_mem _ hq)) (requests ++ [pair]) _ hlater
    rw [List.foldl_cons, requestRound, if_pos (hcan requests pair List.mem_cons_self)]
    refine ⟨by rw [hrequests, List.append_assoc, List.singleton_append], ?_⟩
    rintro r (hr | hr)
    · exact hasked r (.inl (hr.add pair))
    · obtain rfl | hr := List.mem_cons.mp hr
      · exact hasked r (.inl (asked_addRequestedFrom (hlt r List.mem_cons_self)))
      · exact hasked r (.inr hr)

theorem lt_of_mem_getMissingBlocks {n : Nat} (h : n ∈ piece.getMissingBlocks) :
    n < piece.blocks.length := List.mem_range.mp (List.mem_filter.mp h).1

theorem mem_sortByReliability {peer_key : String} :
    peer_key ∈ m.sortByReliability available_peers ↔ peer_key ∈ available_peers :=
  (sortOn_perm _ available_peers).mem_iff

/-- While all peers can be asked, every pair is a request that its block notes. -/
theorem requestBlocksNormal_spec
    (hcan : ∀ requests, ∀ peer_key ∈ available_peers, can_request requests peer_key = true) :
    (m.requestBlocksNormal can_request piece available_peers).1 =
        distribute piece.getMissingBlocks (m.sortByReliability available_peers) ∧
      ∀ r ∈ distribute piece.getMissingBlocks (m.sortByReliability available_peers),
        Asked (m.requestBlocksNormal can_request piece available_peers).2 r := by
  have hpairs := fun r => @mem_distribute piece.getMissingBlocks
    (m.sortByReliability available_peers) r
  obtain ⟨hrequests, hasked⟩ := foldl_requestRound
    (fun requests r hr => hcan requests r.2 (mem_sortByReliability.mp (hpairs r hr).2)) [] piece
    (fun r hr => lt_of_mem_getMissingBlocks (hpairs r hr).1)
  exact ⟨hrequests, fun r hr => hasked r (.inr hr)⟩

/-- Every missing block is asked of one of the peers, once, and knows of whom. -/
structure RequestsAll (m : AsyncPieceManager)
    (can_request : List (Nat × String) → String → Bool) (piece : PieceData)
    (available_peers : List String) : Prop where
  once : ((m.requestBlocksNormal can_request piece available_peers).1.map Prod.fst).Perm
    piece.getMissingBlocks
  available : ∀ r ∈ (m.requestBlocksNormal can_request piece available_peers).1,
    r.2 ∈ available_peers
  noted : ∀ r ∈ (m.requestBlocksNormal can_request piece available_peers).1,
    Asked (m.requestBlocksNormal can_request piece available_peers).2 r

/-- All blocks are requested exactly when the peers can share them evenly, or when there are more
peers than blocks. -/
theorem requestsAll_iff (hpeers : available_peers ≠ [])
    (hcan : ∀ requests, ∀ peer_key ∈ available_peers, can_request requests peer_key = true) :
    RequestsAll m can_request piece available_peers ↔
      piece.getMissingBlocks.length < available_peers.length ∨
        available_peers.length ∣ piece.getMissingBlocks.length := by
  obtain ⟨hrequests, hasked⟩ := @requestBlocksNormal_spec m can_request piece available_peers hcan
  have hfst := map_fst_distribute piece.getMissingBlocks (m.sortByReliability available_peers)
  have hlen : (m.sortByReliability available_peers).length = available_peers.length :=
    (sortOn_perm _ available_peers).length_eq
  rw [hlen] at hfst
  rw [← length_le_mul_iff (List.length_pos_iff.mpr hpeers)]
  constructor
  · intro h
    have hcount := h.once.length_eq
    rw [hrequests, hfst, List.length_take] at hcount
    exact min_eq_right_iff.mp hcount
  · intro hle
    refine ⟨?_, ?_, ?_⟩
    · rw [hrequests, hfst, List.take_of_length_le hle]
    · rw [hrequests]
      exact fun r hr => mem_sortByReliability.mp (mem_distribute hr).2
    · rw [hrequests]
      exact hasked

/-- The manager of a torrent of one piece of 12 octets. -/
def onePieceManager : AsyncPieceManager := new {} ⟨1, 12, [], none, none, none, 1⟩ none

theorem requestsAll_threePeers : RequestsAll onePieceManager (fun _ _ => true)
    (PieceData.new 4 0 12) ["a", "b", "c"] :=
  (requestsAll_iff (by decide) (fun _ _ _ => rfl)).mpr (.inr (by decide))

/-- Of three blocks two peers are asked for two. -/
theorem not_requestsAll_twoPeers : ¬RequestsAll onePieceManager (fun _ _ => true)
    (PieceData.new 4 0 12) ["a", "b"] := by
  intro h
  have hcount := h.once.length_eq
  revert hcount
  decide +kernel

end AsyncPieceManager

end Piece

end Ccbt

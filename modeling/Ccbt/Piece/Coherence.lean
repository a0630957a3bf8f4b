import Ccbt.Piece.Tasks

/-!
# What one step of the tasks can do

Every step of `System` is described once: what becomes of a piece, of the verified pieces, of
the tasks and of the requests. The description rests on a few facts that hold in every state
that can be reached.
-/

namespace Ccbt

open Python Transition

namespace Piece

/-- A task that sends requests has a piece that is not missing, and a piece with the right hash
is complete. -/
def Task.Ok (m : AsyncPieceManager) : Task → Prop
  | .sending t => ∃ p, m.pieces[t.piece_index]? = some p ∧ p.state ≠ .MISSING
  | .hashing i _ _ (some true) => ∃ p, m.pieces[i]? = some p ∧ p.isComplete = true
  | _ => True

namespace System

structure Coherent (s : System) : Prop where
  length : s.manager.pieces.length = s.manager.num_pieces
  complete : ∀ (i : Nat) (p : PieceData), s.manager.pieces[i]? = some p →
    p.state = .COMPLETE ∨ p.state = .VERIFIED → p.isComplete = true
  tasks : ∀ t ∈ s.tasks, t.Ok s.manager

/-- The event ends a run of `request_piece_from_peers` that has sent its requests. -/
def EndsRequests (config : Config) (s : System) (e : Event) (piece_index : Nat) : Prop :=
  ∃ n peers t, e = .resume n peers false ∧ s.tasks[n]? = some (.sending t) ∧
    t.piece_index = piece_index ∧
    nextRequest config peers t.available_peers t.pairs t.missing_blocks = none

inductive Change (config : Config) (s : System) (e : Event) (s' : System) (i : Nat)
    (p q : PieceData) : Prop
  | same (hstate : q.state = p.state) (hcontents : q.contents = p.contents)
  | filled (hopen : p.isComplete = false)
      (hstate : q.state = if q.isComplete then .COMPLETE else p.state)
  | requested (hmissing : p.state = .MISSING) (hstate : q.state = .REQUESTED)
      (hcontents : q.contents = p.contents)
      (hrequest : p.isComplete = false → ∃ r ∈ s'.requests, r.piece_index = i ∧ r.removed = false)
  | downloading (hstarted : p.state ≠ .MISSING) (hstate : q.state = .DOWNLOADING)
      (hcontents : q.contents = p.contents) (hends : EndsRequests config s e i)
  | verified (hcomplete : p.isComplete = true) (hstate : q.state = .VERIFIED)
      (hcontents : q.contents = p.contents) (hmem : i ∈ s'.manager.verified_pieces)

/-- What a step does to a state. -/
structure Moves (config : Config) (s : System) (e : Event) (s' : System) : Prop where
  length : s'.manager.pieces.length = s.manager.pieces.length
  num_pieces : s'.manager.num_pieces = s.manager.num_pieces
  pieces : ∀ (i : Nat) (p : PieceData), s.manager.pieces[i]? = some p →
    ∃ q, s'.manager.pieces[i]? = some q ∧ Change config s e s' i p q
  tasks : ∀ t ∈ s'.tasks, t ∈ s.tasks ∨ t.Ok s'.manager
  verified : s.manager.verified_pieces ⊆ s'.manager.verified_pieces
  newly_verified : ∀ i ∈ s'.manager.verified_pieces, i ∈ s.manager.verified_pieces ∨
    ∃ q, s'.manager.pieces[i]? = some q ∧ q.state = .VERIFIED
  requests : (∀ peer_key, e ≠ ._remove_peer peer_key) → ∀ r ∈ s.requests, r ∈ s'.requests

variable {config : Config} {s s' : System} {e : Event} {i n : Nat} {p q : PieceData}

/-- A step never takes a complete piece's data away. -/
theorem Change.complete (h : Change config s e s' i p q) (hp : p.isComplete = true) :
    q.isComplete = true ∧ q.contents = p.contents := by
  cases h with
  | filled hopen hstate =>
    rw [hp] at hopen
    cases hopen
  | same _ hcontents | requested _ _ hcontents _ | downloading _ _ hcontents _
  | verified _ _ hcontents _ =>
    exact ⟨(PieceData.isComplete_congr hcontents).trans hp, hcontents⟩

/-- A piece that is not missing does not become so. -/
theorem Change.state_ne (h : Change config s e s' i p q) (hp : p.state ≠ .MISSING) :
    q.state ≠ .MISSING := by
  cases h with
  | same hstate _ => rwa [hstate]
  | filled _ hstate =>
    rw [hstate]
    split
    · nofun
    · exact hp
  | requested _ hstate _ _ | downloading _ hstate _ _ | verified _ hstate _ _ =>
    rw [hstate]
    nofun

/-- A step makes no piece: what there is afterwards was there before. -/
theorem Moves.before (h : Moves config s e s') (hq : s'.manager.pieces[i]? = some q) :
    ∃ p, s.manager.pieces[i]? = some p ∧ Change config s e s' i p q := by
  have hlt : i < s.manager.pieces.length := by
    rw [← h.length]
    exact (List.getElem?_eq_some_iff.mp hq).1
  obtain ⟨q', hq', hchange⟩ := h.pieces i _ (List.getElem?_eq_getElem hlt)
  cases hq.symm.trans hq'
  exact ⟨_, List.getElem?_eq_getElem hlt, hchange⟩

/-- The facts about all states are kept. -/
theorem Coherent.of_moves (h : Coherent s) (hm : Moves config s e s') : Coherent s' where
  length := by rw [hm.length, hm.num_pieces, h.length]
  complete i q hq hstate := by
    obtain ⟨p, hp, hchange⟩ := hm.before hq
    have hold := h.complete i p hp
    cases hchange with
    | same hsame hcontents =>
      rw [hsame] at hstate
      rw [PieceData.isComplete_congr hcontents]
      exact hold hstate
    | filled hopen hnew =>
      by_contra hnot
      rw [if_neg hnot] at hnew
      rw [hnew] at hstate
      rw [hold hstate] at hopen
      cases hopen
    | requested _ hnew _ _ | downloading _ hnew _ _ =>
      rw [hnew] at hstate
      rcases hstate with hstate | hstate <;> cases hstate
    | verified hcomplete _ hcontents _ =>
      rwa [PieceData.isComplete_congr hcontents]
  tasks t ht := by
    rcases hm.tasks t ht with hold | hok
    · have hok := h.tasks t hold
      cases t with
      | sending t =>
        obtain ⟨p, hp, hstate⟩ := hok
        obtain ⟨q, hq, hchange⟩ := hm.pieces _ p hp
        exact ⟨q, hq, hchange.state_ne hstate⟩
      | hashing i expected_hash last is_valid =>
        rcases is_valid with _ | _ | _
        · trivial
        · trivial
        · obtain ⟨p, hp, hcomplete⟩ := hok
          obtain ⟨q, hq, hchange⟩ := hm.pieces _ p hp
          exact ⟨q, hq, (hchange.complete hcomplete).1⟩
      | request | verify | finished => trivial
    · exact hok

theorem moves_of_same (hpieces : s'.manager.pieces = s.manager.pieces)
    (hnum : s'.manager.num_pieces = s.manager.num_pieces)
    (hverified : s'.manager.verified_pieces = s.manager.verified_pieces)
    (htasks : ∀ t ∈ s'.tasks, t ∈ s.tasks ∨ t.Ok s'.manager)
    (hrequests : (∀ peer_key, e ≠ ._remove_peer peer_key) → ∀ r ∈ s.requests, r ∈ s'.requests) :
    Moves config s e s' where
  length := by rw [hpieces]
  num_pieces := hnum
  pieces i p hp := ⟨p, by rwa [hpieces], .same rfl rfl⟩
  tasks := htasks
  verified := by rw [hverified]
  newly_verified i hi := .inl (by rwa [hverified] at hi)
  requests := hrequests

/-- A step that changes one piece. -/
theorem moves_of_modify {f : PieceData → PieceData}
    (hpieces : s'.manager.pieces = s.manager.pieces.modify i f)
    (hnum : s'.manager.num_pieces = s.manager.num_pieces)
    (hchange : ∀ p, s.manager.pieces[i]? = some p → Change config s e s' i p (f p))
    (htasks : ∀ t ∈ s'.tasks, t ∈ s.tasks ∨ t.Ok s'.manager)
    (hverified : s'.manager.verified_pieces = s.manager.verified_pieces ∨
      s'.manager.verified_pieces = insert i s.manager.verified_pieces ∧
        ∃ q, s'.manager.pieces[i]? = some q ∧ q.state = .VERIFIED)
    (hrequests : ∀ r ∈ s.requests, r ∈ s'.requests) : Moves config s e s' where
  length := by rw [hpieces, List.length_modify]
  num_pieces := hnum
  pieces j p hp := by
    rw [hpieces, List.getElem?_modify, hp]
    by_cases hij : i = j
    · subst hij
      exact ⟨f p, by simp, hchange p hp⟩
    · exact ⟨p, by simp [hij], .same rfl rfl⟩
  tasks := htasks
  verified := by
    rcases hverified with heq | ⟨heq, -⟩
    · rw [heq]
    · rw [heq]
      exact Finset.subset_insert _ _
  newly_verified j hj := by
    rcases hverified with heq | ⟨heq, hq⟩
    · exact .inl (by rwa [heq] at hj)
    · rw [heq, Finset.mem_insert] at hj
      rcases hj with rfl | hj
      · exact .inr hq
      · exact .inl hj
  requests _ := hrequests

section Operations

theorem mem_spawn {tasks : List Task} (h : ∀ t ∈ tasks, t.Ok s.manager) :
    ∀ t ∈ (s.spawn tasks).tasks, t ∈ s.tasks ∨ t.Ok s.manager := by
  intro t ht
  rcases List.mem_append.mp ht with ht | ht
  · exact .inl ht
  · exact .inr (h t ht)

theorem mem_setTask {t u : Task} (h : u ∈ (s.setTask n t).tasks) : u ∈ s.tasks ∨ u = t :=
  List.mem_or_eq_of_mem_set h

/-- The other tasks are as before when one goes on. -/
theorem ok_setTask {m : AsyncPieceManager} {t : Task} (h : t.Ok m) :
    ∀ u ∈ (s.setTask n t).tasks, u ∈ s.tasks ∨ u.Ok m := by
  intro u hu
  rcases mem_setTask hu with hu | rfl
  · exact .inl hu
  · exact .inr h

/-- A task goes on without touching the manager. -/
theorem moves_setTask {t : Task} (h : t.Ok s.manager) : Moves config s e (s.setTask n t) :=
  moves_of_same rfl rfl rfl (ok_setTask h) fun _ _ hr => hr

theorem initializePieces_eq {m : AsyncPieceManager} (h : m.pieces.length = m.num_pieces) :
    m.initializePieces config = m := by
  rw [AsyncPieceManager.initializePieces, if_neg]
  rintro ⟨hpos, hnil⟩
  rw [hnil] at h
  exact absurd h hpos.ne

section Correct

variable {m : AsyncPieceManager} (h : ∀ (i : Nat) (p : PieceData), m.pieces[i]? = some p →
  p.state = .COMPLETE ∨ p.state = .VERIFIED → p.isComplete = true)

include h

theorem map_correct : m.pieces.map PieceData.correct = m.pieces := by
  have hcorrect : ∀ p ∈ m.pieces, p.correct = id p := by
    intro p hp
    obtain ⟨i, hi⟩ := List.getElem?_of_mem hp
    rw [PieceData.correct, if_neg]
    · rfl
    · rintro ⟨hstate, hnot⟩
      rw [h i p hi hstate] at hnot
      cases hnot
  rw [List.map_congr_left hcorrect, List.map_id]

/-- There is nothing to correct. -/
theorem getMissingPieces_snd : m.getMissingPieces.2 = m := by
  rw [AsyncPieceManager.getMissingPieces, map_correct h]

theorem selectPieces_snd (config : Config) (hlength : m.pieces.length = m.num_pieces)
    (active_peers : Nat) :
    ∃ b, (m.selectPieces config active_peers).2 = { m with endgame_mode := b } := by
  have hinfer : ¬(m.pieces ≠ [] ∧ m.num_pieces = 0) := by
    rintro ⟨hne, hzero⟩
    rw [hzero] at hlength
    exact hne (List.length_eq_zero_iff.mp hlength)
  have hmissing : m.getMissingPieces = (m.getMissingPieces.1, m) :=
    Prod.ext rfl (getMissingPieces_snd h)
  have hselected (b : Bool) : { m with endgame_mode := b }.getMissingPieces.2 =
      { m with endgame_mode := b } := getMissingPieces_snd h
  rw [AsyncPieceManager.selectPieces]
  by_cases hstop : m.download_complete = true ∨ active_peers = 0
  · rw [if_pos hstop]
    exact ⟨m.endgame_mode, rfl⟩
  · rw [if_neg hstop, if_neg hinfer, initializePieces_eq hlength]
    dsimp only
    rw [hmissing]
    dsimp only
    rw [map_correct h]
    split_ifs with hendgame
    · refine ⟨true, ?_⟩
      cases config.piece_selection with
      | RAREST_FIRST | SEQUENTIAL => exact hselected true
      | ROUND_ROBIN => rfl
    · refine ⟨m.endgame_mode, ?_⟩
      cases config.piece_selection with
      | RAREST_FIRST | SEQUENTIAL => exact hselected m.endgame_mode
      | ROUND_ROBIN => rfl

end Correct

theorem moves_handlePieceBlock (i begin : Nat) (data : Bytes) :
    Moves config s e (s.handlePieceBlock i begin data) := by
  rw [handlePieceBlock]
  obtain heq | ⟨piece, hpiece, hadded, heq⟩ := s.manager.handlePieceBlock_cases i begin data
  · rw [heq]
    exact moves_of_same rfl rfl rfl (fun _ => .inl) fun _ _ hr => hr
  · rw [heq]
    have hset : s.manager.pieces.set i (piece.addBlock begin data).2 =
        s.manager.pieces.modify i fun _ => (piece.addBlock begin data).2 := List.set_eq_modify _ _ _
    have hfilled : ∀ s' p, s.manager.pieces[i]? = some p →
        Change config s e s' i p (piece.addBlock begin data).2 := by
      intro s' p hp
      cases hpiece.symm.trans hp
      exact .filled (PieceData.isComplete_of_addBlock hadded) (PieceData.addBlock_state hadded)
    dsimp only
    split
    · refine moves_of_modify hset rfl (hfilled _) ?_ (.inl rfl) fun _ hr => hr
      exact mem_spawn (by simp [Task.Ok])
    · exact moves_of_modify hset rfl (hfilled _) (fun _ => .inl) (.inl rfl) fun _ hr => hr

/-- What sending the next request does, when there is one. -/
theorem sendNext_of_some {peers : PeerManager} {available_peers : List String}
    {pairs pairs' : List (Nat × String)} {missing_blocks missing_blocks' : List Nat}
    {current : Nat × String} (h : nextRequest config peers available_peers pairs missing_blocks =
      some (current, pairs', missing_blocks')) :
    s.sendNext config peers n i available_peers pairs missing_blocks =
      { s.setTask n (.sending ⟨i, available_peers, current, pairs', missing_blocks'⟩) with
        requests := s.requests ++ [⟨i, current.1, current.2, false⟩] } := by
  rw [sendNext, h]

/-- In its first segment a run of `request_piece_from_peers` sends a request. -/
theorem nextRequest_endgame {peers : PeerManager} {available_peers : List String}
    (havailable : available_peers ≠ []) (hall : ∀ k ∈ available_peers, peers.can_request k = true)
    {missing_blocks : List Nat} (hmissing : missing_blocks ≠ []) :
    ∃ r, nextRequest config peers available_peers [] missing_blocks = some r := by
  have hcapable : available_peers.filter peers.can_request = available_peers :=
    List.filter_eq_self.mpr hall
  obtain ⟨block, blocks, rfl⟩ := List.exists_cons_of_ne_nil hmissing
  obtain ⟨peer_key, peer_keys, rfl⟩ := List.exists_cons_of_ne_nil havailable
  obtain ⟨k, hk⟩ := Nat.exists_eq_succ_of_ne_zero config.endgame_duplicates_pos.ne'
  rw [nextRequest, List.dropWhile_nil, hcapable]
  simp only [nextBlock, hk, List.take_succ_cons]
  exact ⟨_, rfl⟩

theorem nextRequest_distribute {peers : PeerManager} {available_peers : List String}
    (havailable : available_peers ≠ []) (hall : ∀ k ∈ available_peers, peers.can_request k = true)
    {missing_blocks : List Nat} (hmissing : missing_blocks ≠ []) :
    ∃ r, nextRequest config peers available_peers
      (AsyncPieceManager.distribute missing_blocks available_peers) [] = some r := by
  obtain ⟨block, blocks, rfl⟩ := List.exists_cons_of_ne_nil hmissing
  obtain ⟨peer_key, peer_keys, rfl⟩ := List.exists_cons_of_ne_nil havailable
  have hfirst : ∃ rest, AsyncPieceManager.distribute (block :: blocks) (peer_key :: peer_keys) =
      (block, peer_key) :: rest := by
    obtain ⟨k, hk⟩ :
        ∃ k, max 1 ((block :: blocks).length / (peer_key :: peer_keys).length) = k + 1 :=
      Nat.exists_eq_succ_of_ne_zero (by omega)
    rw [AsyncPieceManager.distribute, hk, List.zipIdx_cons]
    simp only [List.flatMap_cons, Nat.zero_mul, List.drop_zero, List.take_succ_cons, List.map_cons,
      List.cons_append]
    exact ⟨_, rfl⟩
  obtain ⟨rest, hrest⟩ := hfirst
  rw [nextRequest, hrest, List.dropWhile_cons_of_neg]
  · exact ⟨_, rfl⟩
  · simp [hall peer_key List.mem_cons_self]

theorem getElem?_modifyPiece {m : AsyncPieceManager} (hp : m.pieces[i]? = some p)
    (f : PieceData → PieceData) : (m.modifyPiece i f).pieces[i]? = some (f p) := by
  rw [AsyncPieceManager.modifyPiece, List.getElem?_modify_eq, hp]
  rfl

/-- The first segment that sends a request. -/
theorem moves_sendFirst {peers : PeerManager} {available_peers : List String}
    {pairs : List (Nat × String)} {missing_blocks : List Nat} (hp : s.manager.pieces[i]? = some p)
    (hmissing : p.state = .MISSING)
    (hnext : ∃ r, nextRequest config peers available_peers pairs missing_blocks = some r) :
    Moves config s e ((s.setManager (s.manager.modifyPiece i fun piece =>
      { piece with state := .REQUESTED, request_count := piece.request_count + 1 })).sendNext
        config peers n i available_peers pairs missing_blocks) := by
  obtain ⟨⟨current, pairs', missing_blocks'⟩, hnext⟩ := hnext
  rw [sendNext_of_some hnext]
  refine moves_of_modify rfl rfl ?_ (ok_setTask ⟨_, getElem?_modifyPiece hp _, nofun⟩) (.inl rfl)
    fun r hr => List.mem_append_left _ hr
  intro p' hp'
  cases hp.symm.trans hp'
  exact .requested hmissing rfl rfl fun _ =>
    ⟨_, List.mem_append_right _ (List.mem_singleton.mpr rfl), rfl, rfl⟩

theorem moves_startRequest (h : Coherent s) (peers : PeerManager) (n i : Nat) :
    Moves config s e (s.startRequest config peers n i) := by
  have hsame : Moves config s e ((s.setManager s.manager).setTask n .finished) :=
    moves_setTask trivial
  rw [startRequest, initializePieces_eq h.length]
  dsimp only
  cases hp : s.manager.pieces[i]? with
  | none => exact hsame
  | some p =>
    dsimp only
    split
    · exact hsame
    · next hmissing =>
      have hmissing := not_not.mp hmissing
      split
      · -- no peer can be asked, and the piece is missing as before
        refine moves_of_modify (List.modify_modify_eq _ _ _ _) rfl ?_ (ok_setTask trivial)
          (.inl rfl) fun _ hr => hr
        intro p' hp'
        cases hp.symm.trans hp'
        exact .same hmissing.symm rfl
      · next hblocks =>
        refine moves_of_modify rfl rfl ?_ (ok_setTask trivial) (.inl rfl) fun _ hr => hr
        intro p' hp'
        cases hp.symm.trans hp'
        refine .requested hmissing rfl rfl fun hnot => ?_
        rw [PieceData.isComplete_of_getMissingBlocks hblocks] at hnot
        cases hnot
      · next _ _ peer_key peer_keys havailable hblocks =>
        have hcan : ∀ k ∈ peer_key :: peer_keys, peers.can_request k = true := by
          intro k hk
          rw [← havailable, AsyncPieceManager.getPeersForPiece, List.mem_filter,
            Bool.and_eq_true] at hk
          exact hk.2.2
        have hperm : (s.manager.sortByReliability (peer_key :: peer_keys)).Perm
            (peer_key :: peer_keys) := sortOn_perm _ _
        have hsome : s.manager.sortByReliability (peer_key :: peer_keys) ≠ [] := by
          intro hnil
          rw [hnil] at hperm
          exact List.cons_ne_nil _ _ hperm.symm.eq_nil
        have hsorted : ∀ k ∈ s.manager.sortByReliability (peer_key :: peer_keys),
            peers.can_request k = true := fun k hk => hcan k (hperm.mem_iff.mp hk)
        split
        · exact moves_sendFirst hp hmissing
            (nextRequest_endgame (List.cons_ne_nil _ _) hcan hblocks)
        · exact moves_sendFirst hp hmissing (nextRequest_distribute hsome hsorted hblocks)

/-- A run of `request_piece_from_peers` goes on. -/
theorem moves_requestSent (h : Coherent s) {peers : PeerManager} {t : Sending}
    (ht : s.tasks[n]? = some (.sending t)) :
    Moves config s (.resume n peers false) (s.requestSent config peers n t) := by
  obtain ⟨p, hp, hstarted⟩ := h.tasks _ (List.mem_of_getElem? ht)
  rw [requestSent]
  cases hnext : nextRequest config peers t.available_peers t.pairs t.missing_blocks with
  | some r =>
    obtain ⟨current, pairs, missing_blocks⟩ := r
    rw [sendNext_of_some hnext]
    refine moves_of_modify rfl rfl ?_ (ok_setTask ⟨_, getElem?_modifyPiece hp _, hstarted⟩)
      (.inl rfl) fun r hr => List.mem_append_left _ hr
    intro p _
    exact .same rfl (PieceData.contents_addRequestedFrom _ _)
  | none =>
    rw [sendNext, hnext]
    refine moves_of_modify (List.modify_modify_eq _ _ _ _) rfl ?_ (ok_setTask trivial) (.inl rfl)
      fun _ hr => hr
    intro p' hp'
    cases hp.symm.trans hp'
    exact .downloading hstarted rfl (PieceData.contents_addRequestedFrom _ _)
      ⟨n, peers, t, rfl, ht, rfl, hnext⟩

/-- The piece has the hash, so it is complete. -/
theorem isComplete_of_hash {expected_hash : Bytes}
    (h : AsyncPieceManager.hashPieceOptimized config p expected_hash = true) :
    p.isComplete = true := by
  rw [AsyncPieceManager.hashPieceOptimized, PieceData.getData] at h
  by_contra hnot
  rw [if_neg hnot] at h
  cases h

/-- What the executor answers is true of the piece. -/
theorem ok_hashing (i : Nat) (expected_hash : Bytes) (last : Bool) :
    (Task.hashing i expected_hash last (some (s.manager.pieces[i]?.any fun piece =>
      AsyncPieceManager.hashPieceOptimized config piece expected_hash))).Ok s.manager := by
  cases hp : s.manager.pieces[i]? with
  | none => trivial
  | some p =>
    rw [Option.any_some]
    cases hhash : AsyncPieceManager.hashPieceOptimized config p expected_hash with
    | false => trivial
    | true => exact ⟨p, hp, isComplete_of_hash hhash⟩

@[simp] theorem manager_call (b : Bool) (c : Callback) : (s.call b c).manager = s.manager := by
  unfold call
  split <;> rfl

@[simp] theorem tasks_call (b : Bool) (c : Callback) : (s.call b c).tasks = s.tasks := by
  unfold call
  split <;> rfl

@[simp] theorem requests_call (b : Bool) (c : Callback) :
    (s.call b c).requests = s.requests := by
  unfold call
  split <;> rfl

/-- The manager when a piece has been verified. -/
theorem manager_pieceVerified (i : Nat) : (s.pieceVerified i).manager =
    { s.manager.setState i .VERIFIED with
      verified_pieces := insert i s.manager.verified_pieces
      download_complete := s.manager.download_complete ||
        decide ((insert i s.manager.verified_pieces).card = s.manager.num_pieces) } := by
  rw [pieceVerified]
  dsimp only
  split
  · next hall =>
    have hall : (insert i s.manager.verified_pieces).card = s.manager.num_pieces := hall
    rw [manager_call, decide_eq_true hall, Bool.or_true]
    rfl
  · next hnot =>
    have hnot : (insert i s.manager.verified_pieces).card ≠ s.manager.num_pieces := hnot
    rw [manager_call, decide_eq_false hnot, Bool.or_false]
    rfl

theorem tasks_pieceVerified (i : Nat) : (s.pieceVerified i).tasks = s.tasks := by
  rw [pieceVerified]
  dsimp only
  split
  · rw [tasks_call]
    exact tasks_call _ _
  · exact tasks_call _ _

theorem requests_pieceVerified (i : Nat) : (s.pieceVerified i).requests = s.requests := by
  rw [pieceVerified]
  dsimp only
  split
  · rw [requests_call]
    exact requests_call _ _
  · exact requests_call _ _

theorem moves_hashed (h : Coherent s) {expected_hash : Bytes} {last is_valid : Bool}
    (ht : s.tasks[n]? = some (.hashing i expected_hash last (some is_valid))) :
    Moves config s e (s.hashed n i last is_valid) := by
  rw [hashed]
  split
  · exact moves_setTask trivial
  · next hvalid =>
    split
    · rw [Bool.not_eq_false] at hvalid
      subst hvalid
      obtain ⟨p, hp, hcomplete⟩ := h.tasks _ (List.mem_of_getElem? ht)
      have hmanager := @manager_pieceVerified (s.setTask n .finished) i
      have hnew : ((s.setTask n .finished).pieceVerified i).manager.pieces[i]? =
          some { p with state := .VERIFIED } := by
        rw [hmanager]
        exact getElem?_modifyPiece hp _
      have hverified : ((s.setTask n .finished).pieceVerified i).manager.verified_pieces =
          insert i s.manager.verified_pieces := by
        rw [hmanager]
        rfl
      refine moves_of_modify (by rw [hmanager]; rfl) (by rw [hmanager]; rfl) ?_ ?_
        (.inr ⟨hverified, _, hnew, rfl⟩) ?_
      · intro p' hp'
        cases hp.symm.trans hp'
        refine .verified hcomplete rfl rfl ?_
        rw [hverified]
        exact Finset.mem_insert_self _ _
      · intro u hu
        rw [tasks_pieceVerified] at hu
        exact ok_setTask (t := .finished) trivial u hu
      · intro r hr
        rwa [requests_pieceVerified]
    · split <;> exact moves_setTask trivial

theorem moves_resume (h : Coherent s) (n : Nat) (peers : PeerManager) (raises : Bool) :
    Moves config s (.resume n peers raises) (s.resume config n peers raises) := by
  have hsame : Moves config s (.resume n peers raises) s :=
    moves_of_same rfl rfl rfl (fun _ => .inl) fun _ _ hr => hr
  rw [resume]
  cases ht : s.tasks[n]? with
  | none => exact hsame
  | some task =>
    cases task with
    | request i => exact moves_startRequest h peers n i
    | sending t =>
      cases raises with
      | true => exact moves_setTask trivial
      | false => exact moves_requestSent h ht
    | verify i =>
      dsimp only
      rw [startVerify]
      split <;> exact moves_setTask trivial
    | hashing i expected_hash last is_valid =>
      cases is_valid with
      | none => exact hsame
      | some is_valid => exact moves_hashed h ht
    | finished => exact hsame

/-- What every step does. -/
theorem moves_step (config : Config) (h : Coherent s) (e : Event) :
    Moves config s e (s.step config e) := by
  cases e with
  | handle_piece_block i begin data => exact moves_handlePieceBlock i begin data
  | request_piece_from_peers i =>
    exact moves_of_same rfl rfl rfl (mem_spawn (by simp [Task.Ok])) fun _ _ hr => hr
  | _verify_piece_hash i =>
    rw [step]
    split
    · exact moves_of_same rfl rfl rfl (mem_spawn (by simp [Task.Ok])) fun _ _ hr => hr
    · exact moves_of_same rfl rfl rfl (fun _ => .inl) fun _ _ hr => hr
  | get_missing_pieces =>
    rw [step, getMissingPieces_snd h.complete]
    exact moves_of_same rfl rfl rfl (fun _ => .inl) fun _ _ hr => hr
  | _select_pieces active_peers =>
    obtain ⟨b, hb⟩ := selectPieces_snd h.complete config h.length active_peers
    rw [step]
    dsimp only
    rw [hb]
    exact moves_of_same rfl rfl rfl (mem_spawn (by simp [Task.Ok])) fun _ _ hr => hr
  | _add_peer peer_key =>
    rw [step, AsyncPieceManager.addPeer]
    split <;> exact moves_of_same rfl rfl rfl (fun _ => .inl) fun _ _ hr => hr
  | update_peer_availability peer_key bitfield =>
    exact moves_of_same rfl rfl rfl (fun _ => .inl) fun _ _ hr => hr
  | update_peer_have peer_key i =>
    exact moves_of_same rfl rfl rfl (fun _ => .inl) fun _ _ hr => hr
  | _remove_peer peer_key =>
    rw [step, AsyncPieceManager.removePeer]
    split <;>
      exact moves_of_same rfl rfl rfl (fun _ => .inl) fun hkeep _ _ => absurd rfl (hkeep peer_key)
  | resume n peers raises => exact moves_resume h n peers raises
  | hash n =>
    rw [step, hash]
    split
    · exact moves_setTask (ok_hashing _ _ _)
    · exact moves_of_same rfl rfl rfl (fun _ => .inl) fun _ _ hr => hr

theorem coherent_step (config : Config) (h : Coherent s) (e : Event) : Coherent (s.step config e) :=
  h.of_moves (moves_step config h e)

theorem coherent_setTask {t : Task} (h : Coherent s) (hok : t.Ok s.manager) :
    Coherent (s.setTask n t) := by
  have hmoves : Moves {} s .get_missing_pieces (s.setTask n t) := moves_setTask hok
  exact h.of_moves hmoves

theorem coherent_new (t : TorrentData) (fm : Option FileSelectionManager) (a b c : Bool) :
    Coherent (new config t fm a b c) where
  length := by
    rw [new, AsyncPieceManager.new, List.length_map, List.length_range]
  complete i p hp hstate := by
    rw [new, AsyncPieceManager.new, List.getElem?_map, Option.map_eq_some_iff] at hp
    obtain ⟨j, -, rfl⟩ := hp
    rcases hstate with hstate | hstate <;> cases hstate
  tasks t ht := absurd ht List.not_mem_nil

end Operations

end System

end Piece

end Ccbt

import Ccbt.Piece.Coherence

/-!
# Verified pieces, and pieces whose check fails

A run of `request_piece_from_peers` ends by writing DOWNLOADING, whatever has become of the piece
meanwhile. As long as this never meets a verified piece, verified pieces stay as they are. A
failed check leaves the manager as it was.
-/

namespace Ccbt

open Python Transition

namespace Piece

namespace System

variable {config : Config} {s : System} {e : Event} {i n : Nat} {p : PieceData}

section Verified

/-- `verified_pieces` has the pieces in the state VERIFIED, and no others. -/
def VerifiedExact (s : System) : Prop :=
  ∀ i, i ∈ s.manager.verified_pieces ↔
    ∃ p, s.manager.pieces[i]? = some p ∧ p.state = .VERIFIED

/-- The piece is verified and has this data. -/
def HasVerified (i : Nat) (data : Option Bytes) (s : System) : Prop :=
  ∃ p, s.manager.pieces[i]? = some p ∧ p.state = .VERIFIED ∧ p.getData = data

/-- A piece that is verified somewhere in a run stays so with its data. -/
def VerifiedStays (config : Config) (s : System) (es : List Event) : Prop :=
  ∀ n i data, HasVerified i data (run (step config) s (es.take n)) →
    Always (step config) (HasVerified i data) (run (step config) s (es.take n)) (es.drop n)

/-- No run of `request_piece_from_peers` ends here on a verified piece. -/
def KeepsVerified (config : Config) (s : System) (e : Event) : Prop :=
  ∀ i, EndsRequests config s e i →
    ∀ p, s.manager.pieces[i]? = some p → p.state ≠ .VERIFIED

/-- The piece of a run that ends is in the state DOWNLOADING. -/
theorem state_of_endsRequests (h : Coherent s) (he : EndsRequests config s e i) :
    ∃ p, (s.step config e).manager.pieces[i]? = some p ∧ p.state = .DOWNLOADING := by
  obtain ⟨n, peers, t, rfl, ht, rfl, hnext⟩ := he
  obtain ⟨p, hp, -⟩ := h.tasks _ (List.mem_of_getElem? ht)
  have hsent := getElem?_modifyPiece hp fun piece => piece.addRequestedFrom t.current.1 t.current.2
  rw [step, resume, ht]
  simp only [Bool.false_eq_true, if_false, requestSent, sendNext, hnext]
  exact ⟨_, getElem?_modifyPiece hsent _, rfl⟩

theorem hasVerified_step (h : Coherent s) (he : KeepsVerified config s e) {data : Option Bytes}
    (hv : HasVerified i data s) : HasVerified i data (s.step config e) := by
  obtain ⟨p, hp, hstate, hdata⟩ := hv
  obtain ⟨q, hq, hchange⟩ := (moves_step config h e).pieces i p hp
  have hcontents := (hchange.complete (h.complete i p hp (.inr hstate))).2
  refine ⟨q, hq, ?_, (PieceData.getData_congr hcontents).trans hdata⟩
  cases hchange with
  | same hsame _ => rw [hsame, hstate]
  | filled hopen _ =>
    rw [h.complete i p hp (.inr hstate)] at hopen
    cases hopen
  | requested hmissing _ _ _ =>
    rw [hstate] at hmissing
    cases hmissing
  | downloading _ _ _ hends => exact absurd hstate (he i hends p hp)
  | verified _ hnew _ _ => exact hnew

theorem verifiedExact_step (h : Coherent s) (hexact : VerifiedExact s)
    (he : KeepsVerified config s e) : VerifiedExact (s.step config e) := by
  have hmoves := moves_step config h e
  intro i
  constructor
  · intro hi
    rcases hmoves.newly_verified i hi with hold | hnew
    · obtain ⟨p, hp, hstate⟩ := (hexact i).mp hold
      obtain ⟨q, hq, hq', -⟩ := hasVerified_step h he ⟨p, hp, hstate, rfl⟩
      exact ⟨q, hq, hq'⟩
    · exact hnew
  · rintro ⟨q, hq, hstate⟩
    obtain ⟨p, hp, hchange⟩ := hmoves.before hq
    cases hchange with
    | same hsame _ =>
      rw [hsame] at hstate
      exact hmoves.verified ((hexact i).mpr ⟨_, hp, hstate⟩)
    | filled hopen hnew =>
      by_cases hfull : q.isComplete = true
      · rw [if_pos hfull, hstate] at hnew
        cases hnew
      · rw [if_neg hfull, hstate] at hnew
        rw [h.complete i _ hp (.inr hnew.symm)] at hopen
        cases hopen
    | requested _ hnew _ _ | downloading _ hnew _ _ =>
      rw [hstate] at hnew
      cases hnew
    | verified _ _ _ hmem => exact hmem

theorem verifiedExact_new (t : TorrentData) (fm : Option FileSelectionManager) (a b c : Bool) :
    VerifiedExact (new config t fm a b c) := by
  intro i
  refine iff_of_false (Finset.notMem_empty i) ?_
  rintro ⟨p, hp, hstate⟩
  rw [new, AsyncPieceManager.new, List.getElem?_map, Option.map_eq_some_iff] at hp
  obtain ⟨j, -, rfl⟩ := hp
  cases hstate

/-- Verified pieces are kept in a run if no run of `request_piece_from_peers` ends on one of
them, and only then. -/
theorem verified_kept_iff (config : Config) (t : TorrentData) (fm : Option FileSelectionManager)
    (a b c : Bool) (es : List Event) :
    (Always (step config) VerifiedExact (new config t fm a b c) es ∧
      VerifiedStays config (new config t fm a b c) es) ↔
      StepsMeet (step config) (KeepsVerified config) (new config t fm a b c) es := by
  have hexact : Always (step config) VerifiedExact (new config t fm a b c) es ↔
      StepsMeet (step config) (KeepsVerified config) (new config t fm a b c) es := by
    have hnew : Coherent (new config t fm a b c) ∧ VerifiedExact (new config t fm a b c) :=
      ⟨coherent_new t fm a b c, verifiedExact_new t fm a b c⟩
    have hpart : ∀ s, Coherent s ∧ VerifiedExact s → VerifiedExact s := fun s h => h.2
    refine always_iff_stepsMeet_of hpart ?_ ?_ hnew
    · rintro s e ⟨h, hexact⟩ hnext i hends p hp hstate
      obtain ⟨q, hq, hdownloading⟩ := state_of_endsRequests h hends
      have hmem := (moves_step config h e).verified ((hexact i).mpr ⟨p, hp, hstate⟩)
      obtain ⟨q', hq', hverified⟩ := (hnext i).mp hmem
      cases hq.symm.trans hq'
      rw [hdownloading] at hverified
      cases hverified
    · rintro s e ⟨h, hexact⟩ he
      exact ⟨coherent_step config h e, verifiedExact_step h hexact he⟩
  rw [← hexact, and_iff_left_iff_imp]
  intro hall n i data hv
  have hcoherent : ∀ s e, Coherent s → Coherent (step config s e) :=
    fun s e h => coherent_step config h e
  have hkept : ∀ s e, Coherent s ∧ HasVerified i data s → KeepsVerified config s e →
      Coherent (step config s e) ∧ HasVerified i data (step config s e) :=
    fun s e h he => ⟨coherent_step config h.1 e, hasVerified_step h.1 he h.2⟩
  have hstart : Coherent (run (step config) (new config t fm a b c) (es.take n)) :=
    always_iff_take.mp (always_of_invariant hcoherent (coherent_new t fm a b c) es) n
  exact (always_of_stepsMeet hkept ⟨hstart, hv⟩ (stepsMeet_drop (hexact.mp hall) n)).mono
    fun s h => h.2

/-- A peer that takes every request. -/
def answering (peer_key : String) : PeerManager := ⟨[peer_key], fun _ => true⟩

/-- A piece of one block arrives and is verified while the request for it is still being sent. -/
def lateRequest : List Event :=
  [.update_peer_have "10.0.0.1:6881" 0, .request_piece_from_peers 0,
    .resume 0 (answering "10.0.0.1:6881") false, .handle_piece_block 0 0 [1, 2, 3, 4],
    .resume 1 (answering "10.0.0.1:6881") false, .hash 1,
    .resume 1 (answering "10.0.0.1:6881") false, .resume 0 (answering "10.0.0.1:6881") false]

/-- A torrent of one piece of four octets, with all callbacks. -/
def onePiece : System := new {} ⟨1, 4, [sha1 [1, 2, 3, 4]], none, none, none, 1⟩ none true true true

theorem not_verifiedExact (hmem : i ∈ s.manager.verified_pieces)
    (hstate : s.manager.pieces[i]?.map PieceData.state = some .DOWNLOADING) : ¬VerifiedExact s := by
  intro hexact
  obtain ⟨p, hp, hverified⟩ := (hexact i).mp hmem
  rw [hp, Option.map_some, hverified] at hstate
  cases hstate

theorem lateRequest_not_kept : ¬(Always (step {}) VerifiedExact onePiece lateRequest ∧
    VerifiedStays {} onePiece lateRequest) := by
  rintro ⟨hexact, -⟩
  refine not_verifiedExact (i := 0) (s := run (step {}) onePiece (lateRequest.take 8)) ?_ ?_
    (always_iff_take.mp hexact 8)
  · decide +kernel
  · decide +kernel

end Verified

section Failed

/-- The piece can be downloaded again. -/
structure Redownloadable (s : System) (i : Nat) (p : PieceData) : Prop where
  missing : p.state = .MISSING
  empty : ∀ b ∈ p.blocks, b.received = false ∧ b.data = []
  not_completed : i ∉ s.manager.completed_pieces
  returned : s.manager.isPieceNeeded i = true → i ∈ s.manager.getMissingPieces.1
  accepted : ∀ b ∈ p.blocks, ∀ data : Bytes, data.length = b.length →
    (s.manager.handlePieceBlock i b.begin data).1 = true

/-- The event is a step of the task or of the executor for it. -/
def Event.OfTask (n : Nat) : Event → Prop
  | .resume m _ _ | .hash m => m = n
  | _ => False

/-- The steps of a verification, as many as there can be. -/
def verification (n : Nat) (peers : PeerManager) : List Event :=
  [.resume n peers false, .hash n, .resume n peers false, .hash n, .resume n peers false]

/-- A verification that can only fail. -/
def Failing (config : Config) (m : AsyncPieceManager) (i : Nat) (p : PieceData) : Task → Prop
  | .verify j => j = i
  | .hashing j expected_hash last is_valid => j = i ∧
    (∀ b, is_valid = some b → b = AsyncPieceManager.hashPieceOptimized config p expected_hash) ∧
    (AsyncPieceManager.hashPieceOptimized config p expected_hash = true → last = false ∧
      ∀ h, m.getV2PieceHash i = some h → AsyncPieceManager.hashPieceOptimized config p h = false)
  | .finished => True
  | _ => False

theorem getElem?_setTask {task : Task} (ht : s.tasks[n]? = some task) (t : Task) :
    (s.setTask n t).tasks[n]? = some t :=
  List.getElem?_set_self (List.getElem?_eq_some_iff.mp ht).1

/-- The first hash is wrong, or it is not the last and the second is. -/
theorem failing_hashing (hfail : s.manager.hashesToExpected config i p = false)
    {expected_hash : Bytes} {last : Bool}
    (hfirst : s.manager.firstHash i = some (expected_hash, last)) :
    Failing config s.manager i p (.hashing i expected_hash last none) := by
  refine ⟨rfl, nofun, fun hhash => ?_⟩
  rw [AsyncPieceManager.hashesToExpected, hfirst] at hfail
  cases last with
  | true =>
    have hwrong : AsyncPieceManager.hashPieceOptimized config p expected_hash = false := hfail
    rw [hhash] at hwrong
    cases hwrong
  | false =>
    refine ⟨rfl, fun h hh => ?_⟩
    simpa only [hhash, hh, Bool.true_and] using hfail

/-- A failing verification goes on without touching the manager. -/
theorem failing_step (hp : s.manager.pieces[i]? = some p)
    (hfail : s.manager.hashesToExpected config i p = false) {task : Task}
    (ht : s.tasks[n]? = some task) (hfailing : Failing config s.manager i p task)
    (he : Event.OfTask n e) : (s.step config e).manager = s.manager ∧
      ∃ task', (s.step config e).tasks[n]? = some task' ∧
        Failing config s.manager i p task' := by
  have hset (t : Task) (h : Failing config s.manager i p t) : (s.setTask n t).manager = s.manager ∧
      ∃ task', (s.setTask n t).tasks[n]? = some task' ∧ Failing config s.manager i p task' :=
    ⟨rfl, t, getElem?_setTask ht t, h⟩
  cases e with
  | resume m peers raises =>
    cases he
    rw [step, resume, ht]
    cases task with
    | verify j =>
      cases hfailing
      dsimp only
      rw [startVerify]
      split
      · exact hset _ trivial
      · next hfirst => exact hset _ (failing_hashing hfail hfirst)
    | hashing j expected_hash last is_valid =>
      obtain ⟨rfl, hvalid, hwrong⟩ := hfailing
      cases is_valid with
      | none => exact ⟨rfl, _, ht, rfl, hvalid, hwrong⟩
      | some b =>
        have hb := hvalid b rfl
        dsimp only
        rw [hashed]
        split
        · exact hset _ trivial
        · next hnot =>
          rw [Bool.not_eq_false] at hnot
          obtain ⟨rfl, hsecond⟩ := hwrong (hb.symm.trans hnot)
          rw [if_neg Bool.false_ne_true]
          split
          · exact hset _ trivial
          · next h hh =>
            refine hset _ ⟨rfl, fun _ hb => absurd hb.symm (Option.some_ne_none _), fun htrue => ?_⟩
            rw [hsecond h hh] at htrue
            cases htrue
    | finished => exact ⟨rfl, _, ht, trivial⟩
    | request | sending => exact hfailing.elim
  | hash m =>
    cases he
    rw [step, hash, ht]
    cases task with
    | hashing j expected_hash last is_valid =>
      obtain ⟨rfl, hvalid, hwrong⟩ := hfailing
      cases is_valid with
      | none =>
        refine hset _ ⟨rfl, fun b hb => ?_, hwrong⟩
        rw [hp, Option.any_some] at hb
        exact (Option.some_inj.mp hb).symm
      | some b => exact ⟨rfl, _, ht, rfl, hvalid, hwrong⟩
    | verify | finished => exact ⟨rfl, _, ht, hfailing⟩
    | request | sending => exact hfailing.elim
  | _ => exact he.elim

/-- A verification that fails never touches the manager. -/
theorem failing_run (hp : s.manager.pieces[i]? = some p)
    (hfail : s.manager.hashesToExpected config i p = false) {task : Task}
    (ht : s.tasks[n]? = some task) (hfailing : Failing config s.manager i p task)
    {es : List Event} (hes : ∀ e ∈ es, Event.OfTask n e) :
    (run (step config) s es).manager = s.manager := by
  induction es generalizing s task with
  | nil => rfl
  | cons e es ih =>
    obtain ⟨he, hes⟩ := List.forall_mem_cons.mp hes
    obtain ⟨hmanager, task', ht', hfailing'⟩ := failing_step hp hfail ht hfailing he
    rw [run_cons, ih (by rwa [hmanager]) (by rwa [hmanager]) ht' (by rwa [hmanager]) hes, hmanager]

theorem run_finished (ht : s.tasks[n]? = some .finished) {es : List Event}
    (hes : ∀ e ∈ es, Event.OfTask n e) : run (step config) s es = s := by
  induction es with
  | nil => rfl
  | cons e es ih =>
    obtain ⟨he, hes⟩ := List.forall_mem_cons.mp hes
    have hstep : s.step config e = s := by
      cases e with
      | resume m peers raises =>
        cases he
        rw [step, resume, ht]
      | hash m =>
        cases he
        rw [step, hash, ht]
      | _ => exact he.elim
    rw [run_cons, hstep, ih hes]

/-- The executor answers, and the task ends or compares the second hash. -/
theorem run_hashing (config : Config) {expected_hash : Bytes} {last : Bool}
    (ht : s.tasks[n]? = some (.hashing i expected_hash last none)) (peers : PeerManager) :
    (run (step config) s [.hash n, .resume n peers false]).tasks[n]? = some .finished ∨
      last = false ∧ ∃ h, (run (step config) s [.hash n, .resume n peers false]).tasks[n]? =
        some (.hashing i h true none) := by
  have hhash : ∃ b, s.step config (.hash n) =
      s.setTask n (.hashing i expected_hash last (some b)) := by
    rw [step, hash, ht]
    exact ⟨_, rfl⟩
  obtain ⟨b, hb⟩ := hhash
  have hset := getElem?_setTask ht (.hashing i expected_hash last (some b))
  rw [run_cons, run_cons, run_nil, hb, step, resume, hset]
  dsimp only
  rw [hashed]
  split
  · exact .inl (getElem?_setTask hset _)
  · split
    · refine .inl ?_
      rw [tasks_pieceVerified]
      exact getElem?_setTask hset _
    · next hlast =>
      split
      · exact .inl (getElem?_setTask hset _)
      · exact .inr ⟨Bool.not_eq_true _ ▸ hlast, _, getElem?_setTask hset _⟩

/-- A verification comes to its end. -/
theorem verification_finishes (ht : s.tasks[n]? = some (.verify i)) (peers : PeerManager) :
    (run (step config) s (verification n peers)).tasks[n]? = some .finished := by
  have hown : ∀ e ∈ [Event.hash n, .resume n peers false], Event.OfTask n e := by
    simp [Event.OfTask]
  have hstart : s.step config (.resume n peers false) = s.startVerify n i := by
    rw [step, resume, ht]
  have hsplit : run (step config) s (verification n peers) =
      run (step config) (run (step config) (s.startVerify n i) [.hash n, .resume n peers false])
        [.hash n, .resume n peers false] := by
    rw [← hstart]
    rfl
  rw [hsplit, startVerify]
  split
  · have hfinished := getElem?_setTask ht .finished
    rw [run_finished hfinished hown, run_finished hfinished hown]
    exact hfinished
  · next expected_hash last _ =>
    have hhashing := getElem?_setTask ht (.hashing i expected_hash last none)
    obtain hfinished | ⟨-, h, hsecond⟩ := run_hashing config hhashing peers
    · rw [run_finished hfinished hown]
      exact hfinished
    · obtain hfinished | ⟨hlast, -⟩ := run_hashing config hsecond peers
      · exact hfinished
      · cases hlast

/-- The verification of a complete piece with wrong data ends, and leaves a piece that can be
downloaded again only where there is nothing to download. -/
theorem failed_check_iff (config : Config) {s : System} {n i : Nat} {p : PieceData}
    (peers : PeerManager) (ht : s.tasks[n]? = some (.verify i))
    (hp : s.manager.pieces[i]? = some p) (hcomplete : p.isComplete = true)
    (hfail : s.manager.hashesToExpected config i p = false) :
    (run (step config) s (verification n peers)).tasks[n]? = some .finished ∧
      ∀ es, (∀ e ∈ es, Event.OfTask n e) →
        ((∃ q, (run (step config) s es).manager.pieces[i]? = some q ∧
          Redownloadable (run (step config) s es) i q) ↔
          p.blocks = [] ∧ p.state = .MISSING ∧ i ∉ s.manager.completed_pieces) := by
  refine ⟨verification_finishes ht peers, fun es hes => ?_⟩
  have hmanager := failing_run hp hfail ht (rfl : Failing config s.manager i p (.verify i)) hes
  constructor
  · rintro ⟨q, hq, hagain⟩
    rw [hmanager] at hq
    cases hp.symm.trans hq
    refine ⟨List.eq_nil_iff_forall_not_mem.mpr fun b hb => ?_, hagain.missing, ?_⟩
    · have hreceived := PieceData.isComplete_iff.mp hcomplete b hb
      rw [(hagain.empty b hb).1] at hreceived
      cases hreceived
    · rw [← hmanager]
      exact hagain.not_completed
  · rintro ⟨hblocks, hmissing, hnot⟩
    refine ⟨p, by rwa [hmanager], hmissing, ?_, by rwa [hmanager], fun hneeded => ?_, ?_⟩
    · simp [hblocks]
    · rw [hmanager] at hneeded ⊢
      refine (s.manager.mem_getMissingPieces).mpr ⟨hneeded, .inl ⟨p, hp, ?_⟩⟩
      rw [PieceData.correct_of_isComplete hcomplete]
      exact hmissing
    · simp [hblocks]

/-- The only block of a piece has arrived with wrong data, and its verification is due. -/
def corruptPiece : System := run (step {}) onePiece [.handle_piece_block 0 0 [1, 2, 3, 5]]

def corruptData : PieceData where
  piece_index := 0
  length := 4
  blocks := [⟨0, 0, 4, [1, 2, 3, 5], true, ∅⟩]
  state := .COMPLETE

theorem failed_check_corruptPiece :
    (run (step {}) corruptPiece (verification 0 (answering "10.0.0.1:6881"))).tasks[0]? =
      some .finished ∧
    ∀ es, (∀ e ∈ es, Event.OfTask 0 e) →
      ((∃ q, (run (step {}) corruptPiece es).manager.pieces[0]? = some q ∧
        Redownloadable (run (step {}) corruptPiece es) 0 q) ↔
        corruptData.blocks = [] ∧ corruptData.state = .MISSING ∧
          0 ∉ corruptPiece.manager.completed_pieces) :=
  failed_check_iff {} (answering "10.0.0.1:6881") (by decide +kernel) (by decide +kernel)
    (by decide +kernel) (by decide +kernel)

theorem not_redownloadable (h : s.manager.pieces[i]?.map PieceData.state = some .COMPLETE) :
    ¬∃ q, s.manager.pieces[i]? = some q ∧ Redownloadable s i q := by
  rintro ⟨q, hq, hagain⟩
  rw [hq, Option.map_some, hagain.missing] at h
  cases h

/-- After the check has failed the piece is complete, and nothing is missing. -/
theorem corruptPiece_not_redownloadable :
    corruptPiece.manager.hashesToExpected {} 0 corruptData = false ∧
    (run (step {}) corruptPiece (verification 0 (answering "10.0.0.1:6881"))).tasks[0]? =
      some .finished ∧
    ¬∃ q, (run (step {}) corruptPiece
        (verification 0 (answering "10.0.0.1:6881"))).manager.pieces[0]? = some q ∧
      Redownloadable (run (step {}) corruptPiece
        (verification 0 (answering "10.0.0.1:6881"))) 0 q := by
  refine ⟨by decide +kernel, by decide +kernel, not_redownloadable ?_⟩
  decide +kernel

end Failed

/-!
## Pieces whose peers are lost

`_remove_peer` only touches the availability of pieces: a piece stays REQUESTED or DOWNLOADING
when the last peer that was asked for it is removed.
-/

/-- Some peer that was asked for the piece has not been removed since. -/
def Asked (s : System) (i : Nat) : Prop :=
  ∃ r ∈ s.requests, r.piece_index = i ∧ r.removed = false

/-- A piece that is not complete and has lost all peers that were asked for it is missing, and is
returned as such if it is needed. -/
def NoOrphan (s : System) : Prop :=
  ∀ i p, s.manager.pieces[i]? = some p → p.isComplete = false →
    (∀ r ∈ s.requests, r.piece_index = i → r.removed = true) →
    p.state = .MISSING ∧
      (s.manager.isPieceNeeded i = true → i ∈ s.manager.getMissingPieces.1)

/-- A peer that is removed is not the last one that was asked for a piece under way. -/
def LeavesAsked (s : System) (e : Event) : Prop :=
  ∀ peer_key, e = ._remove_peer peer_key → ∀ i p, s.manager.pieces[i]? = some p →
    p.isComplete = false → p.state ≠ .MISSING →
    ∃ r ∈ s.requests, r.piece_index = i ∧ r.removed = false ∧ r.peer_key ≠ peer_key

theorem noOrphan_iff : NoOrphan s ↔ ∀ i p, s.manager.pieces[i]? = some p →
    p.isComplete = false → p.state ≠ .MISSING → Asked s i := by
  constructor
  · intro h i p hp hopen hstate
    by_contra hnot
    refine hstate (h i p hp hopen fun r hr hi => ?_).1
    by_contra hremoved
    exact hnot ⟨r, hr, hi, Bool.not_eq_true _ ▸ hremoved⟩
  · intro h i p hp hopen hremoved
    have hmissing : p.state = .MISSING := by
      by_contra hstate
      obtain ⟨r, hr, hi, hfalse⟩ := h i p hp hopen hstate
      rw [hremoved r hr hi] at hfalse
      cases hfalse
    refine ⟨hmissing, fun hneeded => s.manager.mem_getMissingPieces.mpr ⟨hneeded, .inl ⟨p, hp, ?_⟩⟩⟩
    rw [PieceData.correct, if_neg]
    · exact hmissing
    · rw [hmissing]
      rintro ⟨hstate | hstate, -⟩ <;> cases hstate

theorem asked_remove (peer_key : String) : Asked (s.step config (._remove_peer peer_key)) i ↔
    ∃ r ∈ s.requests, r.piece_index = i ∧ r.removed = false ∧ r.peer_key ≠ peer_key := by
  constructor
  · rintro ⟨_, hlose, hi, hremoved⟩
    obtain ⟨r, hr, rfl⟩ := List.mem_map.mp hlose
    rw [Request.lose] at hi hremoved
    split at hremoved
    · cases hremoved
    · next hkey =>
      rw [if_neg hkey] at hi
      exact ⟨r, hr, hi, hremoved, hkey⟩
  · rintro ⟨r, hr, hi, hremoved, hkey⟩
    refine ⟨r, List.mem_map.mpr ⟨r, hr, ?_⟩, hi, hremoved⟩
    rw [Request.lose, if_neg hkey]

theorem pieces_remove (peer_key : String) :
    (s.step config (._remove_peer peer_key)).manager.pieces = s.manager.pieces := by
  change (s.manager.removePeer peer_key).pieces = s.manager.pieces
  rw [AsyncPieceManager.removePeer]
  split <;> rfl

theorem noOrphan_remove (peer_key : String) :
    NoOrphan (s.step config (._remove_peer peer_key)) ↔ LeavesAsked s (._remove_peer peer_key) := by
  rw [noOrphan_iff, pieces_remove]
  simp only [asked_remove]
  constructor
  · rintro h _ ⟨⟩
    exact h
  · intro h
    exact h peer_key rfl

/-- Only the removal of a peer can orphan a piece. -/
theorem noOrphan_step (h : Coherent s) (hno : NoOrphan s)
    (hkeep : ∀ peer_key, e ≠ ._remove_peer peer_key) : NoOrphan (s.step config e) := by
  have hmoves := moves_step config h e
  rw [noOrphan_iff] at hno ⊢
  intro i q hq hopen hstate
  obtain ⟨p, hp, hchange⟩ := hmoves.before hq
  have hopen' : p.isComplete = false := by
    by_contra hcomplete
    rw [(hchange.complete (Bool.not_eq_false _ ▸ hcomplete)).1] at hopen
    cases hopen
  have hasked (hstate : p.state ≠ .MISSING) : Asked (s.step config e) i := by
    obtain ⟨r, hr, hi, hremoved⟩ := hno i _ hp hopen' hstate
    exact ⟨r, hmoves.requests hkeep r hr, hi, hremoved⟩
  cases hchange with
  | same hsame _ => exact hasked (hsame ▸ hstate)
  | filled _ hnew =>
    rw [if_neg (by simp [hopen])] at hnew
    exact hasked (hnew ▸ hstate)
  | requested _ _ _ hrequest => exact hrequest hopen'
  | downloading hstarted _ _ _ => exact hasked hstarted
  | verified hcomplete _ _ _ =>
    rw [hcomplete] at hopen'
    cases hopen'

/-- No piece is orphaned in a run if every peer that is removed leaves another one that was asked
for the pieces under way, and only then. -/
theorem always_noOrphan_iff (config : Config) (t : TorrentData) (fm : Option FileSelectionManager)
    (a b c : Bool) (es : List Event) :
    Always (step config) NoOrphan (new config t fm a b c) es ↔
      StepsMeet (step config) LeavesAsked (new config t fm a b c) es := by
  have hnew : NoOrphan (new config t fm a b c) := by
    rw [noOrphan_iff]
    intro i p hp _ hstate
    rw [new, AsyncPieceManager.new, List.getElem?_map, Option.map_eq_some_iff] at hp
    obtain ⟨j, -, rfl⟩ := hp
    exact absurd rfl hstate
  have hpart : ∀ s, Coherent s ∧ NoOrphan s → NoOrphan s := fun s h => h.2
  refine always_iff_stepsMeet_of hpart ?_ ?_ ⟨coherent_new t fm a b c, hnew⟩
  · rintro s e - hnext peer_key rfl
    exact (noOrphan_remove peer_key).mp hnext peer_key rfl
  · rintro s e ⟨h, hno⟩ hleaves
    refine ⟨coherent_step config h e, ?_⟩
    by_cases hremove : ∃ peer_key, e = ._remove_peer peer_key
    · obtain ⟨peer_key, rfl⟩ := hremove
      exact (noOrphan_remove peer_key).mpr hleaves
    · exact noOrphan_step h hno fun peer_key heq => hremove ⟨peer_key, heq⟩

/-- The only peer is asked for the only piece, and leaves. -/
def lostPeer : List Event :=
  [.update_peer_have "10.0.0.1:6881" 0, .request_piece_from_peers 0,
    .resume 0 (answering "10.0.0.1:6881") false, ._remove_peer "10.0.0.1:6881"]

theorem not_noOrphan (hpiece : s.manager.pieces[i]?.map (fun p => (p.isComplete, p.state)) =
      some (false, .REQUESTED)) (hremoved : ∀ r ∈ s.requests, r.removed = true) : ¬NoOrphan s := by
  intro hno
  obtain ⟨p, hp, hstate⟩ := Option.map_eq_some_iff.mp hpiece
  have hopen : p.isComplete = false := congrArg Prod.fst hstate
  have hrequested : p.state = .REQUESTED := congrArg Prod.snd hstate
  rw [(hno i p hp hopen fun r hr _ => hremoved r hr).1] at hrequested
  cases hrequested

theorem lostPeer_orphans : ¬Always (step {}) NoOrphan onePiece lostPeer := by
  intro h
  refine not_noOrphan (i := 0) (s := run (step {}) onePiece (lostPeer.take 4)) ?_ ?_
    (always_iff_take.mp h 4)
  · decide +kernel
  · decide +kernel

end System

end Piece

end Ccbt

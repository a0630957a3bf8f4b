import Ccbt.Piece.Verification

/-!
# How often the callbacks are called

`handle_piece_block` calls `on_piece_completed` and starts a verification for every block that is
added, not only for the last one of its piece. Where every block that is added is the last one,
each piece has one verification, and its success is the only one to tell of it.
-/

namespace Ccbt

open Python Transition

namespace Piece

/-- The task may still verify the piece. -/
def Task.verifies (i : Nat) : Task → Bool
  | .verify j | .hashing j _ _ _ => j = i
  | _ => false

/-- The task is one of a verification. -/
def Task.IsVerification : Task → Prop
  | .verify _ | .hashing _ _ _ _ | .finished => True
  | .request _ | .sending _ => False

/-- Calls of `handle_piece_block` and the steps of the verifications they schedule. -/
inductive BlockEvent
  | handle_piece_block (piece_index begin : Nat) (data : Bytes)
  | resume (task : Nat)
  | hash (task : Nat)

def BlockEvent.event : BlockEvent → Event
  | handle_piece_block piece_index begin data => .handle_piece_block piece_index begin data
  | resume n => .resume n ⟨[], fun _ => false⟩ false
  | hash n => .hash n

namespace System

variable {config : Config} {s : System} {e : BlockEvent} {i j n : Nat} {p : PieceData}

def blockStep (config : Config) (s : System) (e : BlockEvent) : System := s.step config e.event

def pieceComplete (s : System) (i : Nat) : Bool := s.manager.pieces[i]?.any PieceData.isComplete

/-- The callbacks have been called as they should: `on_piece_completed` for complete pieces only,
and each callback for each piece at most once. -/
structure CallbacksRight (s : System) : Prop where
  completed : ∀ i, .on_piece_completed i ∈ s.calls → s.pieceComplete i = true
  once : s.calls.Nodup

/-- A block that is added while `on_piece_completed` is set is the last one of its piece. -/
def AddsLast (s : System) : BlockEvent → Prop
  | .handle_piece_block i begin data => s.manager.on_piece_completed = true →
    ∀ p block, s.manager.pieces[i]? = some p → PieceData.openBlock begin p.blocks = some block →
      block.length = data.length → p.blocks.countP (fun b => !b.received) = 1
  | _ => True

/-- The verifications of a piece that may still succeed. -/
def live (s : System) (i : Nat) : Nat := s.tasks.countP (Task.verifies i)

def isVerified (s : System) (i : Nat) : Bool := i ∈ s.manager.verified_pieces

def allVerified (s : System) : Bool :=
  s.manager.verified_pieces.card = s.manager.num_pieces

/-- Every call and every verification is paid for by a complete piece. -/
structure Accounted (s : System) : Prop where
  coherent : Coherent s
  tasks : ∀ t ∈ s.tasks, t.IsVerification
  verifications : ∀ i, s.live i + (s.isVerified i).toNat ≤ (s.pieceComplete i).toNat
  completed : ∀ i, s.calls.count (.on_piece_completed i) ≤ (s.pieceComplete i).toNat
  verified : ∀ i, s.calls.count (.on_piece_verified i) ≤ (s.isVerified i).toNat
  download : s.calls.count .on_download_complete ≤ s.allVerified.toNat

theorem Accounted.callbacksRight (h : Accounted s) : CallbacksRight s where
  completed i hi := by
    have hpos : 0 < s.calls.count (.on_piece_completed i) := List.count_pos_iff.mpr hi
    have hle := h.completed i
    cases hcomplete : s.pieceComplete i with
    | true => rfl
    | false =>
      rw [hcomplete, Bool.toNat_false] at hle
      omega
  once := by
    rw [List.nodup_iff_count_le_one]
    intro c
    cases c with
    | on_piece_completed i => exact (h.completed i).trans (Bool.toNat_le _)
    | on_piece_verified i => exact (h.verified i).trans (Bool.toNat_le _)
    | on_download_complete => exact h.download.trans (Bool.toNat_le _)

theorem live_setTask {t : Task} (ht : s.tasks[n]? = some t) (t' : Task) (i : Nat) :
    (s.setTask n t').live i + (t.verifies i).toNat = s.live i + (t'.verifies i).toNat := by
  obtain ⟨hlt, rfl⟩ := List.getElem?_eq_some_iff.mp ht
  have hle : (if Task.verifies i s.tasks[n] then 1 else 0) ≤ s.tasks.countP (Task.verifies i) :=
    List.boole_getElem_le_countP hlt
  rw [live, live, setTask, List.countP_set hlt]
  simp only [Bool.toNat, cond_eq_ite]
  omega

/-- The verifications of all pieces but one stay, and so do those of that one as far as it is
still being verified. -/
theorem Accounted.setTask (h : Accounted s) {t t' : Task} (ht : s.tasks[n]? = some t)
    (hverification : t'.IsVerification) (hless : ∀ i, t'.verifies i = true → t.verifies i = true)
    (hok : t'.Ok s.manager) : Accounted (s.setTask n t') where
  coherent := coherent_setTask h.coherent hok
  tasks u hu := by
    rcases mem_setTask hu with hu | rfl
    · exact h.tasks u hu
    · exact hverification
  verifications i := by
    have hlive := live_setTask ht t' i
    have hle : (t'.verifies i).toNat ≤ (t.verifies i).toNat := by
      cases hnew : t'.verifies i with
      | false => exact Nat.zero_le _
      | true => rw [hless i hnew]
    have hold := h.verifications i
    change (s.setTask n t').live i + (s.isVerified i).toNat ≤ (s.pieceComplete i).toNat
    omega
  completed := h.completed
  verified := h.verified
  download := h.download

section PieceVerified

theorem count_call (b : Bool) (c d : Callback) :
    (s.call b c).calls.count d = s.calls.count d + (b && decide (c = d)).toNat := by
  rw [call]
  cases b with
  | false => rfl
  | true =>
    rw [if_pos rfl, List.count_append, List.count_singleton, Bool.true_and]
    simp only [beq_iff_eq, Bool.toNat, cond_eq_ite, decide_eq_true_eq]

/-- What a piece that has been verified adds to the calls. -/
theorem count_pieceVerified (i : Nat) (c : Callback) :
    (s.pieceVerified i).calls.count c = s.calls.count c +
      (s.manager.on_piece_verified && decide (.on_piece_verified i = c)).toNat +
      ((s.pieceVerified i).allVerified && s.manager.on_download_complete &&
        decide (.on_download_complete = c)).toNat := by
  have hall : (s.pieceVerified i).allVerified =
      decide ((insert i s.manager.verified_pieces).card = s.manager.num_pieces) := by
    rw [allVerified, manager_pieceVerified]
    rfl
  rw [hall, pieceVerified]
  dsimp only
  split
  · next hcard =>
    have hcard : (insert i s.manager.verified_pieces).card = s.manager.num_pieces := hcard
    rw [count_call, decide_eq_true hcard, Bool.true_and]
    change (call _ _ _).calls.count c + _ = _
    rw [count_call]
    rfl
  · next hcard =>
    have hcard : (insert i s.manager.verified_pieces).card ≠ s.manager.num_pieces := hcard
    rw [count_call, decide_eq_false hcard]
    rfl

theorem pieceComplete_pieceVerified : (s.pieceVerified i).pieceComplete j = s.pieceComplete j := by
  have hpieces : (s.pieceVerified i).manager.pieces =
      s.manager.pieces.modify i fun p => { p with state := .VERIFIED } := by
    rw [manager_pieceVerified]
    rfl
  rw [pieceComplete, pieceComplete, hpieces, List.getElem?_modify]
  cases s.manager.pieces[j]? with
  | none => rfl
  | some p =>
    simp only [Option.map_eq_map, Option.map_some, Option.any_some]
    split <;> rfl

theorem isVerified_pieceVerified :
    (s.pieceVerified i).isVerified j = (decide (j = i) || s.isVerified j) := by
  rw [isVerified, isVerified, manager_pieceVerified]
  simp only [Finset.mem_insert, Bool.decide_or]

theorem Accounted.lt_num_pieces (h : Accounted s) (hi : s.pieceComplete i = true) :
    i < s.manager.num_pieces := by
  obtain ⟨p, hp, -⟩ := (Option.any_eq_true _ _).mp hi
  rw [← h.coherent.length]
  exact (List.getElem?_eq_some_iff.mp hp).1

/-- A piece with a verification is complete, not verified, and has no other. -/
theorem Accounted.of_live (h : Accounted s) (hlive : 0 < s.live i) :
    s.pieceComplete i = true ∧ s.isVerified i = false ∧ s.live i = 1 := by
  have hle := h.verifications i
  cases hcomplete : s.pieceComplete i with
  | false =>
    rw [hcomplete, Bool.toNat_false] at hle
    omega
  | true =>
    cases hverified : s.isVerified i with
    | false =>
      rw [hcomplete, hverified, Bool.toNat_true, Bool.toNat_false] at hle
      exact ⟨rfl, rfl, by omega⟩
    | true =>
      rw [hcomplete, hverified, Bool.toNat_true] at hle
      omega

/-- While a piece is being verified, not all pieces are verified. -/
theorem Accounted.allVerified_eq_false (h : Accounted s) (hlive : 0 < s.live i) :
    s.allVerified = false := by
  obtain ⟨hcomplete, hverified, -⟩ := h.of_live hlive
  have hsubset : insert i s.manager.verified_pieces ⊆ Finset.range s.manager.num_pieces := by
    intro j hj
    rw [Finset.mem_range]
    rcases Finset.mem_insert.mp hj with rfl | hj
    · exact h.lt_num_pieces hcomplete
    · have hle := h.verifications j
      rw [isVerified, decide_eq_true hj, Bool.toNat_true] at hle
      refine h.lt_num_pieces (i := j) ?_
      cases hj' : s.pieceComplete j with
      | true => rfl
      | false =>
        rw [hj', Bool.toNat_false] at hle
        omega
  have hcard := Finset.card_le_card hsubset
  rw [Finset.card_insert_of_notMem (of_decide_eq_false hverified), Finset.card_range] at hcard
  exact decide_eq_false (by omega)

/-- The verification of a piece succeeds. -/
theorem Accounted.pieceVerified (h : Accounted s) {t : Task} (ht : s.tasks[n]? = some t)
    (hverifies : t.verifies i = true)
    (hcoherent : Coherent ((s.setTask n .finished).pieceVerified i)) :
    Accounted ((s.setTask n .finished).pieceVerified i) := by
  have hlive : 0 < s.live i := List.countP_pos_iff.mpr ⟨t, List.mem_of_getElem? ht, hverifies⟩
  obtain ⟨hcomplete, hverified, hone⟩ := h.of_live hlive
  have hset : ∀ j, (s.setTask n .finished).isVerified j = s.isVerified j := fun _ => rfl
  have hcalls : (s.setTask n .finished).calls = s.calls := rfl
  have hpieces : ∀ j, (s.setTask n .finished).pieceComplete j = s.pieceComplete j := fun _ => rfl
  have hnone : ∀ j, (Task.verifies j .finished).toNat = 0 := fun _ => rfl
  constructor
  · exact hcoherent
  · intro u hu
    rw [tasks_pieceVerified] at hu
    rcases mem_setTask hu with hu | rfl
    · exact h.tasks u hu
    · trivial
  · intro j
    have hless := live_setTask ht .finished j
    have hold := h.verifications j
    have hsame : ((s.setTask n .finished).pieceVerified i).live j =
        (s.setTask n .finished).live j := by
      rw [live, tasks_pieceVerified, live]
    rw [hsame, isVerified_pieceVerified, pieceComplete_pieceVerified, hset, hpieces]
    by_cases hj : j = i
    · subst hj
      rw [hverifies, hnone, Bool.toNat_true] at hless
      rw [hverified, hcomplete, decide_eq_true rfl, Bool.true_or, Bool.toNat_true]
      omega
    · rw [decide_eq_false hj, Bool.false_or]
      rw [hnone] at hless
      omega
  · intro j
    rw [count_pieceVerified, pieceComplete_pieceVerified, hpieces, hcalls]
    simpa using h.completed j
  · intro j
    have hold := h.verified j
    rw [count_pieceVerified, isVerified_pieceVerified, hset, hcalls]
    simp only [Callback.on_piece_verified.injEq, reduceCtorEq, decide_false, Bool.and_false,
      Bool.toNat_false, add_zero]
    by_cases hj : j = i
    · subst hj
      rw [hverified, Bool.toNat_false] at hold
      rw [decide_eq_true rfl, Bool.true_or, Bool.toNat_true, Nat.le_zero.mp hold, zero_add]
      exact Bool.toNat_le _
    · rw [decide_eq_false (Ne.symm hj), decide_eq_false hj, Bool.and_false, Bool.false_or]
      exact hold
  · have hold := h.download
    rw [h.allVerified_eq_false hlive, Bool.toNat_false] at hold
    rw [count_pieceVerified, hcalls, Nat.le_zero.mp hold]
    cases ((s.setTask n .finished).pieceVerified i).allVerified with
    | false => simp
    | true => simpa using Bool.toNat_le _

end PieceVerified

section Steps

/-- A block has been added and `on_piece_completed` called. -/
def blockAdded (s : System) (i : Nat) (q : PieceData) : System :=
  { s with
    manager := s.manager.acceptBlock i q
    calls := s.calls ++ [.on_piece_completed i]
    tasks := s.tasks ++ [.verify i] }

theorem handlePieceBlock_added {begin : Nat} {data : Bytes} (hp : s.manager.pieces[i]? = some p)
    (hadded : (p.addBlock begin data).1 = true) : s.handlePieceBlock i begin data =
      if s.manager.on_piece_completed then s.blockAdded i (p.addBlock begin data).2
      else s.setManager (s.manager.acceptBlock i (p.addBlock begin data).2) := by
  have heq : s.manager.handlePieceBlock i begin data =
      (true, s.manager.acceptBlock i (p.addBlock begin data).2) := by
    rw [AsyncPieceManager.handlePieceBlock, hp]
    rcases hresult : p.addBlock begin data with ⟨_ | _, q⟩
    · rw [hresult] at hadded
      cases hadded
    · simp only [hresult]
  rw [handlePieceBlock, heq]
  rfl

theorem pieceComplete_acceptBlock {m : AsyncPieceManager} {q : PieceData}
    (hp : m.pieces[i]? = some p) (j : Nat) :
    (m.acceptBlock i q).pieces[j]?.any PieceData.isComplete =
      if j = i then q.isComplete else m.pieces[j]?.any PieceData.isComplete := by
  rw [m.getElem?_acceptBlock hp]
  split <;> rfl

/-- A block that is added while `on_piece_completed` is not set is told to nobody. -/
theorem Accounted.setManager (h : Accounted s) {q : PieceData}
    (hp : s.manager.pieces[i]? = some p) (hopen : p.isComplete = false)
    (hcoherent : Coherent (s.setManager (s.manager.acceptBlock i q))) :
    Accounted (s.setManager (s.manager.acceptBlock i q)) := by
  have hmono (j : Nat) : (s.pieceComplete j).toNat ≤
      ((s.setManager (s.manager.acceptBlock i q)).pieceComplete j).toNat := by
    rw [pieceComplete, pieceComplete, System.setManager, pieceComplete_acceptBlock hp]
    split
    · next hj =>
      rw [hj, hp, Option.any_some, hopen]
      exact Nat.zero_le _
    · rfl
  exact {
    coherent := hcoherent
    tasks := h.tasks
    verifications := fun j => (h.verifications j).trans (hmono j)
    completed := fun j => (h.completed j).trans (hmono j)
    verified := h.verified
    download := h.download }

/-- The last block of a piece starts the only verification of it. -/
theorem Accounted.blockAdded (h : Accounted s) {q : PieceData}
    (hp : s.manager.pieces[i]? = some p) (hopen : p.isComplete = false)
    (hcomplete : q.isComplete = true) (hcoherent : Coherent (s.blockAdded i q)) :
    Accounted (s.blockAdded i q) := by
  have hbefore : s.pieceComplete i = false := by rw [pieceComplete, hp, Option.any_some, hopen]
  have hafter (j : Nat) : (s.blockAdded i q).pieceComplete j =
      if j = i then q.isComplete else s.pieceComplete j := pieceComplete_acceptBlock hp j
  have hlive (j : Nat) : (s.blockAdded i q).live j = s.live j + (decide (i = j)).toNat := by
    rw [live, System.blockAdded, List.countP_append, List.countP_singleton, live, Task.verifies,
      Bool.toNat, cond_eq_ite]
  have hcount (c : Callback) : (s.blockAdded i q).calls.count c =
      s.calls.count c + if .on_piece_completed i = c then 1 else 0 := by
    rw [System.blockAdded, List.count_append, List.count_singleton]
    simp only [beq_iff_eq]
  have hverifications := h.verifications i
  have hcompleted := h.completed i
  rw [hbefore, Bool.toNat_false] at hverifications hcompleted
  constructor
  · exact hcoherent
  · intro t ht
    rcases List.mem_append.mp ht with ht | ht
    · exact h.tasks t ht
    · rw [List.mem_singleton.mp ht]
      trivial
  · intro j
    change (s.blockAdded i q).live j + (s.isVerified j).toNat ≤ _
    rw [hlive, hafter]
    by_cases hj : j = i
    · rw [if_pos hj, hj, hcomplete, decide_eq_true rfl, Bool.toNat_true]
      omega
    · rw [if_neg hj, decide_eq_false (Ne.symm hj), Bool.toNat_false]
      exact h.verifications j
  · intro j
    rw [hcount, hafter]
    by_cases hj : j = i
    · rw [if_pos hj, hj, hcomplete, if_pos rfl, Bool.toNat_true]
      omega
    · rw [if_neg hj, if_neg fun heq => hj (Callback.on_piece_completed.inj heq).symm]
      exact h.completed j
  · intro j
    rw [hcount, if_neg nofun]
    exact h.verified j
  · rw [hcount, if_neg nofun]
    exact h.download

theorem Accounted.finishTask (h : Accounted s) {t : Task} (ht : s.tasks[n]? = some t) :
    Accounted (s.setTask n .finished) :=
  h.setTask ht trivial (fun _ hi => absurd hi Bool.false_ne_true) trivial

theorem Accounted.handlePieceBlock (h : Accounted s) {begin : Nat} {data : Bytes}
    (he : AddsLast s (.handle_piece_block i begin data))
    (hcoherent : Coherent (s.handlePieceBlock i begin data)) :
    Accounted (s.handlePieceBlock i begin data) := by
  obtain heq | ⟨p, hp, hadded, -⟩ := s.manager.handlePieceBlock_cases i begin data
  · have hsame : s.handlePieceBlock i begin data = s := by rw [System.handlePieceBlock, heq]
    rwa [hsame]
  · have hopen : p.isComplete = false := PieceData.isComplete_of_addBlock hadded
    rw [handlePieceBlock_added hp hadded] at hcoherent ⊢
    split at hcoherent
    · next hset =>
      obtain ⟨block, hblock, hlen⟩ := PieceData.addBlock_fst_iff.mp hadded
      have hlast := he hset p block hp hblock hlen
      rw [if_pos hset]
      exact h.blockAdded hp hopen ((PieceData.isComplete_addBlock_iff hadded).mpr hlast) hcoherent
    · next hset =>
      rw [if_neg hset]
      exact h.setManager hp hopen hcoherent

theorem Accounted.startVerify (h : Accounted s) (ht : s.tasks[n]? = some (.verify i)) :
    Accounted (s.startVerify n i) := by
  rw [System.startVerify]
  split
  · exact h.finishTask ht
  · exact h.setTask ht trivial (fun _ => id) trivial

theorem Accounted.hashed (h : Accounted s) {expected_hash : Bytes} {last is_valid : Bool}
    (ht : s.tasks[n]? = some (.hashing i expected_hash last (some is_valid)))
    (hcoherent : Coherent (s.hashed n i last is_valid)) :
    Accounted (s.hashed n i last is_valid) := by
  rw [System.hashed] at hcoherent ⊢
  split at hcoherent
  · next hvalid =>
    rw [if_pos hvalid]
    exact h.finishTask ht
  · next hvalid =>
    rw [if_neg hvalid]
    split at hcoherent
    · next hlast =>
      rw [if_pos hlast]
      exact h.pieceVerified ht (decide_eq_true rfl) hcoherent
    · next hlast =>
      rw [if_neg hlast]
      split
      · exact h.finishTask ht
      · exact h.setTask ht trivial (fun _ => id) trivial

/-- Every step keeps the accounts if a block that is added is the last one of its piece. -/
theorem Accounted.step (h : Accounted s) (he : AddsLast s e) :
    Accounted (s.blockStep config e) := by
  have hcoherent : Coherent (s.blockStep config e) := coherent_step config h.coherent e.event
  cases e with
  | handle_piece_block i begin data => exact h.handlePieceBlock he hcoherent
  | resume n =>
    change Coherent (s.resume config n _ false) at hcoherent
    change Accounted (s.resume config n _ false)
    rw [resume] at hcoherent ⊢
    cases ht : s.tasks[n]? with
    | none => exact h
    | some t =>
      rw [ht] at hcoherent
      cases t with
      | request i | sending t => exact (h.tasks _ (List.mem_of_getElem? ht)).elim
      | finished => exact h
      | verify i => exact h.startVerify ht
      | hashing i expected_hash last is_valid =>
        cases is_valid with
        | none => exact h
        | some is_valid => exact h.hashed ht hcoherent
  | hash n =>
    change Accounted (s.hash config n)
    rw [hash]
    split
    · next ht => exact h.setTask ht trivial (fun _ => id) (ok_hashing _ _ _)
    · exact h

theorem accounted_new (t : TorrentData) (fm : Option FileSelectionManager) (a b c : Bool) :
    Accounted (new config t fm a b c) where
  coherent := coherent_new t fm a b c
  tasks t ht := absurd ht List.not_mem_nil
  verifications i := by
    change 0 + (decide (i ∈ (∅ : Finset Nat))).toNat ≤ _
    simp
  completed i := Nat.zero_le _
  verified i := Nat.zero_le _
  download := Nat.zero_le _

/-- A block that is added while `on_piece_completed` is set is told as the completion of its
piece. -/
theorem addsLast_of_callbacksRight (h : CallbacksRight (s.blockStep config e)) : AddsLast s e := by
  cases e with
  | handle_piece_block i begin data =>
    intro hset p block hp hblock hlen
    have hadded := PieceData.addBlock_fst_iff.mpr ⟨block, hblock, hlen⟩
    have hstep : s.blockStep config (.handle_piece_block i begin data) =
        s.blockAdded i (p.addBlock begin data).2 := by
      change s.handlePieceBlock i begin data = _
      rw [handlePieceBlock_added hp hadded, if_pos hset]
    rw [hstep] at h
    have hcomplete := h.completed i (List.mem_append_right _ (List.mem_singleton.mpr rfl))
    have hafter : (s.blockAdded i (p.addBlock begin data).2).pieceComplete i =
        if i = i then (p.addBlock begin data).2.isComplete else s.pieceComplete i :=
      pieceComplete_acceptBlock hp i
    rw [hafter, if_pos rfl] at hcomplete
    exact (PieceData.isComplete_addBlock_iff hadded).mp hcomplete
  | resume | hash => trivial

/-- The callbacks are called as they should in a run if every block that is added while
`on_piece_completed` is set is the last one of its piece, and only then. -/
theorem always_callbacksRight_iff (config : Config) (t : TorrentData)
    (fm : Option FileSelectionManager) (a b c : Bool) (es : List BlockEvent) :
    Always (blockStep config) CallbacksRight (new config t fm a b c) es ↔
      StepsMeet (blockStep config) AddsLast (new config t fm a b c) es :=
  always_iff_stepsMeet_of (fun _ h => h.callbacksRight)
    (fun _ _ _ hnext => addsLast_of_callbacksRight hnext) (fun _ _ h he => h.step he)
    (accounted_new t fm a b c)

/-- The first half of a piece is told as its completion. -/
theorem not_always_callbacksRight : ¬Always (blockStep { block_size := 2 }) CallbacksRight
    (new { block_size := 2 } ⟨1, 4, [sha1 [1, 2, 3, 4]], none, none, none, 1⟩ none true true true)
    [.handle_piece_block 0 0 [1, 2]] := by
  rintro ⟨-, h⟩
  have hcomplete := h.completed 0 (by decide +kernel)
  revert hcomplete
  decide +kernel

end Steps

end System

end Piece

end Ccbt

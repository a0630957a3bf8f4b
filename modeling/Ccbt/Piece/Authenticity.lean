import Ccbt.Piece.Uploads

/-!
# What is uploaded was published

A piece becomes verified only when its data has been compared with every hash that the torrent gives
for it, and from the comparison on the data stays as it is. What a manager gives out of a piece is
therefore what was published, whatever its peers have sent, or somebody has found other data with
the same hashes.
-/

namespace Ccbt

open Python Transition

namespace Piece

/-- What a lookup finds in consecutive blocks begins the range that was asked for. -/
theorem blockRange_prefix {o stop : Nat} {blocks : List PieceBlock}
    (hcons : Consecutive o stop (blocks.map PieceBlock.span))
    (hdata : ∀ b ∈ blocks, b.data.length = b.length) {begin n : Nat} (ho : o ≤ begin)
    {block : Bytes} (hfound : blockRange begin n blocks = some block) :
    block <+: ((blocks.flatMap PieceBlock.data).drop (begin - o)).take n := by
  induction blocks generalizing o with
  | nil => cases hfound
  | cons b blocks ih =>
    obtain ⟨hstart, -, hrest⟩ := hcons
    have hblock : b.data.length = b.length := hdata b List.mem_cons_self
    simp only [PieceBlock.span] at hstart hrest
    subst hstart
    rw [List.flatMap_cons]
    by_cases hin : begin < b.begin + b.length
    · rw [blockRange_cons ho hin hblock] at hfound
      rw [List.drop_append_of_le_length (by omega), ← Option.some.inj hfound]
      exact (List.prefix_append _ _).take n
    · rw [blockRange_cons_of_le (by omega)] at hfound
      have hlater := ih hrest (fun b' hb' => hdata b' (List.mem_cons_of_mem _ hb')) (by omega)
        hfound
      have hskip : begin - b.begin = b.data.length + (begin - (b.begin + b.length)) := by omega
      rwa [hskip, List.drop_length_add_append]

/-! ### Hashes that are published -/

/-- What data has to be hashed to for an expected hash of this length. -/
def digestFor (expected_hash data : Bytes) : Bytes :=
  if expected_hash.length = 32 then sha256 data else sha1 data

namespace TorrentData

/-- The hashes that a torrent gives for a piece: the v1 hash unless it has meta version 2, and the
v2 hash for the meta versions 2 and 3. -/
def expectedHashes (t : TorrentData) (piece_index : Nat) : List Bytes :=
  (if t.meta_version = 2 then none else t.piece_hashes[piece_index]?).toList ++
    (if t.meta_version = 2 ∨ t.meta_version = 3 then
      t.piece_layers.bind fun piece_layers =>
        AsyncPieceManager.v2HashFrom piece_index 0 piece_layers.values
    else none).toList

/-- The torrent was made from these pieces. -/
def Publishes (t : TorrentData) (content : Nat → Bytes) : Prop :=
  ∀ i, ∀ h ∈ t.expectedHashes i, digestFor h (content i) = h

/-- Other data than the published one with all the hashes that there are for the piece. -/
structure Forged (t : TorrentData) (piece_index : Nat) (published data : Bytes) : Prop where
  ne : data ≠ published
  hashed : t.expectedHashes piece_index ≠ []
  hashes : ∀ h ∈ t.expectedHashes piece_index, digestFor h data = digestFor h published

end TorrentData

namespace AsyncPieceManager

variable {config : Config} {m m' : AsyncPieceManager} {p q : PieceData} {i : Nat} {h : Bytes}

/-- A piece passes the check exactly if it is complete and its data has the hash. -/
theorem hashPieceOptimized_eq_true_iff : hashPieceOptimized config p h = true ↔
    ∃ data, p.getData = some data ∧ digestFor h data = h := by
  have hall (data : Bytes) : (Python.pieces config.hash_chunk_size data).flatten = data :=
    flatten_pieces config.hash_chunk_size_pos data
  cases hdata : p.getData with
  | none => simp [hashPieceOptimized, hdata]
  | some data =>
    simp only [hashPieceOptimized, hdata, hall, Option.some.injEq, exists_eq_left', digestFor]
    by_cases h32 : h.length = 32
    · simp [h32]
    · by_cases h20 : h.length = 20
      · simp [h20]
      · -- a hash of another length is the hash of nothing
        have hne : sha1 data ≠ h := fun heq => h20 (heq ▸ sha1_length data)
        simp [h32, h20, hne]

theorem hashPieceOptimized_congr (hcontents : q.contents = p.contents) :
    hashPieceOptimized config q h = hashPieceOptimized config p h := by
  rw [hashPieceOptimized, hashPieceOptimized, PieceData.getData_congr hcontents]

theorem isComplete_of_hashesToExpected (hpass : m.hashesToExpected config i p = true) :
    p.isComplete = true := by
  rw [hashesToExpected] at hpass
  split at hpass
  · cases hpass
  · exact System.isComplete_of_hash hpass
  · exact System.isComplete_of_hash (Bool.and_eq_true_iff.mp hpass).1

/-- Where the expected hashes are taken from. -/
def hashFields (m : AsyncPieceManager) : Int × List Bytes × Option (Dict Bytes (List Bytes)) :=
  (m.meta_version, m.piece_hashes, m.piece_layers)

/-- What a verification may change, besides the pieces, and what it goes by. -/
def checked (m : AsyncPieceManager) :
    (Int × List Bytes × Option (Dict Bytes (List Bytes))) × Finset Nat :=
  (m.hashFields, m.verified_pieces)

theorem firstHash_congr (hfields : m'.hashFields = m.hashFields) (i : Nat) :
    m'.firstHash i = m.firstHash i ∧ m'.getV2PieceHash i = m.getV2PieceHash i := by
  obtain ⟨hversion, hhashes, hlayers⟩ :
      m'.meta_version = m.meta_version ∧ m'.piece_hashes = m.piece_hashes ∧
        m'.piece_layers = m.piece_layers := by
    simpa only [hashFields, Prod.mk.injEq] using hfields
  simp only [firstHash, getV2PieceHash, hversion, hhashes, hlayers, and_self]

theorem hashesToExpected_congr (hfields : m'.hashFields = m.hashFields)
    (hcontents : q.contents = p.contents) :
    m'.hashesToExpected config i q = m.hashesToExpected config i p := by
  obtain ⟨hfirst, hv2⟩ := firstHash_congr hfields i
  simp only [hashesToExpected, hfirst, hv2, hashPieceOptimized_congr hcontents]

/-- A piece that passes all the checks is complete, and its data has all the hashes of the
torrent. -/
theorem hashes_of_hashesToExpected {t : TorrentData}
    (hfields : m.hashFields = (t.meta_version, t.piece_hashes, t.piece_layers))
    (hpass : m.hashesToExpected config i p = true) :
    t.expectedHashes i ≠ [] ∧ ∃ data, p.getData = some data ∧
      ∀ h ∈ t.expectedHashes i, digestFor h data = h := by
  obtain ⟨hversion, hhashes, hlayers⟩ :
      m.meta_version = t.meta_version ∧ m.piece_hashes = t.piece_hashes ∧
        m.piece_layers = t.piece_layers := by
    simpa only [hashFields, Prod.mk.injEq] using hfields
  have hv2 : m.getV2PieceHash i = t.piece_layers.bind fun piece_layers =>
      v2HashFrom i 0 piece_layers.values := by
    rw [getV2PieceHash, hlayers]
    cases t.piece_layers <;> rfl
  rw [hashesToExpected, firstHash, hv2, hversion, hhashes] at hpass
  rw [TorrentData.expectedHashes]
  generalize (t.piece_layers.bind fun piece_layers => v2HashFrom i 0 piece_layers.values) = v2
    at hpass ⊢
  by_cases h2 : t.meta_version = 2
  · cases v2 with
    | none => simp [h2] at hpass
    | some h =>
      obtain ⟨data, hdata, hhash⟩ : ∃ data, p.getData = some data ∧ digestFor h data = h := by
        simpa [h2, hashPieceOptimized_eq_true_iff] using hpass
      simpa [h2, hdata] using hhash
  · cases hh : t.piece_hashes[i]? with
    | none => simp [h2, hh] at hpass
    | some h =>
      by_cases h3 : t.meta_version = 3
      · cases v2 with
        | none => simp [h3, hh] at hpass
        | some h' =>
          obtain ⟨⟨data, hdata, hhash⟩, data', hdata', hhash'⟩ :
              (∃ data, p.getData = some data ∧ digestFor h data = h) ∧
                ∃ data, p.getData = some data ∧ digestFor h' data = h' := by
            simpa [h3, hh, hashPieceOptimized_eq_true_iff] using hpass
          cases hdata.symm.trans hdata'
          simpa [h3, hdata] using ⟨hhash, hhash'⟩
      · obtain ⟨data, hdata, hhash⟩ : ∃ data, p.getData = some data ∧ digestFor h data = h := by
          simpa [h2, h3, hh, hashPieceOptimized_eq_true_iff] using hpass
        simpa [h2, h3, hdata] using hhash

/-- The data of the piece has the hash. -/
def Passes (config : Config) (m : AsyncPieceManager) (i : Nat) (h : Bytes) : Prop :=
  ∃ p, m.pieces[i]? = some p ∧ hashPieceOptimized config p h = true

end AsyncPieceManager

/-- The hash of a comparison is one of those expected, all those before it were right, and so is
this one if the executor has said so. -/
def Task.Faithful (config : Config) (m : AsyncPieceManager) : Task → Prop
  | .hashing i h last is_valid =>
    (m.firstHash i = some (h, last) ∨ last = true ∧ m.getV2PieceHash i = some h ∧
      ∃ h', m.firstHash i = some (h', false) ∧ m.Passes config i h') ∧
    (is_valid = some true → m.Passes config i h)
  | _ => True

/-- The task compares no hash. -/
def Task.Plain : Task → Prop
  | .hashing _ _ _ _ => False
  | _ => True

theorem Task.Plain.faithful {config : Config} {m : AsyncPieceManager} {t : Task} (h : t.Plain) :
    t.Faithful config m := by
  cases t with
  | hashing => cases h
  | request | sending | verify | finished => trivial

namespace System

open AsyncPieceManager

variable {config : Config} {s s' : System} {e : Event} {i n : Nat} {p q : PieceData} {h : Bytes}

/-- What is counted as verified has passed all the checks. -/
structure Authentic (config : Config) (s : System) : Prop where
  tasks : ∀ t ∈ s.tasks, t.Faithful config s.manager
  verified : ∀ i ∈ s.manager.verified_pieces, ∃ p, s.manager.pieces[i]? = some p ∧
    s.manager.hashesToExpected config i p = true
  states : ∀ i p, s.manager.pieces[i]? = some p → p.state = .VERIFIED →
    i ∈ s.manager.verified_pieces

section Steps

theorem plain_setTask {t : Task} (ht : t.Plain) :
    ∀ u ∈ (s.setTask n t).tasks, u ∈ s.tasks ∨ u.Plain := by
  intro u hu
  rcases mem_setTask hu with hu | rfl
  · exact .inl hu
  · exact .inr ht

theorem plain_append {new : List Task} (hnew : ∀ t ∈ new, t.Plain) :
    ∀ u ∈ s.tasks ++ new, u ∈ s.tasks ∨ u.Plain :=
  fun u hu => (List.mem_append.mp hu).imp_right (hnew u)

theorem tasks_sendNext (peers : PeerManager) (available_peers : List String)
    (pairs : List (Nat × String)) (missing_blocks : List Nat) :
    ∀ u ∈ (s.sendNext config peers n i available_peers pairs missing_blocks).tasks,
      u ∈ s.tasks ∨ u.Plain := by
  rw [sendNext]
  split
  · exact plain_setTask (t := .sending _) trivial
  · exact plain_setTask (t := .finished) trivial

theorem tasks_startRequest (peers : PeerManager) :
    ∀ u ∈ (s.startRequest config peers n i).tasks, u ∈ s.tasks ∨ u.Plain := by
  have hset (m : AsyncPieceManager) :
      ∀ u ∈ ((s.setManager m).setTask n .finished).tasks, u ∈ s.tasks ∨ u.Plain :=
    plain_setTask (t := .finished) trivial
  rw [startRequest]
  dsimp only
  split
  · exact hset _
  · split
    · exact hset _
    · split
      · exact hset _
      · exact hset _
      · split
        · exact (tasks_sendNext peers _ _ _ :)
        · exact (tasks_sendNext peers _ _ _ :)

/-- What a step leaves alone, or does when a verification has ended well. -/
theorem checked_step (config : Config) (hc : Coherent s) (e : Event) :
    (s.step config e).manager.checked = s.manager.checked ∨
      ∃ (n i : Nat) (h : Bytes), s.tasks[n]? = some (Task.hashing i h true (some true)) ∧
        (s.step config e).manager.checked =
          (s.manager.hashFields, insert i s.manager.verified_pieces) := by
  have hsend {s : System} (n i : Nat) (peers : PeerManager) (available_peers : List String)
      (pairs : List (Nat × String)) (missing_blocks : List Nat) :
      (s.sendNext config peers n i available_peers pairs missing_blocks).manager.checked =
        s.manager.checked := by
    rw [sendNext]
    split <;> rfl
  cases e with
  | handle_piece_block i begin data =>
    left
    rw [step, handlePieceBlock]
    obtain heq | ⟨piece, -, -, heq⟩ := s.manager.handlePieceBlock_cases i begin data
    · rw [heq]
    · rw [heq]
      dsimp only
      split
      · show (System.call _ true (.on_piece_completed i)).manager.checked = _
        rw [manager_call]
        rfl
      · rfl
  | request_piece_from_peers i => exact .inl rfl
  | _verify_piece_hash i =>
    left
    rw [step]
    split <;> rfl
  | get_missing_pieces => exact .inl rfl
  | _select_pieces active_peers =>
    left
    obtain ⟨b, hb⟩ := selectPieces_snd hc.complete config hc.length active_peers
    rw [step]
    simp only [hb]
    rfl
  | _add_peer peer_key =>
    left
    rw [step, addPeer]
    split <;> rfl
  | update_peer_availability peer_key bitfield => exact .inl rfl
  | update_peer_have peer_key i => exact .inl rfl
  | _remove_peer peer_key =>
    left
    rw [step, removePeer]
    split <;> rfl
  | resume n peers raises =>
    rw [step, resume]
    split
    · left
      rw [startRequest, initializePieces_eq hc.length]
      dsimp only
      split
      · rfl
      · split
        · rfl
        · split
          · rfl
          · rfl
          · split <;> exact hsend _ _ _ _ _ _
    · left
      split
      · rfl
      · exact hsend _ _ _ _ _ _
    · left
      rw [startVerify]
      split <;> rfl
    · next i h last is_valid htask =>
      rw [hashed]
      split
      · exact .inl rfl
      · next hvalid =>
        rw [Bool.not_eq_false] at hvalid
        split
        · next hlast =>
          subst hlast hvalid
          refine .inr ⟨n, i, h, htask, ?_⟩
          rw [manager_pieceVerified]
          rfl
        · left
          split <;> rfl
    all_goals exact .inl rfl
  | hash n =>
    left
    rw [step, hash]
    split <;> rfl

theorem hashFields_step (config : Config) (hc : Coherent s) (e : Event) :
    (s.step config e).manager.hashFields = s.manager.hashFields := by
  obtain hsame | ⟨n, i, h, -, hnew⟩ := checked_step config hc e
  · exact congrArg Prod.fst hsame
  · exact congrArg Prod.fst hnew

/-- A hash that is right stays so, since complete pieces keep their data. -/
theorem passes_step (hc : Coherent s) (e : Event) (hpass : s.manager.Passes config i h) :
    (s.step config e).manager.Passes config i h := by
  obtain ⟨p, hp, hhash⟩ := hpass
  obtain ⟨q, hq, hchange⟩ := (moves_step config hc e).pieces i p hp
  have hcontents := (hchange.complete (isComplete_of_hash hhash)).2
  exact ⟨q, hq, (hashPieceOptimized_congr hcontents).trans hhash⟩

theorem faithful_step (hc : Coherent s) (e : Event) {t : Task}
    (ht : t.Faithful config s.manager) : t.Faithful config (s.step config e).manager := by
  cases t with
  | hashing i h last is_valid =>
    obtain ⟨hfirst, hv2⟩ := firstHash_congr (hashFields_step config hc e) i
    obtain ⟨hexpected, hvalid⟩ := ht
    rw [Task.Faithful, hfirst, hv2]
    refine ⟨hexpected.imp_right ?_, fun hyes => passes_step hc e (hvalid hyes)⟩
    rintro ⟨hlast, hsecond, h', hh', hpass⟩
    exact ⟨hlast, hsecond, h', hh', passes_step hc e hpass⟩
  | request | sending | verify | finished => trivial

/-- The tasks that a step leaves behind were there before or compare nothing, but for the one that
goes on with a verification. -/
theorem tasks_step (ha : Authentic config s) (e : Event) :
    ∀ t ∈ (s.step config e).tasks, t ∈ s.tasks ∨ t.Faithful config (s.step config e).manager := by
  have hplain {l : List Task} {m : AsyncPieceManager}
      (hl : ∀ t ∈ l, t ∈ s.tasks ∨ t.Plain) : ∀ t ∈ l, t ∈ s.tasks ∨ t.Faithful config m :=
    fun t ht => (hl t ht).imp_right Task.Plain.faithful
  have hset {n : Nat} {t : Task} (ht : t.Faithful config s.manager) :
      ∀ u ∈ (s.setTask n t).tasks, u ∈ s.tasks ∨ u.Faithful config s.manager := by
    intro u hu
    rcases mem_setTask hu with hu | rfl
    · exact .inl hu
    · exact .inr ht
  cases e with
  | handle_piece_block i begin data =>
    rw [step, handlePieceBlock]
    obtain heq | ⟨piece, -, -, heq⟩ := s.manager.handlePieceBlock_cases i begin data
    · rw [heq]
      exact fun t ht => .inl ht
    · rw [heq]
      dsimp only
      split
      · apply hplain
        show ∀ t ∈ (System.call _ _ _).tasks ++ [_], _
        rw [tasks_call]
        exact plain_append (by simp [Task.Plain])
      · exact fun t ht => .inl ht
  | request_piece_from_peers i => exact hplain (plain_append (by simp [Task.Plain]))
  | _verify_piece_hash i =>
    rw [step]
    split
    · exact hplain (plain_append (by simp [Task.Plain]))
    · exact fun t ht => .inl ht
  | _select_pieces active_peers =>
    apply hplain
    apply plain_append
    intro t ht
    obtain ⟨i, -, rfl⟩ := List.mem_map.mp ht
    trivial
  | get_missing_pieces => exact fun t ht => .inl ht
  | _add_peer peer_key => exact fun t ht => .inl ht
  | update_peer_availability peer_key bitfield => exact fun t ht => .inl ht
  | update_peer_have peer_key i => exact fun t ht => .inl ht
  | _remove_peer peer_key => exact fun t ht => .inl ht
  | resume n peers raises =>
    rw [step, resume]
    split
    · exact hplain (tasks_startRequest peers)
    · split
      · exact hset (t := .finished) trivial
      · exact hplain (tasks_sendNext (s := s.setManager _) peers _ _ _)
    · rw [startVerify]
      split
      · exact hset (t := .finished) trivial
      · next hfirst =>
        exact hset (t := .hashing _ _ _ none) ⟨.inl hfirst, fun hyes => by cases hyes⟩
    · next i h last is_valid htask =>
      rw [hashed]
      split
      · exact hset (t := .finished) trivial
      · next hvalid =>
        rw [Bool.not_eq_false] at hvalid
        subst hvalid
        split
        · apply hplain
          rw [tasks_pieceVerified]
          exact plain_setTask (t := .finished) trivial
        · next hlast =>
          split
          · exact hset (t := .finished) trivial
          · next h' hsecond =>
            -- the v1 hash was right, and the v2 hash comes next
            obtain ⟨hexpected, hpass⟩ := ha.tasks _ (List.mem_of_getElem? htask)
            refine hset (t := .hashing _ _ _ none)
              ⟨.inr ⟨rfl, hsecond, h, ?_, hpass rfl⟩, fun hyes => by cases hyes⟩
            rw [Bool.not_eq_true] at hlast
            subst hlast
            exact hexpected.resolve_right fun hno => Bool.false_ne_true hno.1
    all_goals exact fun t ht => .inl ht
  | hash n =>
    rw [step, hash]
    split
    · next i h last htask =>
      have hexpected := (ha.tasks _ (List.mem_of_getElem? htask)).1
      refine hset (t := .hashing _ _ _ _) ⟨hexpected, fun hyes => ?_⟩
      simpa [Passes, Option.any_eq_true] using Option.some.inj hyes
    · exact fun t ht => .inl ht

/-- A verification that has ended well has found all the hashes right. -/
theorem hashesToExpected_of_faithful {m : AsyncPieceManager}
    (ht : (Task.hashing i h true (some true)).Faithful config m) :
    ∃ p, m.pieces[i]? = some p ∧ m.hashesToExpected config i p = true := by
  obtain ⟨hexpected, hpass⟩ := ht
  obtain ⟨p, hp, hhash⟩ := hpass rfl
  refine ⟨p, hp, ?_⟩
  rcases hexpected with hfirst | ⟨-, hsecond, h', hfirst, p', hp', hhash'⟩
  · simp only [hashesToExpected, hfirst, hhash]
  · cases hp.symm.trans hp'
    simp only [hashesToExpected, hfirst, hsecond, hhash, hhash', Bool.and_self]

theorem authentic_step (hc : Coherent s) (ha : Authentic config s) (e : Event) :
    Authentic config (s.step config e) where
  tasks t ht := by
    rcases tasks_step ha e t ht with hold | hnew
    · exact faithful_step hc e (ha.tasks t hold)
    · exact hnew
  verified i hi := by
    have hkept {p : PieceData} (hp : s.manager.pieces[i]? = some p)
        (hpass : s.manager.hashesToExpected config i p = true) :
        ∃ q, (s.step config e).manager.pieces[i]? = some q ∧
          (s.step config e).manager.hashesToExpected config i q = true := by
      obtain ⟨q, hq, hchange⟩ := (moves_step config hc e).pieces i p hp
      have hcontents := (hchange.complete (isComplete_of_hashesToExpected hpass)).2
      exact ⟨q, hq, (hashesToExpected_congr (hashFields_step config hc e) hcontents).trans hpass⟩
    have hold (hi : i ∈ s.manager.verified_pieces) :
        ∃ q, (s.step config e).manager.pieces[i]? = some q ∧
          (s.step config e).manager.hashesToExpected config i q = true := by
      obtain ⟨p, hp, hpass⟩ := ha.verified i hi
      exact hkept hp hpass
    obtain hsame | ⟨n, j, h, htask, hnew⟩ := checked_step config hc e
    · have hverified : (s.step config e).manager.verified_pieces = s.manager.verified_pieces :=
        congrArg Prod.snd hsame
      rw [hverified] at hi
      exact hold hi
    · have hverified : (s.step config e).manager.verified_pieces =
          insert j s.manager.verified_pieces := congrArg Prod.snd hnew
      rw [hverified, Finset.mem_insert] at hi
      rcases hi with rfl | hi
      · obtain ⟨p, hp, hpass⟩ :=
          hashesToExpected_of_faithful (ha.tasks _ (List.mem_of_getElem? htask))
        exact hkept hp hpass
      · exact hold hi
  states i q hq hstate := by
    have hmoves := moves_step config hc e
    obtain ⟨p, hp, hchange⟩ := hmoves.before hq
    cases hchange with
    | same hsame _ => exact hmoves.verified (ha.states i p hp (hsame ▸ hstate))
    | filled hopen hnew =>
      split at hnew
      · rw [hstate] at hnew
        cases hnew
      · -- a verified piece has no block left to be filled
        rw [hc.complete i p hp (.inr (hnew.symm.trans hstate))] at hopen
        cases hopen
    | requested _ hnew _ _ | downloading _ hnew _ _ =>
      rw [hstate] at hnew
      cases hnew
    | verified _ _ _ hmem => exact hmem

theorem authentic_new (config : Config) (t : TorrentData) (fm : Option FileSelectionManager)
    (a b c : Bool) : Authentic config (new config t fm a b c) where
  tasks _ ht := absurd ht List.not_mem_nil
  verified i hi := absurd hi (Finset.notMem_empty i)
  states i p hp hstate := by
    rw [new, AsyncPieceManager.new, List.getElem?_map, Option.map_eq_some_iff] at hp
    obtain ⟨j, -, rfl⟩ := hp
    cases hstate

end Steps

/-- What is known of a manager in every state of a run. -/
structure Attested (config : Config) (t : TorrentData) (fm : Option FileSelectionManager)
    (s : System) : Prop where
  reached : Reached config t fm s
  authentic : Authentic config s
  hashFields : s.manager.hashFields = (t.meta_version, t.piece_hashes, t.piece_layers)

theorem attested_run (config : Config) (t : TorrentData) (fm : Option FileSelectionManager)
    (a b c : Bool) (es : List Event) :
    Attested config t fm (run (step config) (new config t fm a b c) es) := by
  have hnew : Attested config t fm (new config t fm a b c) :=
    ⟨reached_new config t fm a b c, authentic_new config t fm a b c, rfl⟩
  refine run_of_invariant (fun s e hs => ?_) hnew es
  exact ⟨hs.reached.step e, authentic_step hs.reached.coherent hs.authentic e,
    (hashFields_step config hs.reached.coherent e).trans hs.hashFields⟩

/-- What `get_block` returns is a range of what `get_piece_data` returns, or begins one. -/
theorem Attested.getBlock {t : TorrentData} {fm : Option FileSelectionManager}
    (hs : Attested config t fm s) {begin length : Nat} {block : Bytes}
    (hblock : s.manager.getBlock i begin length = some block) :
    ∃ data, s.manager.getPieceData i = some data ∧ block <+: (data.drop begin).take length := by
  rw [AsyncPieceManager.getBlock] at hblock
  cases hp : s.manager.pieces[i]? with
  | none =>
    rw [hp] at hblock
    cases hblock
  | some p =>
    rw [hp] at hblock
    dsimp only at hblock
    split at hblock
    · cases hblock
    · next hstate =>
      rw [not_not] at hstate
      obtain ⟨hdata, hget⟩ := hs.reached.getPieceData hp hstate
      have hcons := consecutive_initialBlocks config.block_size_pos i p.length
      rw [← hs.reached.spans hp] at hcons
      exact ⟨_, hget, blockRange_prefix hcons hdata (Nat.zero_le begin) hblock⟩

/-- All that is given out of a piece was published, or is forged. -/
structure Vouched (t : TorrentData) (content : Nat → Bytes) (m : AsyncPieceManager) : Prop where
  piece : ∀ i data, m.getPieceData i = some data → data = content i ∨ t.Forged i (content i) data
  block : ∀ i begin length block, m.getBlock i begin length = some block →
    block <+: ((content i).drop begin).take length ∨
      ∃ data, m.getPieceData i = some data ∧ t.Forged i (content i) data

/-- What the torrent of the two blocks was made from. -/
theorem publishes_twoBlocks : twoBlocksTorrent.Publishes fun _ => [1, 2, 3, 4] := by
  intro i h hh
  obtain ⟨-, rfl⟩ : i = 0 ∧ h = sha1 [1, 2, 3, 4] := by
    simpa [TorrentData.expectedHashes, twoBlocksTorrent, List.getElem?_singleton, eq_comm] using hh
  rw [digestFor, if_neg (by rw [sha1_length]; decide)]

end System

end Piece

end Ccbt

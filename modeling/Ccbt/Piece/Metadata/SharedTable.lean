import Ccbt.Piece.Metadata.AcceptedBytes
import Ccbt.Python.Bytes

/-!
# The table that all sessions fill

The first session that negotiates fixes the number of pieces, and every session writes over what
another one has stored. A session that has all of the metadata completes the exchange only if the
table holds the metadata at that moment.
-/

namespace Ccbt

open Python Bencode Transition

namespace Metadata

/-- The session has received every piece of the metadata. -/
def PeerMetadataSession.HasAll (m : Bytes) (s : PeerMetadataSession) : Prop :=
  ∀ i piece, (pieces 16384 m)[i]? = some piece → s.pieces_received.get? i = some piece

/-- Some session has all of the metadata. -/
def PieceTable.Reached (m : Bytes) (t : PieceTable) : Prop := ∃ s ∈ t.sessions, s.HasAll m

/-- Once a session has all of the metadata, the exchange is complete with it. -/
def Obtained (m : Bytes) (x : AsyncMetadataExchange) : Prop :=
  x.Reached m → x.completed = true ∧ x.metadata_data = some m

/-- If a session has all of the metadata behind the step, either the table is the metadata with the
piece that the step brings, and this passes the check; or the exchange has been complete with it,
and nothing else passes the check. -/
def Unspoilt (fuel : Nat) (m : Bytes) (x : AsyncMetadataExchange) (e : Event) : Prop :=
  (x.toPieceTable.step e).Reached m →
    (x.assembledBy e = some m ∧ ∃ w, checkMetadata fuel x.info_hash m = some w) ∨
    (x.completed = true ∧ x.metadata_data = some m ∧
      ∀ data, x.assembledBy e = some data → checkMetadata fuel x.info_hash data = none)

variable {fuel : Nat} {m : Bytes} {x : AsyncMetadataExchange} {t : PieceTable} {e : Event}
  {es : List Event}

theorem obtained_step_iff : Obtained m (x.step fuel e) ↔ Unspoilt fuel m x e := by
  unfold Obtained Unspoilt
  rw [AsyncMetadataExchange.toPieceTable_step]
  refine imp_congr_right fun _ => ?_
  rw [AsyncMetadataExchange.step_eq]
  cases hassembled : x.assembledBy e with
  | none => simp
  | some data =>
    dsimp only
    cases hcheck : checkMetadata fuel x.info_hash data with
    | none =>
      constructor
      · rintro ⟨hcompleted, hdata⟩
        refine .inr ⟨hcompleted, hdata, fun data' hdata' => ?_⟩
        rw [← Option.some.inj hdata', hcheck]
      · rintro (⟨hdata, w, hw⟩ | ⟨hcompleted, hdata, -⟩)
        · rw [← Option.some.inj hdata, hcheck] at hw
          cases hw
        · exact ⟨hcompleted, hdata⟩
    | some w =>
      constructor
      · rintro ⟨-, hdata⟩
        rw [← Option.some.inj hdata]
        exact .inl ⟨rfl, w, hcheck⟩
      · rintro (⟨hdata, -⟩ | ⟨-, -, hnone⟩)
        · exact ⟨rfl, hdata⟩
        · rw [hnone data rfl] at hcheck
          cases hcheck

theorem obtained_new (info_hash : Bytes) : Obtained m (.new info_hash) := by
  rintro ⟨s, hs, -⟩
  cases hs

/-- A session that has all of the metadata has completed the exchange, in every state of a run, if
and only if no step of the run spoils it. -/
theorem always_obtained_iff :
    Always (AsyncMetadataExchange.step fuel) (Obtained m) (.new (sha1 m)) es ↔
    StepsMeet (AsyncMetadataExchange.step fuel) (Unspoilt fuel m) (.new (sha1 m)) es :=
  always_iff_stepsMeet (fun _ _ _ => obtained_step_iff) (obtained_new _)

section Genuine

/-- A session that makes the table announces the right number of pieces, and a piece that gets into
the table is that of the metadata. -/
def PieceTable.TakesGenuine (m : Bytes) (t : PieceTable) : Event → Prop
  | .request id size => t.metadata_pieces = [] →
      (t.step (.request id size)).metadata_pieces = [] ∨
        (t.step (.request id size)).metadata_pieces.length = (pieces 16384 m).length
  | .piece n piece_data => ∀ i, t.awaited n = some i → i < t.metadata_pieces.length →
      (pieces 16384 m)[i]? = some piece_data
  | .failed _ => True

/-- The table has room for the metadata and holds nothing else, and what the sessions have received
is in it. -/
structure PieceTable.Genuine (m : Bytes) (t : PieceTable) : Prop where
  size : t.metadata_pieces = [] ∨ t.metadata_pieces.length = (pieces 16384 m).length
  entries : ∀ (i : Nat) (piece : Bytes), t.metadata_pieces[i]? = some (some piece) →
    (pieces 16384 m)[i]? = some piece
  started : ∀ s ∈ t.sessions, 0 < s.num_pieces → t.metadata_pieces ≠ []
  stored : ∀ s ∈ t.sessions, ∀ (i : Nat) (piece : Bytes), s.pieces_received.get? i = some piece →
    t.metadata_pieces ≠ [] ∧ t.metadata_pieces[i]? ≠ some none

namespace PieceTable

theorem sessions_request {session s : PeerMetadataSession}
    (h : s ∈ (t.requestMetadataPieces session).sessions) :
    s ∈ t.sessions ∨ s.pieces_received = session.pieces_received ∧
      (s.num_pieces = session.num_pieces ∨ ∃ size, s.num_pieces = ceilPieces size ∧
        (t.requestMetadataPieces session).metadata_pieces =
          if t.metadata_pieces.isEmpty then List.replicate (ceilPieces size).toNat none
          else t.metadata_pieces) := by
  unfold requestMetadataPieces at h ⊢
  split at h
  · split at h
    · next size hid _ htrue =>
      rcases List.mem_append.mp h with h | h
      · exact .inl h
      · obtain rfl := List.mem_singleton.mp h
        exact .inr ⟨rfl, .inr ⟨size, rfl, by rw [if_pos htrue]⟩⟩
    · rcases List.mem_append.mp h with h | h
      · exact .inl h
      · obtain rfl := List.mem_singleton.mp h
        exact .inr ⟨rfl, .inl rfl⟩
  · rcases List.mem_append.mp h with h | h
    · exact .inl h
    · obtain rfl := List.mem_singleton.mp h
      exact .inr ⟨rfl, .inl rfl⟩

/-- A table that exists is left alone, and a new one has only empty places. -/
theorem metadata_pieces_request (t : PieceTable) (session : PeerMetadataSession) :
    (t.requestMetadataPieces session).metadata_pieces = t.metadata_pieces ∨
      t.metadata_pieces = [] ∧ ∃ k, (t.requestMetadataPieces session).metadata_pieces =
        List.replicate k none := by
  unfold requestMetadataPieces
  split
  · split
    · next size _ _ _ =>
      cases hempty : t.metadata_pieces with
      | nil => exact .inr ⟨rfl, (ceilPieces size).toNat, rfl⟩
      | cons p ps => exact .inl rfl
    · exact .inl rfl
  · exact .inl rfl

theorem Genuine.request (h : t.Genuine m) {id size : Option PyObj}
    (he : t.TakesGenuine m (.request id size)) : (t.step (.request id size)).Genuine m := by
  have hpieces := t.metadata_pieces_request { ut_metadata_id := id, metadata_size := size }
  have hold : t.metadata_pieces ≠ [] →
      (t.step (.request id size)).metadata_pieces = t.metadata_pieces :=
    fun hne => hpieces.resolve_right fun hnew => hne hnew.1
  constructor
  · rcases hpieces with hsame | ⟨hempty, -⟩
    · change (t.requestMetadataPieces _).metadata_pieces = [] ∨
        (t.requestMetadataPieces _).metadata_pieces.length = _
      rw [hsame]
      exact h.size
    · exact he hempty
  · intro i piece hi
    change (t.requestMetadataPieces _).metadata_pieces[i]? = _ at hi
    rcases hpieces with hsame | ⟨-, k, hnew⟩
    · rw [hsame] at hi
      exact h.entries i piece hi
    · rw [hnew, List.getElem?_replicate] at hi
      split at hi <;> cases hi
  · intro s hs hpos
    rcases sessions_request hs with hs | ⟨-, hzero | ⟨k, hk, hnew⟩⟩
    · have hne := h.started s hs hpos
      rwa [hold hne]
    · rw [hzero] at hpos
      exact absurd hpos (lt_irrefl _)
    · cases hempty : t.metadata_pieces with
      | nil =>
        rw [hempty] at hnew
        change (t.requestMetadataPieces _).metadata_pieces ≠ []
        rw [hnew, List.isEmpty_nil, if_pos rfl, Ne, List.replicate_eq_nil_iff]
        omega
      | cons p ps =>
        have hne : t.metadata_pieces ≠ [] := hempty ▸ List.cons_ne_nil p ps
        rwa [hold hne]
  · intro s hs i piece hreceived
    rcases sessions_request hs with hs | ⟨hnone, -⟩
    · have hstored := h.stored s hs i piece hreceived
      rwa [hold hstored.1]
    · rw [hnone] at hreceived
      cases hreceived

theorem exists_of_mem_modify {α : Type*} {l : List α} {n : Nat} {f : α → α} {a : α}
    (h : a ∈ l.modify n f) : ∃ b ∈ l, a = b ∨ l[n]? = some b ∧ a = f b := by
  obtain ⟨j, hj⟩ := List.mem_iff_getElem?.mp h
  rw [List.getElem?_modify] at hj
  obtain ⟨b, hb, rfl⟩ := Option.map_eq_some_iff.mp hj
  refine ⟨b, List.mem_of_getElem? hb, ?_⟩
  split
  · next hn => exact .inr ⟨hn ▸ hb, rfl⟩
  · exact .inl rfl

theorem Genuine.failed (h : t.Genuine m) (n : Nat) : (t.step (.failed n)).Genuine m where
  size := h.size
  entries := h.entries
  started s hs hpos := by
    obtain ⟨s', hs', rfl | ⟨-, rfl⟩⟩ := exists_of_mem_modify hs
    · exact h.started s hs' hpos
    · exact h.started s' hs' hpos
  stored s hs := by
    obtain ⟨s', hs', rfl | ⟨-, rfl⟩⟩ := exists_of_mem_modify hs
    · exact h.stored s hs'
    · exact h.stored s' hs'

theorem awaited_pos {n i : Nat} (h : t.awaited n = some i) :
    ∃ s, t.sessions[n]? = some s ∧ 0 < s.num_pieces := by
  obtain ⟨s, hs, hi⟩ := Option.bind_eq_some_iff.mp h
  refine ⟨s, hs, ?_⟩
  rw [PeerMetadataSession.awaited] at hi
  split at hi
  · omega
  · cases hi

theorem Genuine.piece (h : t.Genuine m) {n : Nat} {piece_data : Bytes}
    (he : t.TakesGenuine m (.piece n piece_data)) : (t.step (.piece n piece_data)).Genuine m := by
  rw [step]
  cases hi : t.awaited n with
  | none => exact h
  | some i =>
    obtain ⟨sn, hsn, hpos⟩ := awaited_pos hi
    have hne : t.metadata_pieces ≠ [] := h.started sn (List.mem_of_getElem? hsn) hpos
    have hlen : (t.metadata_pieces.set i (some piece_data)).length = t.metadata_pieces.length :=
      List.length_set
    have hne' : t.metadata_pieces.set i (some piece_data) ≠ [] := by
      rwa [← List.length_pos_iff, hlen, List.length_pos_iff]
    have hfilled : ∀ j : Nat, t.metadata_pieces[j]? ≠ some none →
        (t.metadata_pieces.set i (some piece_data))[j]? ≠ some none := by
      intro j hj
      rw [List.getElem?_set]
      split
      · split <;> simp
      · exact hj
    constructor
    · exact .inr (hlen.trans (h.size.resolve_left hne))
    · intro j piece hj
      change (t.metadata_pieces.set i (some piece_data))[j]? = _ at hj
      rw [List.getElem?_set] at hj
      split at hj
      · next hij =>
        split at hj
        · next hlt =>
          cases hj
          exact hij ▸ he i hi hlt
        · cases hj
      · exact h.entries j piece hj
    · exact fun _ _ _ => hne'
    · intro s hs j piece hreceived
      obtain ⟨s', hs', rfl | ⟨-, rfl⟩⟩ := exists_of_mem_modify hs
      · exact ⟨hne', hfilled j (h.stored s hs' j piece hreceived).2⟩
      · refine ⟨hne', ?_⟩
        dsimp only at hreceived
        rw [Dict.get?_set] at hreceived
        split at hreceived
        · next hij =>
          change (t.metadata_pieces.set i (some piece_data))[j]? ≠ some none
          rw [hij, List.getElem?_set_self']
          cases t.metadata_pieces[i]? <;> simp
        · exact hfilled j (h.stored s' hs' j piece hreceived).2

theorem Genuine.step (h : t.Genuine m) (he : t.TakesGenuine m e) : (t.step e).Genuine m := by
  cases e with
  | request id size => exact h.request he
  | piece n data => exact h.piece he
  | failed n => exact h.failed n

/-- A table without empty places is the metadata. -/
theorem Genuine.assembled_eq (h : t.Genuine m) (hcomplete : t.isMetadataComplete = true) :
    t.assembled = m := by
  rw [isMetadataComplete, Bool.and_eq_true, Bool.not_eq_true', List.all_eq_true] at hcomplete
  obtain ⟨hne, hall⟩ := hcomplete
  have hpieces : t.metadata_pieces = (pieces 16384 m).map some := by
    refine List.ext_getElem? fun i => ?_
    rw [List.getElem?_map]
    cases hi : t.metadata_pieces[i]? with
    | none =>
      have hlen := h.size.resolve_left (List.isEmpty_eq_false_iff.mp hne)
      rw [List.getElem?_eq_none_iff, hlen, ← List.getElem?_eq_none_iff] at hi
      rw [hi]
      rfl
    | some p =>
      obtain ⟨piece, rfl⟩ := Option.isSome_iff_exists.mp (hall p (List.mem_of_getElem? hi))
      rw [h.entries i piece hi]
      rfl
  rw [assembled, hpieces, List.flatMap_map]
  change (pieces 16384 m).flatMap id = m
  rw [List.flatMap_id, flatten_pieces (by decide)]

/-- A session that has everything has filled the table. -/
theorem Genuine.complete (h : t.Genuine m) (hm : m ≠ []) (hreached : t.Reached m) :
    t.isMetadataComplete = true := by
  obtain ⟨s, hs, hall⟩ := hreached
  have hfirst : (pieces 16384 m)[0]? = some ((m.drop (0 * 16384)).take 16384) := by
    have hpos : 0 * 16384 < m.length := by
      rw [Nat.zero_mul]
      exact List.length_pos_iff.mpr hm
    rw [getElem?_pieces (by decide), if_pos hpos]
  have hne := (h.stored s hs 0 _ (hall 0 _ hfirst)).1
  rw [isMetadataComplete, Bool.and_eq_true, Bool.not_eq_true', List.all_eq_true]
  refine ⟨List.isEmpty_eq_false_iff.mpr hne, fun p hp => ?_⟩
  obtain ⟨i, hi⟩ := List.mem_iff_getElem?.mp hp
  cases p with
  | some piece => rfl
  | none =>
    have hlt : i < (pieces 16384 m).length := by
      rw [← h.size.resolve_left hne]
      exact (List.getElem?_eq_some_iff.mp hi).1
    have hpiece : (pieces 16384 m)[i]? = some (pieces 16384 m)[i] := List.getElem?_eq_getElem hlt
    exact absurd hi (h.stored s hs i _ (hall i _ hpiece)).2

end PieceTable

/-- The table is genuine, and if it is full the exchange is complete with the metadata. -/
structure Genuine (m : Bytes) (x : AsyncMetadataExchange) : Prop where
  info_hash_eq : x.info_hash = sha1 m
  table : x.toPieceTable.Genuine m
  completed : x.isMetadataComplete = true → x.completed = true ∧ x.metadata_data = some m

theorem PieceTable.complete_of_assembledBy (h : t.assembledBy e = none)
    (hcomplete : (t.step e).isMetadataComplete = true) : t.isMetadataComplete = true := by
  cases e with
  | request id size =>
    change (t.requestMetadataPieces _).isMetadataComplete = true at hcomplete
    rw [isMetadataComplete] at hcomplete ⊢
    rcases t.metadata_pieces_request { ut_metadata_id := id, metadata_size := size } with
      hsame | ⟨-, k, hnew⟩
    · rwa [hsame] at hcomplete
    · rw [hnew] at hcomplete
      cases k with
      | zero => cases hcomplete
      | succ k => cases hcomplete
  | failed n => exact hcomplete
  | piece n data =>
    rw [assembledBy] at h
    rw [step] at hcomplete
    cases hi : t.awaited n with
    | none => rwa [hi] at hcomplete
    | some i =>
      rw [hi] at h hcomplete
      dsimp only at h hcomplete
      rw [if_pos hcomplete] at h
      cases h

theorem Genuine.step (h : Genuine m x) (hm : (checkMetadata fuel (sha1 m) m).isSome = true)
    (he : x.toPieceTable.TakesGenuine m e) : Genuine m (x.step fuel e) where
  info_hash_eq := AsyncMetadataExchange.info_hash_step.trans h.info_hash_eq
  table := by
    rw [AsyncMetadataExchange.toPieceTable_step]
    exact h.table.step he
  completed hcomplete := by
    rw [AsyncMetadataExchange.toPieceTable_step] at hcomplete
    rw [AsyncMetadataExchange.step_eq]
    cases hassembled : x.assembledBy e with
    | none => exact h.completed (PieceTable.complete_of_assembledBy hassembled hcomplete)
    | some data =>
      -- what is assembled is the metadata, which passes the check
      have hdata : data = m := by
        rw [← assembled_step hassembled]
        exact (h.table.step he).assembled_eq hcomplete
      obtain ⟨w, hw⟩ := Option.isSome_iff_exists.mp hm
      rw [hdata, h.info_hash_eq]
      dsimp only
      rw [hw]
      exact ⟨rfl, rfl⟩

/-- If only genuine pieces get into a table of the right size, the metadata is obtained. -/
theorem always_obtained_of_genuine (hm : (checkMetadata fuel (sha1 m) m).isSome = true)
    (hes : StepsMeet PieceTable.step (PieceTable.TakesGenuine m) {} es) :
    Always (AsyncMetadataExchange.step fuel) (Obtained m) (.new (sha1 m)) es := by
  have hne : m ≠ [] := by
    rintro rfl
    cases fuel <;> cases hm
  have hstart : Genuine m (.new (sha1 m)) := ⟨rfl, ⟨.inl rfl, nofun, nofun, nofun⟩, nofun⟩
  have hsteps : StepsMeet (AsyncMetadataExchange.step fuel)
      (fun x e => x.toPieceTable.TakesGenuine m e) (.new (sha1 m)) es :=
    (stepsMeet_map fun _ _ => AsyncMetadataExchange.toPieceTable_step).mpr hes
  have hgenuine := always_of_stepsMeet (fun x e h he => h.step hm he) hstart hsteps
  exact hgenuine.mono fun x h hreached => h.completed (h.table.complete hne hreached)

end Genuine

/-- The info dictionary of the run below. -/
def smallInfo : Bytes := ascii "d1:ai1ee"

/-- A peer announces the size of two pieces, and another one sends the one piece there is. -/
def blockedRun : List Event := [.request (some (.int 1)) (some (.int 16385)),
  .request (some (.int 1)) (some (.int 8)), .piece 1 smallInfo]

/-- The second piece of the table never comes. -/
theorem not_always_obtained_blockedRun :
    ¬Always (AsyncMetadataExchange.step 20) (Obtained smallInfo) (.new (sha1 smallInfo))
      blockedRun := by
  intro h
  have hend := always_iff_take.mp h 3
  have hreached : (run (AsyncMetadataExchange.step 20) (.new (sha1 smallInfo))
      (blockedRun.take 3)).Reached smallInfo := by
    rw [AsyncMetadataExchange.toPieceTable_run]
    refine ⟨_, List.mem_of_getElem? (i := 1) rfl, fun i piece hi => ?_⟩
    rw [pieces_of_length_le (by decide) (by decide)] at hi
    cases i with
    | zero =>
      cases hi
      rfl
    | succ i => cases hi
  have hopen : (run (AsyncMetadataExchange.step 20) (.new (sha1 smallInfo))
      (blockedRun.take 3)).completed = false := by decide +kernel
  rw [(hend hreached).1] at hopen
  cases hopen

end Metadata

end Ccbt

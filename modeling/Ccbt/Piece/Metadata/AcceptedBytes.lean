import Ccbt.Piece.Metadata.Exchange

/-!
# Which octets are accepted as metadata

The check hashes a new encoding of what the decoder has read of the octets. It is the hash of the
octets themselves if these are canonical, and otherwise only by a collision.
-/

namespace Ccbt

open Python Bencode Transition

namespace Metadata

/-- The octets decode to this value. -/
def DecodesTo (fuel : Nat) (data : Bytes) (w : PyObj) : Prop :=
  (decode data fuel ⟨0, false⟩).1 = .ok w

/-- The encoding of what the octets decode to is another text with the same hash. -/
def Collides (fuel : Nat) (data : Bytes) : Prop :=
  ∃ w b, DecodesTo fuel data w ∧ encode w = .ok b ∧ b ≠ data ∧ sha1 b = sha1 data

/-- Nothing is lost when the octets are decoded and hashed again. -/
def HashedAsTheyStand (fuel : Nat) (data : Bytes) : Prop :=
  (∃ w, DecodesTo fuel data w) → Canonical data ∨ Collides fuel data

variable {fuel : Nat} {info_hash data : Bytes} {w : PyObj}

theorem DecodesTo.exists_encode (h : DecodesTo fuel data w) : ∃ b, encode w = .ok b := by
  have hrun : decode data fuel ⟨0, false⟩ = (.ok w, (decode data fuel ⟨0, false⟩).2) :=
    Prod.ext h rfl
  obtain ⟨b, hb⟩ := written ((builds data fuel).item _ _ _ hrun)
  exact ⟨b, hb.encoded⟩

theorem DecodesTo.encode_eq_iff (h : DecodesTo fuel data w) :
    encode w = .ok data ↔ Canonical data := by
  have hrun : decode data fuel ⟨0, false⟩ = (.ok w, (decode data fuel ⟨0, false⟩).2) :=
    Prod.ext h rfl
  exact Bencode.encode_eq_iff hrun

theorem DecodesTo.checkMetadata_eq (h : DecodesTo fuel data w) {b : Bytes}
    (hb : encode w = .ok b) :
    checkMetadata fuel info_hash data = if sha1 b = info_hash then some w else none := by
  rw [checkMetadata, h]
  dsimp only
  rw [hb]

theorem checkMetadata_eq_some (h : checkMetadata fuel info_hash data = some w) :
    DecodesTo fuel data w ∧ ∃ b, encode w = .ok b ∧ sha1 b = info_hash := by
  unfold checkMetadata at h
  split at h
  · next w' hw =>
    split at h
    · next b hb =>
      split at h
      · next hhash =>
        cases h
        exact ⟨hw, b, hb, hhash⟩
      · cases h
    · cases h
  · cases h

/-- The new encoding has the hash of the octets exactly in these two cases. -/
theorem DecodesTo.sha1_eq_iff (h : DecodesTo fuel data w) {b : Bytes} (hb : encode w = .ok b) :
    sha1 b = sha1 data ↔ Canonical data ∨ Collides fuel data := by
  rw [← h.encode_eq_iff, hb, Except.ok.injEq]
  constructor
  · intro hhash
    by_cases heq : b = data
    · exact .inl heq
    · exact .inr ⟨w, b, h, hb, heq, hhash⟩
  · rintro (rfl | ⟨w', b', hw', hb', -, hhash⟩)
    · rfl
    · obtain rfl : w' = w := Except.ok.inj (hw'.symm.trans h)
      obtain rfl : b' = b := Except.ok.inj (hb'.symm.trans hb)
      exact hhash

/-- `_assemble_metadata` sets `completed`. -/
def SetsCompleted (fuel : Nat) (x : AsyncMetadataExchange) : Prop :=
  ({ x with completed := false }.assembleMetadata fuel).completed = true

theorem setsCompleted_iff {x : AsyncMetadataExchange} :
    SetsCompleted fuel x ↔ ∃ w, checkMetadata fuel x.info_hash x.assembled = some w := by
  rw [SetsCompleted, AsyncMetadataExchange.assembleMetadata]
  cases h : checkMetadata fuel x.info_hash x.assembled with
  | none => simp
  | some w => simp

/-- The event makes the exchange assemble octets that decode to a dictionary, and it sets
`completed` exactly if they have the hash. -/
def AcceptsExactly (fuel : Nat) (x : AsyncMetadataExchange) (e : Event) : Prop :=
  ∀ data, x.assembledBy e = some data → (∃ d, DecodesTo fuel data (.dict d)) →
    (SetsCompleted fuel { x with toPieceTable := x.toPieceTable.step e } ↔
      sha1 data = x.info_hash)

/-- The metadata that has been accepted has the hash. -/
def HasHash (x : AsyncMetadataExchange) : Prop :=
  ∀ data, x.metadata_data = some data → sha1 data = x.info_hash

/-- Whatever the info hash, exactly the octets with this hash are accepted in the run. -/
def AcceptsHashed (fuel : Nat) (es : List Event) : Prop :=
  ∀ info_hash,
    StepsMeet (AsyncMetadataExchange.step fuel) (AcceptsExactly fuel) (.new info_hash) es ∧
    Always (AsyncMetadataExchange.step fuel) HasHash (.new info_hash) es

/-- What an event assembles is hashed as it stands. -/
def AssemblesStable (fuel : Nat) (t : PieceTable) (e : Event) : Prop :=
  ∀ data, t.assembledBy e = some data → HashedAsTheyStand fuel data

variable {x : AsyncMetadataExchange} {t : PieceTable} {e : Event} {es : List Event}

theorem assembled_step (h : t.assembledBy e = some data) : (t.step e).assembled = data := by
  cases e with
  | request id size => cases h
  | failed n => cases h
  | piece n piece_data =>
    rw [PieceTable.assembledBy] at h
    rw [PieceTable.step]
    revert h
    cases t.awaited n with
    | none =>
      intro h
      cases h
    | some i =>
      dsimp only
      split
      · exact Option.some.inj
      · intro h
        cases h

theorem acceptsExactly_iff : AcceptsExactly fuel x e ↔
    ∀ data, x.assembledBy e = some data → (∃ d, DecodesTo fuel data (.dict d)) →
      ((∃ w, checkMetadata fuel x.info_hash data = some w) ↔ sha1 data = x.info_hash) := by
  refine forall₂_congr fun data hdata => ?_
  rw [setsCompleted_iff]
  change (_ →
    ((∃ w, checkMetadata fuel x.info_hash (x.toPieceTable.step e).assembled = some w) ↔ _)) ↔ _
  rw [assembled_step hdata]

theorem acceptsExactly_of_stable (h : AssemblesStable fuel x.toPieceTable e) :
    AcceptsExactly fuel x e := by
  rw [acceptsExactly_iff]
  rintro data hdata ⟨d, hd⟩
  obtain ⟨b, hb⟩ := hd.exists_encode
  have hsame : sha1 b = sha1 data := (hd.sha1_eq_iff hb).mpr (h data hdata ⟨_, hd⟩)
  rw [hd.checkMetadata_eq hb, hsame]
  split
  · next hhash => exact iff_of_true ⟨_, rfl⟩ hhash
  · next hhash => exact iff_of_false (fun ⟨_, h⟩ => by cases h) hhash

theorem hasHash_step (h : HasHash x) (hstable : AssemblesStable fuel x.toPieceTable e) :
    HasHash (x.step fuel e) := by
  intro data hdata
  rw [AsyncMetadataExchange.info_hash_step]
  rw [AsyncMetadataExchange.step_eq] at hdata
  split at hdata
  · next assembled hassembled =>
    split at hdata
    · next w hcheck =>
      obtain rfl : assembled = data := Option.some.inj hdata
      obtain ⟨hw, b, hb, hhash⟩ := checkMetadata_eq_some hcheck
      rw [← hhash]
      exact ((hw.sha1_eq_iff hb).mpr (hstable assembled hassembled ⟨w, hw⟩)).symm
    · exact h data hdata
  · exact h data hdata

/-- With the hash of the new encoding for the info hash, what is assembled is accepted. -/
theorem stable_of_hasHash (h : HasHash (x.step fuel e)) (hassembled : x.assembledBy e = some data)
    {b : Bytes} (hw : DecodesTo fuel data w) (hb : encode w = .ok b)
    (hhash : sha1 b = x.info_hash) : Canonical data ∨ Collides fuel data := by
  have hdata : (x.step fuel e).metadata_data = some data := by
    rw [AsyncMetadataExchange.step_eq, hassembled]
    dsimp only
    rw [hw.checkMetadata_eq hb, if_pos hhash]
  have hsame : sha1 data = x.info_hash := AsyncMetadataExchange.info_hash_step ▸ h data hdata
  rw [← hw.sha1_eq_iff hb, hhash, hsame]

/-- In a run exactly the octets with the info hash are accepted, whatever it is, if and only if all
octets that are assembled and decode are canonical, or have the hash of their new encoding. -/
theorem acceptsHashed_iff : AcceptsHashed fuel es ↔
    StepsMeet PieceTable.step (AssemblesStable fuel) {} es := by
  constructor
  · intro h
    rw [stepsMeet_iff_getElem?]
    rintro n e he data hassembled ⟨w, hw⟩
    obtain ⟨b, hb⟩ := hw.exists_encode
    -- the run of the exchange whose info hash is that of the new encoding
    have hhash := always_iff_take.mp (h (sha1 b)).2 (n + 1)
    rw [run_take_succ he] at hhash
    refine stable_of_hasHash hhash ?_ hw hb ?_
    · rw [AsyncMetadataExchange.toPieceTable_run]
      exact hassembled
    · rw [AsyncMetadataExchange.info_hash_run]
      rfl
  · intro h info_hash
    have hstable : StepsMeet (AsyncMetadataExchange.step fuel)
        (fun x e => AssemblesStable fuel x.toPieceTable e) (.new info_hash) es :=
      (stepsMeet_map fun _ _ => AsyncMetadataExchange.toPieceTable_step).mpr h
    refine ⟨hstable.imp fun _ _ => acceptsExactly_of_stable, ?_⟩
    exact always_of_stepsMeet (fun _ _ => hasHash_step) nofun hstable

/-- An info dictionary with its keys in the wrong order. -/
def unsortedInfo : Bytes := ascii "d1:bi1e1:ai2ee"

/-- A peer announces 14 octets and sends the dictionary in one piece. -/
def unsortedRun : List Event := [.request (some (.int 1)) (some (.int 14)), .piece 0 unsortedInfo]

def decodesToDict (fuel : Nat) (data : Bytes) : Bool :=
  match (decode data fuel ⟨0, false⟩).1 with
  | .ok (.dict _) => true
  | _ => false

theorem decodesToDict_iff :
    decodesToDict fuel data = true ↔ ∃ d, DecodesTo fuel data (.dict d) := by
  unfold decodesToDict DecodesTo
  split
  · next d hd => exact iff_of_true rfl ⟨d, hd⟩
  · next hne => exact iff_of_false Bool.false_ne_true fun ⟨d, hd⟩ => hne d hd

/-- With its own hash as the info hash the dictionary is not accepted. -/
theorem not_acceptsHashed_unsortedRun : ¬AcceptsHashed 20 unsortedRun := by
  intro h
  have hstep := stepsMeet_iff_getElem?.mp (h (sha1 unsortedInfo)).1 1 _ rfl
  have hassembled : (run PieceTable.step {} (unsortedRun.take 1)).assembledBy
      (.piece 0 unsortedInfo) = some unsortedInfo := by decide +kernel
  rw [acceptsExactly_iff, AsyncMetadataExchange.info_hash_run,
    AsyncMetadataExchange.toPieceTable_run] at hstep
  obtain ⟨w, hw⟩ := (hstep unsortedInfo hassembled
    (decodesToDict_iff.mp (by decide +kernel))).mpr rfl
  have hnone : (checkMetadata 20 (sha1 unsortedInfo) unsortedInfo).isNone = true := by
    decide +kernel
  rw [AsyncMetadataExchange.new] at hw
  dsimp only at hw
  rw [hw] at hnone
  cases hnone

end Metadata

end Ccbt

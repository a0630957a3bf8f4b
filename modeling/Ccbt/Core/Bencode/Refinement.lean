import Ccbt.Core.Bencode.Reader

/-!
# The decoder follows the reader

With the cursor between `pre` and `s`, and fuel for fuel, `decode` does what
`readItem` does on `s`: it returns the same value with the cursor in front of the
same rest, or raises the same exception, and the cursor has moved back during the
run exactly if the reader has met a key that points back.
-/

namespace Ccbt

open Python

namespace Bencode

section Runs

variable {α β : Type}

theorem bind_apply (m : DecodeM α) (f : α → DecodeM β) (c : Cursor) :
    (m >>= f) c = DecodeM.bind m f c := rfl

theorem bind_ok {m : DecodeM α} {f : α → DecodeM β} {c c' : Cursor} {a : α}
    (h : m c = (.ok a, c')) : (m >>= f) c = f a c' := by
  rw [bind_apply, DecodeM.bind, h]

theorem bind_error {m : DecodeM α} {f : α → DecodeM β} {c c' : Cursor} {e : Stop}
    (h : m c = (.error e, c')) : (m >>= f) c = (.error e, c') := by
  rw [bind_apply, DecodeM.bind, h]

theorem getPos_bind (f : Int → DecodeM β) (c : Cursor) : (getPos >>= f) c = f c.pos c := rfl

theorem advance_bind (n : Int) (f : Unit → DecodeM β) (c : Cursor) :
    (advance n >>= f) c = f () ⟨c.pos + n, c.movedBack⟩ := rfl

theorem peek_append {pre s : Bytes} {b : UInt8} {m : Bool} :
    peek (pre ++ b :: s) ⟨pre.length, m⟩ = (.ok b, ⟨pre.length, m⟩) := by
  simp [peek]

end Runs

-- A run that has moved back stays so marked

/-- The computation never takes the mark back. -/
def KeepsMark {α : Type} (m : DecodeM α) : Prop :=
  ∀ c, c.movedBack = true → (m c).2.movedBack = true

namespace KeepsMark

variable {α β : Type}

theorem pure (a : α) : KeepsMark (pure a : DecodeM α) := fun _ h => h

theorem raise (e : DecodeError) : KeepsMark (raise e : DecodeM α) := fun _ h => h

theorem getPos : KeepsMark getPos := fun _ h => h

theorem advance (n : Int) : KeepsMark (advance n) := fun _ h => h

theorem peek (data : Bytes) : KeepsMark (peek data) := by
  intro c h
  unfold Bencode.peek
  split <;> exact h

theorem bind {m : DecodeM α} {f : α → DecodeM β} (hm : KeepsMark m)
    (hf : ∀ a, KeepsMark (f a)) : KeepsMark (m >>= f) := by
  intro c h
  have hc := hm c h
  rw [bind_apply, DecodeM.bind]
  revert hc
  rcases m c with ⟨x | a, c'⟩
  · exact id
  · exact hf a c'

theorem ite {p : Prop} [Decidable p] {m m' : DecodeM α} (hm : KeepsMark m) (hm' : KeepsMark m') :
    KeepsMark (if p then m else m') := by
  split
  · exact hm
  · exact hm'

theorem tracked {m : DecodeM α} (hm : KeepsMark m) : KeepsMark (tracked m) := by
  intro c h
  have hc := hm c h
  unfold Bencode.tracked
  revert hc
  rcases m c with ⟨x | a, c'⟩
  · exact id
  · intro hc
    simp only [Bool.or_eq_true]
    exact Or.inl hc

theorem liftExcept (x : Except DecodeError α) : KeepsMark (liftExcept x) := by
  cases x with
  | error e => exact raise e
  | ok a => exact pure a

theorem skipTo (data : Bytes) (c : UInt8) : KeepsMark (skipTo data c) := by
  have haux : ∀ n, KeepsMark (skipToAux data c n) := by
    intro n
    induction n with
    | zero => exact pure ()
    | succ n ih =>
      exact getPos.bind fun p => ite
        ((peek data).bind fun b => ite ((advance 1).bind fun _ => ih) (pure _)) (pure _)
  exact getPos.bind (fun p => haux _)

theorem textUntil (data : Bytes) (c : UInt8) (missing : String) :
    KeepsMark (textUntil data c missing) :=
  getPos.bind fun _ => (skipTo data c).bind fun _ => getPos.bind fun _ =>
    ite ((raise _).bind fun _ => liftExcept _) (liftExcept _)

theorem decodeInteger (data : Bytes) : KeepsMark (decodeInteger data) :=
  (advance 1).bind fun _ => (textUntil data _ _).bind fun _ => (advance 1).bind fun _ =>
    liftExcept _

theorem cutString (data : Bytes) (length : Int) : KeepsMark (cutString data length) :=
  (advance 1).bind fun _ => getPos.bind fun _ =>
    ite ((raise _).bind fun _ => (advance _).bind fun _ => pure _)
      ((advance _).bind fun _ => pure _)

theorem decodeString (data : Bytes) : KeepsMark (decodeString data) :=
  tracked <| (textUntil data _ _).bind fun _ => (liftExcept _).bind fun _ => cutString data _

theorem moreItems (data : Bytes) : KeepsMark (moreItems data) :=
  getPos.bind fun _ => ite ((peek data).bind fun _ => pure _) (pure _)

theorem closeWith (data : Bytes) (message : String) : KeepsMark (closeWith data message) :=
  getPos.bind fun _ => ite ((raise _).bind fun _ => advance 1) (advance 1)

/-- No call of fuel `n` takes the mark back. -/
structure All (data : Bytes) (n : Nat) : Prop where
  decode : KeepsMark (decode data n)
  list : KeepsMark (decodeList data n)
  items : ∀ acc, KeepsMark (decodeItems data n acc)
  dict : KeepsMark (decodeDict data n)
  entries : ∀ acc, KeepsMark (decodeEntries data n acc)

theorem all (data : Bytes) (n : Nat) : All data n := by
  induction n with
  | zero => exact ⟨fun _ h => h, fun _ h => h, fun _ _ h => h, fun _ h => h, fun _ _ h => h⟩
  | succ n ih =>
    refine ⟨?_, ?_, ?_, ?_, ?_⟩
    · have hbody : KeepsMark (do
          let char ← Bencode.peek data
          if char = 0x69 then
            return PyObj.int (← Bencode.decodeInteger data)
          else if char = 0x6C then
            return PyObj.list (← decodeList data n)
          else if char = 0x64 then
            return PyObj.dict (← decodeDict data n)
          else if isdigit char then
            return PyObj.bytes (← Bencode.decodeString data)
          else
            Bencode.raise (.bencode
              ("Invalid bencode character: " ++ String.singleton (Char.ofNat char.toNat)))) :=
        (peek data).bind fun _ =>
          ite ((decodeInteger data).bind fun _ => pure _) <|
          ite (ih.list.bind fun _ => pure _) <|
          ite (ih.dict.bind fun _ => pure _) <|
          ite ((decodeString data).bind fun _ => pure _) (raise _)
      exact tracked (getPos.bind fun _ => ite ((raise _).bind fun _ => hbody) hbody)
    · exact tracked ((advance 1).bind fun _ => (ih.items []).bind fun _ =>
        (closeWith data _).bind fun _ => pure _)
    · intro acc
      exact (moreItems data).bind fun _ => ite (ih.decode.bind fun _ => ih.items _) (pure _)
    · exact tracked ((advance 1).bind fun _ => (ih.entries []).bind fun _ =>
        (closeWith data _).bind fun _ => pure _)
    · intro acc
      exact (moreItems data).bind fun _ =>
        ite ((decodeString data).bind fun _ => ih.decode.bind fun _ => ih.entries _) (pure _)

end KeepsMark

-- The relation

def Follows {α : Type} (data : Bytes) (m : Bool) (o : Outcome α) (r : Except Stop α × Cursor) :
    Prop :=
  match o with
  | .done a rest => ∃ pre : Bytes, data = pre ++ rest ∧ r = (.ok a, ⟨pre.length, m⟩)
  | .raised e => r.1 = .error (.raised e) ∧ r.2.movedBack = m
  | .pointsBack => r.2.movedBack = true
  | .outOfFuel => r.1 = .error .outOfFuel ∧ r.2.movedBack = m

namespace Follows

variable {α β : Type} {data : Bytes} {m : Bool}

theorem bind {o : Outcome α} {f : α → Bytes → Outcome β} {x : DecodeM α} {g : α → DecodeM β}
    {c : Cursor} (hx : Follows data m o (x c)) (hg : ∀ a, KeepsMark (g a))
    (hf : ∀ a (pre rest : Bytes), o = .done a rest → data = pre ++ rest →
      Follows data m (f a rest) (g a ⟨pre.length, m⟩)) :
    Follows data m (o.andThen f) ((x >>= g) c) := by
  rw [bind_apply, DecodeM.bind]
  cases o with
  | done a rest =>
    obtain ⟨pre, hpre, hr⟩ := hx
    rw [hr]
    exact hf a pre rest rfl hpre
  | raised e =>
    obtain ⟨h₁, h₂⟩ := hx
    revert h₁ h₂
    rcases x c with ⟨y | a, c'⟩
    · rintro h₁ h₂
      cases h₁
      exact ⟨rfl, h₂⟩
    · intro h₁
      cases h₁
  | pointsBack =>
    have hb : (x c).2.movedBack = true := hx
    revert hb
    rcases x c with ⟨y | a, c'⟩
    · exact id
    · exact hg a c'
  | outOfFuel =>
    obtain ⟨h₁, h₂⟩ := hx
    revert h₁ h₂
    rcases x c with ⟨y | a, c'⟩
    · rintro h₁ h₂
      cases h₁
      exact ⟨rfl, h₂⟩
    · intro h₁
      cases h₁

theorem map {o : Outcome α} {f : α → β} {x : DecodeM α} {c : Cursor}
    (hx : Follows data m o (x c)) :
    Follows data m (o.map f) ((x >>= fun a => (Pure.pure (f a) : DecodeM β)) c) :=
  hx.bind (fun a => KeepsMark.pure (f a)) (fun _ pre _ _ hpre => ⟨pre, hpre, rfl⟩)

/-- A call that consumes something is not marked for returning too early. -/
theorem tracked {o : Outcome α} {x : DecodeM α} {pre s : Bytes} (hdata : data = pre ++ s)
    (ho : ∀ a rest, o = .done a rest → Consumes s rest)
    (hx : Follows data m o (x ⟨pre.length, m⟩)) :
    Follows data m o (tracked x ⟨pre.length, m⟩) := by
  unfold Bencode.tracked
  cases o with
  | done a rest =>
    obtain ⟨pre', hpre', hr⟩ := hx
    have hlt := (ho a rest rfl).length_lt
    have hlen := congrArg List.length (hdata.symm.trans hpre')
    simp only [List.length_append] at hlen
    have hpos : ¬((pre'.length : Int) ≤ pre.length) := by omega
    rw [hr]
    simp only [hpos, decide_false, Bool.or_false]
    exact ⟨pre', hpre', rfl⟩
  | raised e =>
    revert hx
    rcases x ⟨pre.length, m⟩ with ⟨y | a, c'⟩
    · exact id
    · rintro ⟨h, -⟩
      cases h
  | pointsBack =>
    revert hx
    rcases x ⟨pre.length, m⟩ with ⟨y | a, c'⟩
    · exact id
    · intro h
      exact Bool.or_eq_true_iff.mpr (Or.inl h)
  | outOfFuel =>
    revert hx
    rcases x ⟨pre.length, m⟩ with ⟨y | a, c'⟩
    · exact id
    · rintro ⟨h, -⟩
      cases h

end Follows

-- Integers and strings

private theorem length_append_cons_not_le {pre rest : Bytes} {c : UInt8} :
    ¬((pre.length : Int) ≥ (pre ++ c :: rest).length) := by
  simp only [List.length_append, List.length_cons]
  omega

private theorem skipToAux_run {c : UInt8} {mid : Bytes} (pre rest : Bytes) (m : Bool)
    (hmid : c ∉ mid) (hrest : rest = [] ∨ ∃ t, rest = c :: t) (n : Nat) :
    skipToAux (pre ++ (mid ++ rest)) c (mid.length + n) ⟨pre.length, m⟩ =
      (.ok (), ⟨(pre ++ mid).length, m⟩) := by
  induction mid generalizing pre with
  | nil =>
    cases n with
    | zero => simp [skipToAux, Pure.pure, DecodeM.pure]
    | succ n =>
      rw [List.nil_append, List.length_nil, Nat.zero_add, skipToAux, getPos_bind]
      rcases hrest with rfl | ⟨t, rfl⟩
      · simp [Pure.pure, DecodeM.pure]
      · have hlt : (pre.length : Int) < (pre ++ c :: t).length := by
          simp only [List.length_append, List.length_cons]
          omega
        rw [if_pos hlt, bind_ok peek_append]
        simp [Pure.pure, DecodeM.pure]
  | cons b mid ih =>
    simp only [List.mem_cons, not_or] at hmid
    have hlt : (pre.length : Int) < (pre ++ (b :: mid ++ rest)).length := by
      simp only [List.length_append, List.length_cons]
      omega
    have hnext := ih (pre ++ [b]) hmid.2
    simp only [List.append_assoc, List.singleton_append] at hnext
    rw [show (b :: mid).length + n = mid.length + n + 1 by simp only [List.length_cons]; omega,
      skipToAux, getPos_bind, if_pos hlt, List.cons_append, bind_ok peek_append,
      if_pos (Ne.symm hmid.1), advance_bind]
    rw [show ((pre.length : Int) + 1) = ((pre ++ [b]).length : Nat) by simp, hnext]

theorem skipTo_run {c : UInt8} {mid : Bytes} (pre rest : Bytes) (m : Bool) (hmid : c ∉ mid)
    (hrest : rest = [] ∨ ∃ t, rest = c :: t) :
    skipTo (pre ++ (mid ++ rest)) c ⟨pre.length, m⟩ = (.ok (), ⟨(pre ++ mid).length, m⟩) := by
  have hsteps : (((pre ++ (mid ++ rest)).length : Int) - pre.length).toNat =
      mid.length + rest.length := by
    simp only [List.length_append]
    omega
  rw [skipTo, getPos_bind, hsteps]
  exact skipToAux_run pre rest m hmid hrest rest.length

theorem notMem_of_splitAt_eq_none {c : UInt8} {s : Bytes} (h : splitAt c s = none) : c ∉ s := by
  induction s with
  | nil => exact List.not_mem_nil
  | cons b s ih =>
    rw [splitAt] at h
    split at h
    · cases h
    · next hb =>
      simp only [List.mem_cons, not_or]
      exact ⟨fun he => hb he.symm, ih (Option.map_eq_none_iff.mp h)⟩

private theorem slice_middle (pre mid rest : Bytes) :
    slice (pre ++ (mid ++ rest)) pre.length ((pre ++ mid).length : Nat) = mid := by
  have h := slice_append pre mid rest
  rwa [List.append_assoc, ← List.length_append] at h

theorem textUntil_follows {data pre s : Bytes} (hdata : data = pre ++ s) (c : UInt8)
    (missing : String) (m : Bool) :
    Follows data m (readText c missing s) (textUntil data c missing ⟨pre.length, m⟩) := by
  rw [textUntil, getPos_bind]
  unfold readText
  cases hs : splitAt c s with
  | none =>
    have hrun := skipTo_run pre [] m (notMem_of_splitAt_eq_none hs)
      (Or.inl rfl)
    rw [List.append_nil, ← hdata] at hrun
    rw [bind_ok hrun, getPos_bind, if_pos (le_refl _)]
    exact ⟨rfl, rfl⟩
  | some p =>
    obtain ⟨text, rest⟩ := p
    obtain ⟨rfl, htext⟩ := splitAt_eq_some hs
    have hrun := skipTo_run pre (c :: rest) m htext (Or.inr ⟨rest, rfl⟩)
    have hpos : ¬(((pre ++ text).length : Int) ≥ data.length) := by
      rw [hdata, ← List.append_assoc]
      exact length_append_cons_not_le
    have hslice : slice data pre.length ((pre ++ text).length : Nat) = text := by
      rw [hdata, slice_middle]
    rw [← hdata] at hrun
    rw [bind_ok hrun, getPos_bind, if_neg hpos, hslice]
    show Follows data m (.ofExcept (decodeText text) (c :: rest))
      (liftExcept (decodeText text) ⟨(pre ++ text).length, m⟩)
    cases decodeText text with
    | error e => exact ⟨rfl, rfl⟩
    | ok t => exact ⟨pre ++ text, by rw [hdata, List.append_assoc], rfl⟩

theorem liftExcept_follows {α : Type} {data pre rest : Bytes} (hdata : data = pre ++ rest)
    (x : Except DecodeError α) (m : Bool) :
    Follows data m (.ofExcept x rest) (liftExcept x ⟨pre.length, m⟩) := by
  cases x with
  | error e => exact ⟨rfl, rfl⟩
  | ok a => exact ⟨pre, hdata, rfl⟩

private theorem length_add_one (pre : Bytes) (c : UInt8) :
    ((pre.length : Int) + 1) = ((pre ++ [c]).length : Nat) := by
  simp

theorem decodeInteger_follows {data pre s : Bytes} {c : UInt8} (hdata : data = pre ++ c :: s)
    (m : Bool) : Follows data m (readInteger s) (decodeInteger data ⟨pre.length, m⟩) := by
  rw [decodeInteger, advance_bind, length_add_one pre c]
  refine (textUntil_follows (by simp [hdata]) _ _ m).bind
    (fun _ => (KeepsMark.advance 1).bind fun _ => KeepsMark.liftExcept _) ?_
  intro t pre' rest ht hrest
  obtain ⟨text, rest', -, -, rfl, -⟩ := readText_eq_done ht
  rw [advance_bind, length_add_one pre' 0x65]
  exact liftExcept_follows (by simp [hrest]) _ m

/-- Cutting out a string whose length begins between `pre` and `digits`. -/
theorem cutString_run {data pre digits rest : Bytes}
    (hdata : data = pre ++ (digits ++ 0x3A :: rest)) (length : Int) (m : Bool) :
    cutString data length ⟨(pre ++ digits).length, m⟩ =
      if length > rest.length then
        (.error (.raised (.bencode "String length exceeds available data")),
          ⟨(pre ++ digits).length + 1, m⟩)
      else
        (.ok (slice data ((pre ++ digits).length + 1) ((pre ++ digits).length + 1 + length)),
          ⟨(pre ++ digits).length + 1 + length, m⟩) := by
  have hlen : (data.length : Int) = (pre ++ digits).length + 1 + rest.length := by
    rw [hdata]
    simp only [List.length_append, List.length_cons]
    omega
  rw [cutString, advance_bind, getPos_bind]
  by_cases hlong : length > rest.length
  · rw [if_pos hlong, if_pos (by simp only; omega)]
    rfl
  · rw [if_neg hlong, if_neg (by simp only; omega)]
    rfl

/-- What is cut out does not wrap around when the cursor moves forward. -/
private theorem slice_string {data pre digits rest : Bytes}
    (hdata : data = pre ++ (digits ++ 0x3A :: rest)) {length : Int} (hlong : length ≤ rest.length)
    (hforward : 0 < digits.length + 1 + length) :
    slice data ((pre ++ digits).length + 1) ((pre ++ digits).length + 1 + length) =
      rest.take length.toNat := by
  by_cases hneg : length ≤ 0
  · rw [Int.toNat_of_nonpos hneg, List.take_zero]
    apply slice_empty
    · simp only [List.length_append]
      push_cast
      omega
    · omega
  · obtain ⟨k, rfl⟩ : ∃ k : Nat, length = k := ⟨length.toNat, by omega⟩
    have hk : k ≤ rest.length := by omega
    have hsplit : data = (pre ++ digits ++ [0x3A]) ++ (rest.take k ++ rest.drop k) := by
      rw [hdata, List.take_append_drop]
      simp
    have hmid := slice_middle (pre ++ digits ++ [0x3A]) (rest.take k) (rest.drop k)
    rw [← hsplit] at hmid
    simp only [List.length_append, List.length_take, List.length_singleton, Nat.min_eq_left hk,
      Nat.cast_add, Nat.cast_one] at hmid
    simpa using hmid

theorem decodeString_follows {data pre s : Bytes} (hdata : data = pre ++ s) (m : Bool) :
    Follows data m (readString s) (decodeString data ⟨pre.length, m⟩) := by
  have htext := textUntil_follows hdata 0x3A "Missing colon in string" m
  unfold decodeString readString
  cases ht : readText 0x3A "Missing colon in string" s with
  | raised e =>
    rw [ht] at htext
    refine Follows.tracked hdata (by rintro a rest ⟨⟩) ?_
    exact htext.bind (fun _ => (KeepsMark.liftExcept _).bind fun _ => KeepsMark.cutString _ _)
      (by rintro a pre rest ⟨⟩)
  | pointsBack =>
    rw [ht] at htext
    refine Follows.tracked hdata (by rintro a rest ⟨⟩) ?_
    exact htext.bind (fun _ => (KeepsMark.liftExcept _).bind fun _ => KeepsMark.cutString _ _)
      (by rintro a pre rest ⟨⟩)
  | outOfFuel => exact absurd ht (readText_ne_outOfFuel _ _ _)
  | done t mid =>
    rw [ht] at htext
    obtain ⟨digits, rest, rfl, -, rfl, -⟩ := readText_eq_done ht
    obtain ⟨pre', hpre', hrun⟩ := htext
    have hpre : pre' = pre ++ digits := by
      have h := hdata.symm.trans hpre'
      rw [← List.append_assoc] at h
      exact (List.append_cancel_right h).symm
    subst hpre
    rw [andThen_done]
    cases hl : parseLength t with
    | error e =>
      refine Follows.tracked hdata (by rintro a rest ⟨⟩) ?_
      rw [bind_ok hrun]
      exact ⟨by rw [hl]; rfl, by rw [hl]; rfl⟩
    | ok length =>
      rw [Outcome.ofExcept, andThen_done, readCut_colon]
      have hcut : (textUntil data 0x3A "Missing colon in string" >>= fun lengthStr =>
          liftExcept (parseLength lengthStr) >>= fun length => cutString data length)
            ⟨pre.length, m⟩ = cutString data length ⟨(pre ++ digits).length, m⟩ := by
        rw [bind_ok hrun, hl]
        rfl
      rw [cutString_run hdata] at hcut
      by_cases hlong : length > rest.length
      · rw [if_pos hlong]
        rw [if_pos hlong] at hcut
        unfold tracked
        rw [hcut]
        exact ⟨rfl, rfl⟩
      · rw [if_neg hlong]
        rw [if_neg hlong] at hcut
        have hlen : ((pre ++ digits).length : Int) = pre.length + digits.length := by
          simp only [List.length_append]
          omega
        unfold tracked
        rw [hcut]
        by_cases hback : (digits.length : Int) + 1 + length ≤ 0
        · rw [if_pos hback]
          refine Bool.or_eq_true_iff.mpr (Or.inr (decide_eq_true ?_))
          simp only
          omega
        · rw [if_neg hback]
          have hpos : ¬((pre ++ digits).length + 1 + length ≤ (pre.length : Int)) := by omega
          simp only [hpos, decide_false, Bool.or_false]
          have htake := List.take_append_drop (digits.length + 1 + length).toNat
            (digits ++ 0x3A :: rest)
          refine ⟨pre ++ (digits ++ 0x3A :: rest).take (digits.length + 1 + length).toNat, ?_, ?_⟩
          · rw [List.append_assoc, htake, hdata]
          · rw [slice_string hdata (by omega) (by omega)]
            simp only [List.length_append, List.length_take, List.length_cons, Prod.mk.injEq,
              Cursor.mk.injEq, and_true, true_and]
            push_cast
            omega

-- Items, lists and dictionaries

theorem moreItems_run {data pre s : Bytes} (hdata : data = pre ++ s) (m : Bool) :
    moreItems data ⟨pre.length, m⟩ =
      (.ok (s.head?.any (fun c => decide (c ≠ 0x65))), ⟨pre.length, m⟩) := by
  rw [moreItems, getPos_bind]
  cases s with
  | nil =>
    rw [if_neg (by simp [hdata])]
    simp [Pure.pure, DecodeM.pure]
  | cons c t =>
    rw [if_pos (by rw [hdata]; simp only [List.length_append, List.length_cons]; omega), hdata,
      bind_ok peek_append]
    simp [Pure.pure, DecodeM.pure]

theorem closeWith_follows {α : Type} {data pre s : Bytes} (hdata : data = pre ++ s)
    (message : String) (a : α) (m : Bool) :
    Follows data m (readEnd message a s)
      ((closeWith data message >>= fun _ => (Pure.pure a : DecodeM α)) ⟨pre.length, m⟩) := by
  cases s with
  | nil =>
    have hend : closeWith data message ⟨pre.length, m⟩ =
        (.error (.raised (.bencode message)), ⟨pre.length, m⟩) := by
      rw [closeWith, getPos_bind, if_pos (by simp [hdata])]
      rfl
    rw [bind_error hend]
    exact ⟨rfl, rfl⟩
  | cons c t =>
    have hend : closeWith data message ⟨pre.length, m⟩ = (.ok (), ⟨pre.length + 1, m⟩) := by
      rw [closeWith, getPos_bind, if_neg (by rw [hdata]; exact length_append_cons_not_le)]
      rfl
    rw [bind_ok hend]
    exact ⟨pre ++ [c], by simp [hdata], by rw [length_add_one pre c]; rfl⟩

/-- The calls of fuel `n` follow the readers of fuel `n`. -/
structure FollowsAt (data : Bytes) (n : Nat) : Prop where
  item : ∀ {pre s} (m : Bool), data = pre ++ s →
    Follows data m (readItem n s) (decode data n ⟨pre.length, m⟩)
  list : ∀ {pre s c} (m : Bool), data = pre ++ c :: s →
    Follows data m (readList n s) (decodeList data n ⟨pre.length, m⟩)
  items : ∀ {pre s} (m : Bool) (acc : List PyObj), data = pre ++ s →
    Follows data m ((readItems n s).map (acc ++ ·)) (decodeItems data n acc ⟨pre.length, m⟩)
  dict : ∀ {pre s c} (m : Bool), data = pre ++ c :: s →
    Follows data m ((readDict n s).map (storeEntries · [])) (decodeDict data n ⟨pre.length, m⟩)
  entries : ∀ {pre s} (m : Bool) (acc : List (Key × PyObj)), data = pre ++ s →
    Follows data m ((readEntries n s).map (storeEntries · acc))
      (decodeEntries data n acc ⟨pre.length, m⟩)

theorem decode_step {data : Bytes} {n : Nat} (ih : FollowsAt data n) {pre s : Bytes} (m : Bool)
    (hdata : data = pre ++ s) :
    Follows data m (readItem (n + 1) s) (decode data (n + 1) ⟨pre.length, m⟩) := by
  rw [decode]
  refine Follows.tracked hdata (fun _ _ h => (progress (n + 1)).item h) ?_
  cases s with
  | nil =>
    rw [getPos_bind, if_pos (by simp [hdata])]
    exact ⟨rfl, rfl⟩
  | cons c t =>
    have hpeek : peek data ⟨pre.length, m⟩ = (.ok c, ⟨pre.length, m⟩) := by
      rw [hdata]
      exact peek_append
    rw [getPos_bind, if_neg (by rw [hdata]; exact length_append_cons_not_le)]
    beta_reduce
    rw [bind_ok hpeek, readItem]
    by_cases hi : c = 0x69
    · rw [if_pos hi, if_pos hi]
      exact (decodeInteger_follows hdata m).map
    · rw [if_neg hi, if_neg hi]
      by_cases hl : c = 0x6C
      · rw [if_pos hl, if_pos hl]
        exact (ih.list m hdata).map
      · rw [if_neg hl, if_neg hl]
        by_cases hd : c = 0x64
        · rw [if_pos hd, if_pos hd, ← map_map (f := (storeEntries · []))]
          exact (ih.dict m hdata).map
        · rw [if_neg hd, if_neg hd]
          by_cases hs : isdigit c = true
          · rw [if_pos hs, if_pos hs]
            exact (decodeString_follows hdata m).map
          · rw [if_neg hs, if_neg hs]
            exact ⟨rfl, rfl⟩

theorem decodeItems_step {data : Bytes} {n : Nat} (ih : FollowsAt data n) {pre s : Bytes} (m : Bool)
    (acc : List PyObj) (hdata : data = pre ++ s) :
    Follows data m ((readItems (n + 1) s).map (acc ++ ·))
      (decodeItems data (n + 1) acc ⟨pre.length, m⟩) := by
  rw [decodeItems, bind_ok (moreItems_run hdata m)]
  cases s with
  | nil => exact ⟨pre, hdata, by simp [Pure.pure, DecodeM.pure]⟩
  | cons c t =>
    rw [readItems]
    by_cases he : c = 0x65
    · rw [if_pos he]
      exact ⟨pre, hdata, by simp [he, Pure.pure, DecodeM.pure]⟩
    · rw [if_neg he, if_pos (by simpa using he), map_andThen]
      refine (ih.item m hdata).bind (fun _ => (KeepsMark.all data n).items _) ?_
      intro x pre' rest hx hrest
      have hcongr : (fun xs => acc ++ x :: xs) = ((acc ++ [x]) ++ ·) := by
        funext xs
        simp
      rw [map_map, hcongr]
      exact ih.items m (acc ++ [x]) hrest

theorem decodeEntries_step {data : Bytes} {n : Nat} (ih : FollowsAt data n) {pre s : Bytes}
    (m : Bool) (acc : List (Key × PyObj)) (hdata : data = pre ++ s) :
    Follows data m ((readEntries (n + 1) s).map (storeEntries · acc))
      (decodeEntries data (n + 1) acc ⟨pre.length, m⟩) := by
  rw [decodeEntries, bind_ok (moreItems_run hdata m)]
  cases s with
  | nil => exact ⟨pre, hdata, by simp [Pure.pure, DecodeM.pure, storeEntries]⟩
  | cons c t =>
    rw [readEntries]
    by_cases he : c = 0x65
    · rw [if_pos he]
      exact ⟨pre, hdata, by simp [he, Pure.pure, DecodeM.pure, storeEntries]⟩
    · rw [if_neg he, if_pos (by simpa using he), map_andThen]
      refine (decodeString_follows hdata m).bind
        (fun _ => (KeepsMark.all data n).decode.bind fun _ => (KeepsMark.all data n).entries _) ?_
      intro key pre' text hkey htext
      rw [map_andThen]
      refine (ih.item m htext).bind (fun _ => (KeepsMark.all data n).entries _) ?_
      intro value pre'' rest hvalue hrest
      rw [map_map]
      exact ih.entries m (setEntry (.bytes key) value acc) hrest

theorem followsAt (data : Bytes) (n : Nat) : FollowsAt data n := by
  induction n with
  | zero => exact ⟨fun _ _ => ⟨rfl, rfl⟩, fun _ _ => ⟨rfl, rfl⟩, fun _ _ _ => ⟨rfl, rfl⟩,
      fun _ _ => ⟨rfl, rfl⟩, fun _ _ _ => ⟨rfl, rfl⟩⟩
  | succ n ih =>
    refine ⟨decode_step ih, ?_, decodeItems_step ih, ?_, decodeEntries_step ih⟩
    · intro pre s c m hdata
      have hdata' : data = (pre ++ [c]) ++ s := by simp [hdata]
      rw [decodeList]
      refine Follows.tracked hdata
        (fun _ _ h => .cons c ((progress (n + 1)).list h).suffix) ?_
      rw [advance_bind, length_add_one pre c, readList]
      have hitems := ih.items m [] hdata'
      have hid : ((readItems n s).map ([] ++ ·)) = readItems n s := by
        cases readItems n s <;> rfl
      rw [hid] at hitems
      refine hitems.bind (fun _ => (KeepsMark.closeWith data _).bind fun _ => KeepsMark.pure _) ?_
      intro xs pre' rest _ hrest
      exact closeWith_follows hrest _ xs m
    · intro pre s c m hdata
      have hdata' : data = (pre ++ [c]) ++ s := by simp [hdata]
      have hend : (readDict (n + 1) s).map (storeEntries · []) =
          ((readEntries n s).map (storeEntries · [])).andThen
            (readEnd "Missing 'e' terminator for dictionary") := by
        rw [readDict, map_andThen, andThen_map]
        congr 1
        funext es rest
        cases rest <;> rfl
      rw [decodeDict]
      refine Follows.tracked hdata (fun _ _ h => ?_) ?_
      · obtain ⟨es, hes, -⟩ := map_eq_done h
        exact .cons c ((progress (n + 1)).dict hes).suffix
      · rw [advance_bind, length_add_one pre c, hend]
        refine (ih.entries m [] hdata').bind
          (fun _ => (KeepsMark.closeWith data _).bind fun _ => KeepsMark.pure _) ?_
        intro es pre' rest _ hrest
        exact closeWith_follows hrest _ es m

/-- `decode` follows `readItem`. -/
theorem decode_follows {data pre s : Bytes} (hdata : data = pre ++ s) (n : Nat) (m : Bool) :
    Follows data m (readItem n s) (decode data n ⟨pre.length, m⟩) :=
  (followsAt data n).item m hdata

end Bencode

end Ccbt

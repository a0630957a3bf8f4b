import Ccbt.Core.Bencode.RoundTrip

/-!
# Canonical bencoding

Of all the texts that read as one value, the encoder writes one: numbers without
leading zeros, signs or other decoration, and the keys of a dictionary in
ascending order without repetition. `Canonical` says so of a text alone, and a
text survives decoding and encoding exactly if it is canonical.
-/

namespace Ccbt

open Python

namespace Bencode

/-- A text in the shortest form of the bencoding grammar. -/
inductive Canonical : Bytes → Prop
  | string (b : Bytes) : Canonical (encodeString b)
  | integer (n : Int) : Canonical (encodeInteger n)
  | list (items : List Bytes) (h : ∀ x ∈ items, Canonical x) :
      Canonical (ascii "l" ++ items.flatten ++ ascii "e")
  | dict (entries : List (Bytes × Bytes))
      (ascending : entries.Pairwise (fun a b => a.1 < b.1))
      (h : ∀ e ∈ entries, Canonical e.2) :
      Canonical (ascii "d" ++ entries.flatMap (fun e => encodeString e.1 ++ e.2) ++ ascii "e")

theorem bencodableEntries_iff {es : List (Key × PyObj)} :
    BencodableEntries es ↔ ∀ e ∈ es, Bencodable e.2 := by
  induction es with
  | nil => simp [BencodableEntries]
  | cons e es ih =>
    rw [BencodableEntries, ih, List.forall_mem_cons]

theorem bencodableItems_iff {xs : List PyObj} : BencodableItems xs ↔ ∀ x ∈ xs, Bencodable x := by
  induction xs with
  | nil => simp [BencodableItems]
  | cons x xs ih => rw [BencodableItems, ih, List.forall_mem_cons]

-- What the reader builds is bencodable

structure Stored (d : List (Key × PyObj)) : Prop where
  octets : ∀ e ∈ d, ∃ b, e.1 = .bytes b
  nodup : (d.map Prod.fst).Nodup
  values : ∀ e ∈ d, Bencodable e.2

theorem Stored.bencodable {d : List (Key × PyObj)} (h : Stored d) : Bencodable (.dict d) := by
  have hkeys : d.map Prod.fst = (d.map (fun e => e.1.sortKey)).map Key.bytes := by
    rw [List.map_map]
    apply List.map_congr_left
    intro e he
    obtain ⟨b, hb⟩ := h.octets e he
    rw [Function.comp, hb]
    rfl
  rw [Bencodable]
  refine ⟨?_, ?_, bencodableEntries_iff.mpr h.values⟩
  · intro e he
    obtain ⟨b, hb⟩ := h.octets e he
    rw [hb]
    rfl
  · have hnodup := h.nodup
    rw [hkeys] at hnodup
    exact hnodup.of_map Key.bytes

theorem Stored.setEntry {d : List (Key × PyObj)} (h : Stored d) (key : Bytes) {v : PyObj}
    (hv : Bencodable v) : Stored (setEntry (.bytes key) v d) := by
  refine ⟨?_, nodup_keys_setEntry h.nodup, ?_⟩
  · intro e he
    rcases mem_setEntry he with rfl | he
    · exact ⟨key, rfl⟩
    · exact h.octets e he
  · intro e he
    rcases mem_setEntry he with rfl | he
    · exact hv
    · exact h.values e he

theorem stored_nil : Stored [] := ⟨nofun, List.nodup_nil, nofun⟩

/-- Whatever the computation returns has the property. -/
def Returns {α : Type} (m : DecodeM α) (P : α → Prop) : Prop :=
  ∀ c a c', m c = (.ok a, c') → P a

namespace Returns

variable {α β : Type} {P : α → Prop} {Q : β → Prop}

theorem trivial (m : DecodeM α) : Returns m (fun _ => True) := fun _ _ _ _ => True.intro

theorem pure {a : α} (h : P a) : Returns (pure a : DecodeM α) P := by
  rintro c _ _ ⟨⟩
  exact h

theorem raise (e : DecodeError) : Returns (raise e : DecodeM α) P := by
  rintro c _ _ ⟨⟩

theorem bind {m : DecodeM α} {f : α → DecodeM β} (hm : Returns m P)
    (hf : ∀ a, P a → Returns (f a) Q) : Returns (m >>= f) Q := by
  intro c b c' h
  rw [bind_apply, DecodeM.bind] at h
  revert h
  cases hrun : m c with
  | mk x c₁ =>
    cases x with
    | error e =>
      intro h
      cases h
    | ok a => exact hf a (hm c a c₁ hrun) c₁ b c'

theorem ite {p : Prop} [Decidable p] {m m' : DecodeM α} (hm : Returns m P) (hm' : Returns m' P) :
    Returns (if p then m else m') P := by
  split
  · exact hm
  · exact hm'

theorem tracked {m : DecodeM α} (hm : Returns m P) : Returns (tracked m) P := by
  intro c a c' h
  unfold Bencode.tracked at h
  revert h
  cases hrun : m c with
  | mk x c₁ =>
    cases x with
    | error e =>
      intro h
      cases h
    | ok b =>
      intro h
      cases h
      exact hm c a c₁ hrun

end Returns

/-- The values that the calls of fuel `n` return are bencodable. -/
structure Builds (data : Bytes) (n : Nat) : Prop where
  item : Returns (decode data n) Bencodable
  list : Returns (decodeList data n) (fun xs => ∀ x ∈ xs, Bencodable x)
  items : ∀ acc, (∀ x ∈ acc, Bencodable x) →
    Returns (decodeItems data n acc) (fun xs => ∀ x ∈ xs, Bencodable x)
  dict : Returns (decodeDict data n) Stored
  entries : ∀ acc, Stored acc → Returns (decodeEntries data n acc) Stored

theorem builds (data : Bytes) (n : Nat) : Builds data n := by
  induction n with
  | zero =>
    refine ⟨?_, ?_, ?_, ?_, ?_⟩
    · rintro c _ _ ⟨⟩
    · rintro c _ _ ⟨⟩
    · rintro acc - c _ _ ⟨⟩
    · rintro c _ _ ⟨⟩
    · rintro acc - c _ _ ⟨⟩
  | succ n ih =>
    refine ⟨?_, ?_, ?_, ?_, ?_⟩
    · have hchar : ∀ char : UInt8, Returns (do
          if char = 0x69 then
            return PyObj.int (← decodeInteger data)
          else if char = 0x6C then
            return PyObj.list (← decodeList data n)
          else if char = 0x64 then
            return PyObj.dict (← decodeDict data n)
          else if isdigit char then
            return PyObj.bytes (← decodeString data)
          else
            Bencode.raise (.bencode ("Invalid bencode character: " ++
              String.singleton (Char.ofNat char.toNat)))) Bencodable := by
        intro char
        refine .ite ((Returns.trivial _).bind fun k _ => .pure True.intro) <|
          .ite (ih.list.bind fun xs hxs => .pure ?_) <|
          .ite (ih.dict.bind fun d hd => .pure hd.bencodable) <|
          .ite ((Returns.trivial _).bind fun b _ => .pure True.intro) (.raise _)
        rw [Bencodable]
        exact bencodableItems_iff.mpr hxs
      exact .tracked <| (Returns.trivial _).bind fun _ _ =>
        .ite ((Returns.trivial _).bind fun _ _ => (Returns.trivial _).bind fun c _ => hchar c)
          ((Returns.trivial _).bind fun c _ => hchar c)
    · exact .tracked <| (Returns.trivial _).bind fun _ _ => (ih.items [] nofun).bind fun xs hxs =>
        (Returns.trivial _).bind fun _ _ => .pure hxs
    · intro acc hacc
      refine (Returns.trivial _).bind fun _ _ => .ite (ih.item.bind fun x hx => ?_) (.pure hacc)
      exact ih.items _ (List.forall_mem_append.mpr ⟨hacc, List.forall_mem_singleton.mpr hx⟩)
    · exact .tracked <| (Returns.trivial _).bind fun _ _ =>
        (ih.entries [] stored_nil).bind fun d hd => (Returns.trivial _).bind fun _ _ => .pure hd
    · intro acc hacc
      exact (Returns.trivial _).bind fun _ _ =>
        .ite ((Returns.trivial _).bind fun key _ => ih.item.bind fun v hv =>
          ih.entries _ (hacc.setEntry key hv)) (.pure hacc)

-- The encoder writes canonical texts

theorem bind_eq_ok {α β : Type} {x : Except EncodeError α} {f : α → Except EncodeError β} {b : β}
    (h : (x >>= f) = .ok b) : ∃ a, x = .ok a ∧ f a = .ok b := by
  cases x with
  | error e => cases h
  | ok a => exact ⟨a, rfl, h⟩

/-- The body of a dictionary whose values have canonical encodings. -/
theorem joinEntries_canonical {es : List (Key × Except EncodeError Bytes)} {body : Bytes}
    (h : joinEntries es = .ok body) (hvalues : ∀ e ∈ es, ∀ b, e.2 = .ok b → Canonical b) :
    ∃ entries : List (Bytes × Bytes), entries.map Prod.fst = es.map (fun e => e.1.sortKey) ∧
      (∀ e ∈ entries, Canonical e.2) ∧
      body = entries.flatMap (fun e => encodeString e.1 ++ e.2) := by
  induction es generalizing body with
  | nil =>
    cases h
    exact ⟨[], rfl, nofun, rfl⟩
  | cons e es ih =>
    obtain ⟨key, value⟩ := e
    obtain ⟨b, hb, h⟩ := bind_eq_ok h
    obtain ⟨rest, hrest, h⟩ := bind_eq_ok h
    cases h
    obtain ⟨entries, hkeys, hcanon, rfl⟩ :=
      ih hrest (fun e he => hvalues e (List.mem_cons_of_mem _ he))
    refine ⟨(key.sortKey, b) :: entries, ?_, ?_, ?_⟩
    · rw [List.map_cons, List.map_cons, hkeys]
    · exact List.forall_mem_cons.mpr ⟨hvalues _ List.mem_cons_self b hb, hcanon⟩
    · rw [List.flatMap_cons]

mutual

theorem canonical_of_encode : ∀ {v : PyObj} {b : Bytes}, Bencodable v → encode v = .ok b →
    Canonical b
  | .bytes s, b, _, h => by
    cases h
    exact .string s
  | .str s, b, _, h => by
    cases h
    exact .string (utf8Encode s)
  | .int n, b, _, h => by
    cases h
    exact .integer n
  | .list items, b, hv, h => by
    rw [Bencodable] at hv
    obtain ⟨body, hbody, h⟩ := bind_eq_ok h
    cases h
    obtain ⟨parts, hcanon, rfl⟩ := canonical_of_encodeItems hv hbody
    exact .list parts hcanon
  | .dict entries, b, hv, h => by
    rw [Bencodable] at hv
    obtain ⟨htext, hdistinct, hvalues⟩ := hv
    have hall : (encodeEntries entries).all (fun e => e.1.isText) = true := by
      rw [encodeEntries_eq_map, List.all_map, List.all_eq_true]
      exact htext
    rw [encode, encodeDict, if_pos hall] at h
    obtain ⟨body, hbody, h⟩ := bind_eq_ok h
    cases h
    have hkeys : ((encodeEntries entries).map (fun e => e.1.sortKey)).Nodup := by
      rw [encodeEntries_eq_map, List.map_map]
      exact hdistinct
    obtain ⟨parts, hparts, hcanon, rfl⟩ := joinEntries_canonical hbody (by
      intro e he c hc
      have hmem := (sortOn_perm _ _).mem_iff.mp he
      exact canonical_of_encodeEntries hvalues e hmem c hc)
    have hascending := List.pairwise_map.mpr
      (sortOn_pairwise_lt (fun e : Key × Except EncodeError Bytes => e.1.sortKey) hkeys)
    rw [← hparts] at hascending
    exact .dict parts (List.pairwise_map.mp hascending) hcanon

theorem canonical_of_encodeItems : ∀ {xs : List PyObj} {body : Bytes}, BencodableItems xs →
    encodeItems xs = .ok body →
    ∃ parts : List Bytes, (∀ x ∈ parts, Canonical x) ∧ body = parts.flatten
  | [], body, _, h => by
    cases h
    exact ⟨[], nofun, rfl⟩
  | x :: xs, body, hv, h => by
    obtain ⟨b, hb, h⟩ := bind_eq_ok h
    obtain ⟨rest, hrest, h⟩ := bind_eq_ok h
    cases h
    obtain ⟨parts, hcanon, rfl⟩ := canonical_of_encodeItems hv.2 hrest
    exact ⟨b :: parts, List.forall_mem_cons.mpr ⟨canonical_of_encode hv.1 hb, hcanon⟩, rfl⟩

theorem canonical_of_encodeEntries : ∀ {es : List (Key × PyObj)}, BencodableEntries es →
    ∀ e ∈ encodeEntries es, ∀ b, e.2 = .ok b → Canonical b
  | [], _, _, he, _, _ => absurd he List.not_mem_nil
  | (_, _) :: _, hv, e, he, b, hb => by
    rcases List.mem_cons.mp he with rfl | he
    · exact canonical_of_encode hv.1 hb
    · exact canonical_of_encodeEntries hv.2 e he b hb

end

-- Canonical texts are written by the encoder

/-- A value in normal form that is written as `b`. -/
structure NormalFor (v : PyObj) (b : Bytes) : Prop where
  bencodable : Bencodable v
  normal : normal v = v
  encoded : encode v = .ok b

theorem normalFor_items {items : List Bytes} (h : ∀ x ∈ items, ∃ v, NormalFor v x) :
    ∃ vs, BencodableItems vs ∧ normalItems vs = vs ∧ encodeItems vs = .ok items.flatten := by
  induction items with
  | nil => exact ⟨[], trivial, rfl, rfl⟩
  | cons x items ih =>
    obtain ⟨v, hv⟩ := h x List.mem_cons_self
    obtain ⟨vs, hvs, hnormal, hencoded⟩ := ih (fun y hy => h y (List.mem_cons_of_mem _ hy))
    refine ⟨v :: vs, ⟨hv.bencodable, hvs⟩, by rw [normalItems, hv.normal, hnormal], ?_⟩
    rw [encodeItems, hv.encoded, hencoded]
    rfl

theorem normalFor_entries {entries : List (Bytes × Bytes)}
    (h : ∀ e ∈ entries, ∃ v, NormalFor v e.2) :
    ∃ es : List (Key × PyObj), es.map Prod.fst = entries.map (fun e => Key.bytes e.1) ∧
      BencodableEntries es ∧ normalEntries es = es ∧
      joinEntries (encodeEntries es) =
        .ok (entries.flatMap (fun e => encodeString e.1 ++ e.2)) := by
  induction entries with
  | nil => exact ⟨[], rfl, trivial, rfl, rfl⟩
  | cons e entries ih =>
    obtain ⟨v, hv⟩ := h e List.mem_cons_self
    obtain ⟨es, hkeys, hes, hnormal, hjoin⟩ := ih (fun y hy => h y (List.mem_cons_of_mem _ hy))
    refine ⟨(.bytes e.1, v) :: es, by rw [List.map_cons, List.map_cons, hkeys],
      ⟨hv.bencodable, hes⟩, ?_, ?_⟩
    · rw [normalEntries, hv.normal, hnormal]
      rfl
    · rw [encodeEntries, joinEntries, hv.encoded, hjoin, List.flatMap_cons]
      rfl

theorem normalFor_dict {entries : List (Bytes × Bytes)}
    (ascending : entries.Pairwise (fun a b => a.1 < b.1))
    (h : ∀ e ∈ entries, ∃ v, NormalFor v e.2) :
    ∃ v, NormalFor v
      (ascii "d" ++ entries.flatMap (fun e => encodeString e.1 ++ e.2) ++ ascii "e") := by
  obtain ⟨es, hkeys, hes, hnormal, hjoin⟩ := normalFor_entries h
  have hsortKeys : es.map (fun e => e.1.sortKey) = entries.map Prod.fst := by
    have := congrArg (List.map Key.sortKey) hkeys
    simpa [List.map_map, Function.comp_def, Key.sortKey] using this
  have hlt : (es.map (fun e => e.1.sortKey)).Pairwise (· < ·) := by
    rw [hsortKeys]
    exact List.pairwise_map.mpr ascending
  have hle : es.Pairwise (fun a b => a.1.sortKey ≤ b.1.sortKey) :=
    (List.pairwise_map.mp hlt).imp le_of_lt
  have htext : ∀ e ∈ es, e.1.isText = true := by
    intro e he
    have hmem : e.1 ∈ entries.map (fun e => Key.bytes e.1) := by
      rw [← hkeys]
      exact List.mem_map_of_mem he
    obtain ⟨e', -, he'⟩ := List.mem_map.mp hmem
    rw [← he']
    rfl
  refine ⟨.dict es, ?_, ?_, ?_⟩
  · rw [Bencodable]
    exact ⟨htext, hlt.imp ne_of_lt, hes⟩
  · rw [normal, hnormal, sortOn_eq_self _ hle]
  · have hall : (encodeEntries es).all (fun e => e.1.isText) = true := by
      rw [encodeEntries_eq_map, List.all_map, List.all_eq_true]
      exact htext
    have hsorted : sortOn (fun e => e.1.sortKey) (encodeEntries es) = encodeEntries es := by
      rw [encodeEntries_eq_map]
      exact sortOn_eq_self _ (List.pairwise_map.mpr hle)
    rw [encode, encodeDict, if_pos hall, hsorted, hjoin]
    rfl

theorem encode_of_canonical {b : Bytes} (h : Canonical b) : ∃ v, NormalFor v b := by
  induction h with
  | string b => exact ⟨.bytes b, trivial, rfl, rfl⟩
  | integer n => exact ⟨.int n, trivial, rfl, rfl⟩
  | list items _ ih =>
    obtain ⟨vs, hvs, hnormal, hencoded⟩ := normalFor_items ih
    refine ⟨.list vs, ?_, by rw [normal, hnormal], ?_⟩
    · rw [Bencodable]
      exact hvs
    · rw [encode, hencoded]
      rfl
  | dict entries ascending _ ih => exact normalFor_dict ascending ih

/-- What the decoder reads where a canonical text begins is written as that text. -/
theorem encode_of_decode_canonical {data pre b post : Bytes} {n : Nat} {m : Bool} {w : PyObj}
    {c : Cursor} (hdata : data = pre ++ (b ++ post)) (hcanon : Canonical b)
    (hrun : decode data n ⟨pre.length, m⟩ = (.ok w, c)) : encode w = .ok b := by
  obtain ⟨v, hv⟩ := encode_of_canonical hcanon
  obtain ⟨b', hb⟩ := written hv.bencodable
  obtain rfl : b' = b := Except.ok.inj (hb.encoded.symm.trans hv.encoded)
  have hfollows := decode_follows hdata n m
  rw [hrun] at hfollows
  rcases readItem_outcome n (b' ++ post) with hn | hn
  · rw [hn] at hfollows
    obtain ⟨h, -⟩ := hfollows
    cases h
  · rw [hn, (hb.reads _).at_fuel le_rfl] at hfollows
    obtain ⟨read, -, h⟩ := hfollows
    cases h
    rw [hv.normal]
    exact hv.encoded

/-- A text that the decoder has read as `w` is what the encoder makes of `w`
exactly if it is canonical. -/
theorem encode_slice_iff {data : Bytes} {n i : Nat} {m m' : Bool} {w : PyObj} {j : Int}
    (hrun : decode data n ⟨i, m⟩ = (.ok w, ⟨j, m'⟩)) :
    encode w = .ok (slice data i j) ↔ Canonical (slice data i j) := by
  constructor
  · exact canonical_of_encode ((builds data n).item _ _ _ hrun)
  · intro hcanon
    obtain ⟨v, hv⟩ := encode_of_canonical hcanon
    obtain ⟨b, hb⟩ := written hv.bencodable
    have hraw : b = slice data i j := Except.ok.inj (hb.encoded.symm.trans hv.encoded)
    obtain ⟨c, t, hopens, -⟩ := hb.opens
    -- the canonical text begins at the cursor
    have hbound : sliceBound data i = min i data.length := by simp [sliceBound]
    have hi : sliceBound data i ≤ sliceBound data j ∧ i ≤ data.length := by
      have hne : (slice data i j).length ≠ 0 := by simp [← hraw, hopens]
      simp only [slice, List.length_drop, List.length_take] at hne
      omega
    have hbegin : sliceBound data i = i := by omega
    have hdrop : data.drop i = slice data i j ++ data.drop (sliceBound data j) := by
      have hsplit := List.take_append_drop (sliceBound data j) data
      conv_lhs => rw [← hsplit]
      rw [List.drop_append_of_le_length, slice, hbegin]
      rw [List.length_take]
      omega
    have hdata : data = data.take i ++ (slice data i j ++ data.drop (sliceBound data j)) := by
      rw [← hdrop, List.take_append_drop]
    refine encode_of_decode_canonical hdata hcanon (n := n) (m := m) (c := ⟨j, m'⟩) ?_
    rw [List.length_take, Nat.min_eq_left hi.2]
    exact hrun

/-- A text that the decoder accepts, with whatever follows what it reads, is what the encoder
makes of the value exactly if it is canonical. -/
theorem encode_eq_iff {data : Bytes} {n : Nat} {m : Bool} {w : PyObj} {c : Cursor}
    (hrun : decode data n ⟨0, m⟩ = (.ok w, c)) : encode w = .ok data ↔ Canonical data := by
  constructor
  · exact canonical_of_encode ((builds data n).item _ _ _ hrun)
  · intro hcanon
    have hdata : data = [] ++ (data ++ []) := by rw [List.append_nil, List.nil_append]
    exact encode_of_decode_canonical hdata hcanon hrun

/-!
## Encoding what has been read back

The encoder sorts the entries of a dictionary by its keys, so neither the order of the
entries nor the difference between a text and its octets is visible in what it writes.
-/

/-- The entry as it is read back from its text. -/
def octetEntry {α : Type} (e : Key × α) : Key × α := (.bytes e.1.sortKey, e.2)

theorem joinEntries_octets (es : List (Key × Except EncodeError Bytes)) :
    joinEntries (es.map octetEntry) = joinEntries es := by
  induction es with
  | nil => rfl
  | cons e es ih =>
    rw [List.map_cons, octetEntry, joinEntries, ih]
    rfl

/-- Sorting twice is sorting once. -/
theorem sortOn_sortOn {α κ : Type*} [LinearOrder κ] (key : α → κ) (l : List α) :
    sortOn key (sortOn key l) = sortOn key l :=
  sortOn_eq_self key (sortOn_pairwise key l)

theorem encodeDict_of_text {es : List (Key × Except EncodeError Bytes)}
    (h : ∀ e ∈ es, e.1.isText = true) :
    encodeDict es = (joinEntries (sortOn (fun e => e.1.sortKey) es)).map
      (fun body => ascii "d" ++ body ++ ascii "e") := by
  rw [encodeDict, if_pos (List.all_eq_true.mpr h)]
  cases joinEntries (sortOn (fun e => e.1.sortKey) es) <;> rfl

/-- Keys may be given as octets, and in their order. -/
theorem encodeDict_octets {es : List (Key × Except EncodeError Bytes)}
    (h : ∀ e ∈ es, e.1.isText = true) :
    encodeDict (sortOn (fun e => e.1.sortKey) (es.map octetEntry)) = encodeDict es := by
  have htext : ∀ e ∈ sortOn (fun e => e.1.sortKey) (es.map octetEntry), e.1.isText = true := by
    intro e he
    obtain ⟨e', -, rfl⟩ := List.mem_map.mp ((sortOn_perm _ _).mem_iff.mp he)
    rfl
  have hsort : sortOn (fun e => e.1.sortKey) (es.map octetEntry) =
      (sortOn (fun e => e.1.sortKey) es).map octetEntry := sortOn_map octetEntry _ es
  rw [encodeDict_of_text htext, encodeDict_of_text h, sortOn_sortOn, hsort, joinEntries_octets]

/-- The entries of a sorted dictionary are encoded in its order. -/
theorem encodeEntries_sortOn (es : List (Key × PyObj)) :
    encodeEntries (sortOn (fun e => e.1.sortKey) es) =
      sortOn (fun e => e.1.sortKey) (encodeEntries es) := by
  rw [encodeEntries_eq_map, encodeEntries_eq_map, sortOn_map]

mutual

/-- A value and what it is read back as are encoded alike. -/
theorem encode_normal : ∀ {v : PyObj}, Bencodable v → encode (normal v) = encode v
  | .bytes _, _ => rfl
  | .str _, _ => rfl
  | .int _, _ => rfl
  | .list items, h => by
    rw [normal, encode, encode, encodeItems_normal h]
  | .dict entries, h => by
    have htext : ∀ e ∈ encodeEntries entries, e.1.isText = true := by
      intro e he
      rw [encodeEntries_eq_map] at he
      obtain ⟨e', he', rfl⟩ := List.mem_map.mp he
      exact h.1 e' he'
    rw [normal, encode, encode, encodeEntries_sortOn, encodeEntries_normal h.2.2,
      encodeDict_octets htext]

theorem encodeItems_normal : ∀ {xs : List PyObj}, BencodableItems xs →
    encodeItems (normalItems xs) = encodeItems xs
  | [], _ => rfl
  | x :: xs, h => by
    rw [normalItems, encodeItems, encodeItems, encode_normal h.1, encodeItems_normal h.2]

theorem encodeEntries_normal : ∀ {es : List (Key × PyObj)}, BencodableEntries es →
    encodeEntries (normalEntries es) = (encodeEntries es).map octetEntry
  | [], _ => rfl
  | (k, v) :: es, h => by
    rw [normalEntries, encodeEntries, encodeEntries, encode_normal h.1,
      encodeEntries_normal h.2]
    rfl

end

/-- The order of the entries of a dictionary is not visible. -/
theorem encode_sortOn {es : List (Key × PyObj)} (h : ∀ e ∈ es, e.1.isText = true) :
    encode (.dict (sortOn (fun e => e.1.sortKey) es)) = encode (.dict es) := by
  have htext : ∀ e ∈ encodeEntries es, e.1.isText = true := by
    intro e he
    rw [encodeEntries_eq_map] at he
    obtain ⟨e', he', rfl⟩ := List.mem_map.mp he
    exact h e' he'
  have hsorted : ∀ e ∈ sortOn (fun e => e.1.sortKey) (encodeEntries es), e.1.isText = true :=
    fun e he => htext e ((sortOn_perm _ _).mem_iff.mp he)
  rw [encode, encode, encodeEntries_sortOn, encodeDict_of_text hsorted, encodeDict_of_text htext,
    sortOn_sortOn]

/-! ### Looking into what has been read back -/

/-- A dictionary as it is read back. -/
def normalDict (es : List (Key × PyObj)) : List (Key × PyObj) :=
  sortOn (fun e => e.1.sortKey) (normalEntries es)

theorem normal_dict (es : List (Key × PyObj)) : normal (.dict es) = .dict (normalDict es) := by
  rw [normal, normalDict]

theorem Stored.normalEntries_eq {es : List (Key × PyObj)} (h : Stored es) :
    normalEntries es = es.map (fun e => (e.1, normal e.2)) := by
  rw [normalEntries_eq_map]
  apply List.map_congr_left
  intro e he
  obtain ⟨b, hb⟩ := h.octets e he
  rw [hb]
  rfl

theorem Stored.lookup_normalDict {es : List (Key × PyObj)} (h : Stored es) (k : Key) :
    (normalDict es).lookup k = (es.lookup k).map normal := by
  have hperm : (normalDict es).Perm (es.map (fun e => (e.1, normal e.2))) := by
    rw [← h.normalEntries_eq]
    exact sortOn_perm _ _
  have hkeys : (es.map (fun e => (e.1, normal e.2))).map Prod.fst = es.map Prod.fst := by
    rw [List.map_map]
    rfl
  have hnodup : ((normalDict es).map Prod.fst).Nodup := by
    rw [(hperm.map Prod.fst).nodup_iff, hkeys]
    exact h.nodup
  rw [lookup_perm hperm hnodup, lookup_map_values]

/-- What is written for a dictionary is read back whole. -/
theorem Stored.decode_written {es : List (Key × PyObj)} (h : Stored es) {b : Bytes}
    (hb : encode (.dict es) = .ok b) :
    (decode b (fuelFor b) ⟨0, false⟩).1 = .ok (.dict (normalDict es)) := by
  obtain ⟨b', hw⟩ := written h.bencodable
  have hbb : b = b' := Except.ok.inj (hb.symm.trans hw.encoded)
  have hreads := hw.reads []
  rw [List.append_nil, ← hbb, normal_dict] at hreads
  have hdecode := hreads.decode [] le_rfl
  rw [List.nil_append] at hdecode
  exact congrArg Prod.fst hdecode

end Bencode

end Ccbt

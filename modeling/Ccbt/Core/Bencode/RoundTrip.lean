import Ccbt.Core.Bencode.Equality
import Ccbt.Core.Bencode.Refinement

/-!
# Decoding what was encoded

The encoder writes every bencodable value so that the reader reads its normal
form back: strings as their UTF-8 octets, dictionaries in the order of their
keys. The normal form and the value are the same to Python once the strings are
replaced by their octets.
-/

namespace Ccbt

open Python

namespace Bencode

/-- Reading `s` gives `w` and leaves `rest`, given enough fuel. -/
def Reads (s : Bytes) (w : PyObj) (rest : Bytes) : Prop := ∃ n, readItem n s = .done w rest

theorem Reads.at_fuel {s rest : Bytes} {w : PyObj} (h : Reads s w rest) {n : Nat}
    (hn : fuelFor s ≤ n) : readItem n s = .done w rest := by
  obtain ⟨k, hk⟩ := h
  have hmax := readItem_mono (Nat.le_max_left k n) (by rw [hk]; nofun)
  rw [← readItem_mono (Nat.le_max_right k n) (readItem_ne_outOfFuel hn), hmax, hk]

/-- What is read is decoded, with the cursor in front of what is left. -/
theorem Reads.decode {s rest : Bytes} {w : PyObj} (h : Reads s w rest) (pre : Bytes) {n : Nat}
    (hn : fuelFor s ≤ n) :
    decode (pre ++ s) n ⟨pre.length, false⟩ =
      (.ok w, ⟨(pre.length + s.length : Nat) - rest.length, false⟩) := by
  have hfollows := decode_follows (rfl : pre ++ s = pre ++ s) n false
  rw [h.at_fuel hn] at hfollows
  obtain ⟨pre', hpre', hrun⟩ := hfollows
  have hlen := congrArg List.length hpre'
  simp only [List.length_append] at hlen
  rw [hrun, hlen]
  simp

/-- The fuel of two readings that follow each other. -/
theorem readItems_cons {s mid rest : Bytes} {x : PyObj} {xs : List PyObj} {c : UInt8} {t : Bytes}
    (hs : s = c :: t) (hc : c ≠ 0x65) (hx : Reads s x mid)
    (hxs : ∃ n, readItems n mid = .done xs rest) : ∃ n, readItems n s = .done (x :: xs) rest := by
  obtain ⟨n, hn⟩ := hx
  obtain ⟨m, hm⟩ := hxs
  refine ⟨max n m + 1, ?_⟩
  subst hs
  rw [readItems, if_neg hc,
    (agree (Nat.le_max_left n m)).item _ (by rw [hn]; exact done_ne_outOfFuel), hn, andThen_done,
    (agree (Nat.le_max_right n m)).items _ (by rw [hm]; exact done_ne_outOfFuel), hm]
  rfl

theorem readEntries_cons {s text rest : Bytes} {mid key : Bytes} {w : PyObj}
    {es : List (Key × PyObj)} {c : UInt8} {t : Bytes} (hs : s = c :: t) (hc : c ≠ 0x65)
    (hkey : readString s = .done key text) (hw : Reads text w mid)
    (hes : ∃ n, readEntries n mid = .done es rest) :
    ∃ n, readEntries n s = .done ((.bytes key, w) :: es) rest := by
  obtain ⟨n, hn⟩ := hw
  obtain ⟨m, hm⟩ := hes
  refine ⟨max n m + 1, ?_⟩
  subst hs
  rw [readEntries, if_neg hc, hkey, andThen_done,
    (agree (Nat.le_max_left n m)).item _ (by rw [hn]; exact done_ne_outOfFuel), hn, andThen_done,
    (agree (Nat.le_max_right n m)).entries _ (by rw [hm]; exact done_ne_outOfFuel), hm]
  rfl

-- Numbers and strings

theorem decodeText_utf8Encode (s : Str) : decodeText (utf8Encode s) = .ok s := by
  rw [decodeText, utf8Decode_utf8Encode]

theorem readText_utf8Encode {c : UInt8} {t : Str} (h : c ∉ utf8Encode t) (missing : String)
    (rest : Bytes) : readText c missing (utf8Encode t ++ c :: rest) = .done t (c :: rest) := by
  unfold readText
  rw [splitAt_append h]
  show Outcome.ofExcept (decodeText (utf8Encode t)) (c :: rest) = _
  rw [decodeText_utf8Encode]
  rfl

/-- The octets of a decimal number. -/
theorem mem_strInt {n : Int} {b : UInt8} (h : b ∈ utf8Encode (strInt n)) :
    45 ≤ b.toNat ∧ b.toNat ≤ 57 := by
  rw [utf8Encode_of_lt (fun c hc => by have := strInt_bounds hc; omega)] at h
  obtain ⟨c, hc, rfl⟩ := List.mem_map.mp h
  have hb := strInt_bounds hc
  have hv : c.toNat.toUInt8.toNat = c.toNat := by
    rw [Nat.toUInt8, UInt8.toNat_ofNat']
    omega
  rw [hv]
  exact hb

theorem parseNumber_strInt (n : Int) : parseNumber (strInt n) = .ok n := by
  unfold strInt
  cases hd : Nat.toDigits 10 n.natAbs with
  | nil => exact absurd hd Nat.toDigits_ne_nil
  | cons c s =>
    have hint : parseInt (c :: s) = some (n.natAbs : Int) := by
      rw [← hd]
      exact parseInt_toDigits _
    have hminus : c ≠ '-' := toDigits_head_ne_minus hd
    by_cases hn : n < 0
    · have habs : -(n.natAbs : Int) = n := by omega
      rw [if_pos hn, parseNumber.eq_def]
      simp only [hint, habs]
    · have habs : (n.natAbs : Int) = n := by omega
      rw [if_neg hn]
      have hzero : ¬((c :: s).head? = some '0' ∧ 1 < (c :: s).length) := by
        rintro ⟨h0, hlen⟩
        have hc : c = '0' := Option.some.inj h0
        by_cases hn0 : n.natAbs = 0
        · rw [hn0] at hd
          cases hd
          exact absurd hlen (by decide)
        · exact toDigits_head_ne_zero (Nat.pos_of_ne_zero hn0) hd hc
      unfold parseNumber
      split
      · next h => exact absurd (List.cons.inj h).1 hminus
      · next h => exact absurd (List.cons.inj h).1 hminus
      · rw [if_neg hzero, hint, habs]

theorem readInteger_strInt (n : Int) (rest : Bytes) :
    readInteger (utf8Encode (strInt n) ++ 0x65 :: rest) = .done n rest := by
  have hmem : (0x65 : UInt8) ∉ utf8Encode (strInt n) := by
    intro h
    exact absurd (mem_strInt h).2 (by decide)
  rw [readInteger, readText_utf8Encode hmem, andThen_done, parseNumber_strInt]
  rfl

theorem encodeString_eq (b : Bytes) :
    encodeString b = utf8Encode (strInt b.length) ++ 0x3A :: b := by
  simp [encodeString, utf8Encode, String.utf8EncodeChar]

theorem encodeInteger_eq (n : Int) :
    encodeInteger n = 0x69 :: (utf8Encode (strInt n) ++ [0x65]) := by
  simp [encodeInteger, utf8Encode, String.utf8EncodeChar]

theorem readString_encodeString (b rest : Bytes) :
    readString (encodeString b ++ rest) = .done b rest := by
  have hmem : (0x3A : UInt8) ∉ utf8Encode (strInt b.length) := by
    intro h
    exact absurd (mem_strInt h).2 (by decide)
  have hlength : parseLength (strInt b.length) = .ok b.length := by
    rw [strInt_natCast, parseLength, parseInt_toDigits]
  rw [encodeString_eq, List.append_assoc, List.cons_append, readString,
    readText_utf8Encode hmem, andThen_done, hlength, Outcome.ofExcept, andThen_done, readCut_colon,
    if_neg (by simp), if_neg (by omega)]
  congr 1
  · simp
  · have hnat : (((utf8Encode (strInt b.length)).length : Int) + 1 + b.length).toNat =
        (utf8Encode (strInt b.length) ++ 0x3A :: b).length := by
      simp only [List.length_append, List.length_cons]
      omega
    have hassoc : utf8Encode (strInt b.length) ++ 0x3A :: (b ++ rest) =
        (utf8Encode (strInt b.length) ++ 0x3A :: b) ++ rest := by simp
    rw [hnat, hassoc, List.drop_left]

/-- A string begins with a digit. -/
theorem encodeString_head (b : Bytes) : ∃ c t, encodeString b = c :: t ∧
    48 ≤ c.toNat ∧ c.toNat ≤ 57 := by
  rw [encodeString_eq, strInt_natCast]
  have hbounds : ∀ c ∈ Nat.toDigits 10 b.length, 48 ≤ c.toNat ∧ c.toNat ≤ 57 :=
    fun _ => toDigits_bounds
  cases hd : Nat.toDigits 10 b.length with
  | nil => exact absurd hd Nat.toDigits_ne_nil
  | cons c s =>
    rw [hd] at hbounds
    obtain ⟨hlo, hhi⟩ := hbounds c List.mem_cons_self
    have hascii : utf8Encode (c :: s) = (c :: s).map (fun c => c.toNat.toUInt8) :=
      utf8Encode_of_lt (fun d hm => by have := hbounds d hm; omega)
    have hv : c.toNat.toUInt8.toNat = c.toNat := by
      rw [Nat.toUInt8, UInt8.toNat_ofNat']
      omega
    refine ⟨c.toNat.toUInt8, s.map (fun c => c.toNat.toUInt8) ++ 0x3A :: b, ?_, ?_, ?_⟩
    · rw [hascii, List.map_cons, List.cons_append]
    · rw [hv]
      exact hlo
    · rw [hv]
      exact hhi

theorem readItem_encodeString (b rest : Bytes) (n : Nat) :
    readItem (n + 1) (encodeString b ++ rest) = .done (.bytes b) rest := by
  have hread := readString_encodeString b rest
  obtain ⟨c, t, hs, hlo, hhi⟩ := encodeString_head b
  rw [hs, List.cons_append] at hread ⊢
  have hdigit : isdigit c = true := by simp [isdigit, hlo, hhi]
  have hne : ∀ d : UInt8, 57 < d.toNat → c ≠ d := by
    rintro d hd rfl
    omega
  rw [readItem, if_neg (hne _ (by decide)), if_neg (hne _ (by decide)), if_neg (hne _ (by decide)),
    if_pos hdigit, hread]
  rfl

-- Values

mutual

/-- What a value is read back as: strings as octets, dictionaries in the order of
their keys. -/
def normal : PyObj → PyObj
  | .bytes b => .bytes b
  | .str s => .bytes (utf8Encode s)
  | .int n => .int n
  | .bool b => .bool b
  | .list items => .list (normalItems items)
  | .dict entries => .dict (sortOn (fun e => e.1.sortKey) (normalEntries entries))
  | .other t => .other t

def normalItems : List PyObj → List PyObj
  | [] => []
  | x :: xs => normal x :: normalItems xs

def normalEntries : List (Key × PyObj) → List (Key × PyObj)
  | [] => []
  | (k, v) :: es => (.bytes k.sortKey, normal v) :: normalEntries es

end

/-- `v` is written as `b`, and that reads as `w` whatever follows. -/
structure Written (v w : PyObj) (b : Bytes) : Prop where
  encoded : encode v = .ok b
  opens : ∃ c t, b = c :: t ∧ c ≠ 0x65
  reads : ∀ rest, Reads (b ++ rest) w rest

theorem written_string (b : Bytes) : Written (.bytes b) (.bytes b) (encodeString b) := by
  refine ⟨rfl, ?_, fun rest => ⟨1, readItem_encodeString b rest 0⟩⟩
  obtain ⟨c, t, hs, hlo, hhi⟩ := encodeString_head b
  refine ⟨c, t, hs, ?_⟩
  rintro rfl
  exact absurd hhi (by decide)

theorem written_integer (n : Int) : Written (.int n) (.int n) (encodeInteger n) := by
  refine ⟨rfl, ⟨0x69, _, encodeInteger_eq n, by decide⟩, fun rest => ⟨1, ?_⟩⟩
  rw [encodeInteger_eq, List.cons_append, List.append_assoc, readItem, if_pos rfl]
  rw [List.singleton_append, readInteger_strInt]
  rfl

/-- The items of a list, one after another. -/
theorem written_items {xs ys : List PyObj}
    (h : List.Forall₂ (fun x y => ∃ b, Written x y b) xs ys) :
    ∃ b, encodeItems xs = .ok b ∧
      ∀ rest, ∃ n, readItems n (b ++ 0x65 :: rest) = .done ys (0x65 :: rest) := by
  induction h with
  | nil => exact ⟨[], rfl, fun rest => ⟨1, by simp [readItems]⟩⟩
  | @cons x y xs ys hx _ ih =>
    obtain ⟨b, hb⟩ := hx
    obtain ⟨bs, hbs, hreads⟩ := ih
    obtain ⟨c, t, hopens, hc⟩ := hb.opens
    refine ⟨b ++ bs, by rw [encodeItems, hb.encoded, hbs]; rfl, fun rest => ?_⟩
    refine readItems_cons (c := c) (t := t ++ (bs ++ 0x65 :: rest)) ?_ hc ?_ (hreads rest)
    · rw [hopens, List.append_assoc, List.cons_append]
    · rw [List.append_assoc]
      exact hb.reads _

theorem written_list {xs ys : List PyObj}
    (h : List.Forall₂ (fun x y => ∃ b, Written x y b) xs ys) :
    ∃ b, Written (.list xs) (.list ys) b := by
  obtain ⟨b, hb, hreads⟩ := written_items h
  refine ⟨ascii "l" ++ b ++ ascii "e", by rw [encode, hb]; rfl, ⟨0x6C, b ++ [0x65], rfl, by decide⟩,
    fun rest => ?_⟩
  obtain ⟨n, hn⟩ := hreads rest
  refine ⟨n + 2, ?_⟩
  have hcons : ascii "l" ++ b ++ ascii "e" ++ rest = 0x6C :: (b ++ 0x65 :: rest) := by
    simp [ascii]
  rw [hcons, readItem, if_neg (by decide), if_pos rfl, readList, hn]
  rfl

/-- The entries of a dictionary, one after another. -/
theorem written_entries (es : List (Key × Except EncodeError Bytes)) (ws : List (Key × PyObj))
    (h : List.Forall₂ (fun e w => w.1 = .bytes e.1.sortKey ∧
      ∃ v b, e.2 = encode v ∧ Written v w.2 b) es ws) :
    ∃ b, joinEntries es = .ok b ∧
      ∀ rest, ∃ n, readEntries n (b ++ 0x65 :: rest) = .done ws (0x65 :: rest) := by
  induction h with
  | nil => exact ⟨[], rfl, fun rest => ⟨1, by simp [readEntries]⟩⟩
  | @cons e w es ws he _ ih =>
    obtain ⟨key, value⟩ := e
    obtain ⟨wkey, wvalue⟩ := w
    obtain ⟨hkey, v, b, hvalue, hb⟩ := he
    simp only at hkey hvalue hb
    subst hkey
    obtain ⟨bs, hbs, hreads⟩ := ih
    obtain ⟨c, t, hopens, -, hc⟩ := encodeString_head key.sortKey
    refine ⟨encodeString key.sortKey ++ b ++ bs, ?_, ?_⟩
    · rw [joinEntries, hvalue, hb.encoded, hbs]
      rfl
    · intro rest
      refine readEntries_cons (c := c) (t := t ++ (b ++ (bs ++ 0x65 :: rest))) ?_ ?_ ?_
        (hb.reads _) (hreads rest)
      · simp [hopens]
      · rintro rfl
        exact absurd hc (by decide)
      · simpa using readString_encodeString key.sortKey (b ++ (bs ++ 0x65 :: rest))

theorem storeEntries_eq_append {es d : List (Key × PyObj)}
    (h : ((d ++ es).map Prod.fst).Nodup) : storeEntries es d = d ++ es :=
  foldl_setEntry_eq_append h

theorem encodeEntries_eq_map (es : List (Key × PyObj)) :
    encodeEntries es = es.map (fun e => (e.1, encode e.2)) := by
  induction es with
  | nil => rfl
  | cons e es ih => rw [encodeEntries, ih, List.map_cons]

theorem normalEntries_eq_map (es : List (Key × PyObj)) :
    normalEntries es = es.map (fun e => (Key.bytes e.1.sortKey, normal e.2)) := by
  induction es with
  | nil => rfl
  | cons e es ih => rw [normalEntries, ih, List.map_cons]

/-- Keys that are written in ascending order are read into a dictionary in that
order. -/
theorem written_dict {es : List (Key × PyObj)} (htext : ∀ e ∈ es, e.1.isText = true)
    (hdistinct : (es.map (fun e => e.1.sortKey)).Nodup)
    (hvalues : ∀ e ∈ es, ∃ b, Written e.2 (normal e.2) b) :
    ∃ b, Written (.dict es) (normal (.dict es)) b := by
  have hsorted : normal (.dict es) = .dict ((sortOn (fun e => e.1.sortKey) es).map
      (fun e => (Key.bytes e.1.sortKey, normal e.2))) := by
    rw [normal, normalEntries_eq_map, sortOn_map]
    rfl
  obtain ⟨b, hjoin, hreads⟩ := written_entries
    ((sortOn (fun e => e.1.sortKey) es).map (fun e => (e.1, encode e.2)))
    ((sortOn (fun e => e.1.sortKey) es).map (fun e => (Key.bytes e.1.sortKey, normal e.2)))
    (by
      rw [List.forall₂_map_left_iff, List.forall₂_map_right_iff, List.forall₂_same]
      intro e he
      obtain ⟨b, hb⟩ := hvalues e ((sortOn_perm _ es).mem_iff.mp he)
      exact ⟨rfl, e.2, b, rfl, hb⟩)
  have hencode : encode (.dict es) = .ok (ascii "d" ++ b ++ ascii "e") := by
    have hall : (encodeEntries es).all (fun e => e.1.isText) = true := by
      rw [encodeEntries_eq_map, List.all_map, List.all_eq_true]
      exact htext
    rw [encode, encodeDict, if_pos hall, encodeEntries_eq_map, sortOn_map, hjoin]
    rfl
  have hkeys : (((sortOn (fun e => e.1.sortKey) es).map
      (fun e => (Key.bytes e.1.sortKey, normal e.2))).map Prod.fst).Nodup := by
    have hperm := (sortOn_perm (fun e : Key × PyObj => e.1.sortKey) es).map (fun e => e.1.sortKey)
    have hnodup := (hperm.nodup_iff.mpr hdistinct).map (f := Key.bytes)
      (fun _ _ h => Key.bytes.inj h)
    rw [List.map_map] at hnodup ⊢
    exact hnodup
  refine ⟨ascii "d" ++ b ++ ascii "e", hencode, ⟨0x64, b ++ [0x65], rfl, by decide⟩,
    fun rest => ?_⟩
  obtain ⟨n, hn⟩ := hreads rest
  refine ⟨n + 2, ?_⟩
  have hcons : ascii "d" ++ b ++ ascii "e" ++ rest = 0x64 :: (b ++ 0x65 :: rest) := by
    simp [ascii]
  rw [hcons, readItem, if_neg (by decide), if_neg (by decide), if_pos rfl, readDict, hn, hsorted,
    andThen_done]
  show Outcome.done (PyObj.dict (storeEntries _ [])) rest = _
  rw [storeEntries_eq_append hkeys, List.nil_append]

mutual

/-- Every bencodable value is written so that its normal form is read back. -/
theorem written : ∀ {v : PyObj}, Bencodable v → ∃ b, Written v (normal v) b
  | .bytes b, _ => ⟨_, written_string b⟩
  | .str s, _ => ⟨_, ⟨rfl, (written_string (utf8Encode s)).opens,
      (written_string (utf8Encode s)).reads⟩⟩
  | .int n, _ => ⟨_, written_integer n⟩
  | .list items, h => by
    rw [Bencodable] at h
    rw [normal]
    exact written_list (writtenItems h)
  | .dict entries, h => by
    rw [Bencodable] at h
    exact written_dict h.1 h.2.1 (writtenEntries h.2.2)

theorem writtenItems : ∀ {xs : List PyObj}, BencodableItems xs →
    List.Forall₂ (fun x y => ∃ b, Written x y b) xs (normalItems xs)
  | [], _ => .nil
  | _ :: _, h => .cons (written h.1) (writtenItems h.2)

theorem writtenEntries : ∀ {es : List (Key × PyObj)}, BencodableEntries es →
    ∀ e ∈ es, ∃ b, Written e.2 (normal e.2) b
  | [], _, _, he => absurd he List.not_mem_nil
  | (_, _) :: _, h, e, he => by
    rcases List.mem_cons.mp he with rfl | he
    · exact written h.1
    · exact writtenEntries h.2 e he

end

-- The normal form is the value with its strings encoded

theorem strToBytesEntries_eq_map (es : List (Key × PyObj)) :
    strToBytesEntries es = es.map (fun e => (Key.bytes e.1.sortKey, strToBytes e.2)) := by
  induction es with
  | nil => rfl
  | cons e es ih => rw [strToBytesEntries, ih, List.map_cons]

theorem same_dict {es : List (Key × PyObj)} (hdistinct : (es.map (fun e => e.1.sortKey)).Nodup)
    (hvalues : ∀ e ∈ es, Same (strToBytes e.2) (normal e.2)) :
    Same (strToBytes (.dict es)) (normal (.dict es)) := by
  have hkeys : ((normalEntries es).map Prod.fst).Nodup := by
    have hnodup := hdistinct.map (f := Key.bytes) (fun _ _ h => Key.bytes.inj h)
    rw [normalEntries_eq_map, List.map_map]
    rwa [List.map_map] at hnodup
  have hperm := sortOn_perm (fun e : Key × PyObj => e.1.sortKey) (normalEntries es)
  rw [strToBytes, normal, Same]
  refine ⟨_, rfl, ?_, ?_⟩
  · rw [hperm.length_eq, normalEntries_eq_map, strToBytesEntries_eq_map, List.length_map,
      List.length_map]
  · rw [strToBytesEntries_eq_map]
    refine sameEntries_iff.mpr fun e' he' => ?_
    obtain ⟨e, he, rfl⟩ := List.mem_map.mp he'
    refine ⟨normal e.2, ?_, hvalues e he⟩
    rw [← lookup_perm hperm.symm hkeys, lookup_eq_some_iff hkeys, normalEntries_eq_map]
    exact List.mem_map.mpr ⟨e, he, rfl⟩

mutual

theorem same_normal : ∀ {v : PyObj}, Bencodable v → Same (strToBytes v) (normal v)
  | .bytes b, _ => by rw [strToBytes, normal, Same]
  | .str s, _ => by rw [strToBytes, normal, Same]
  | .int n, _ => by rw [strToBytes, normal, Same]
  | .list items, h => by
    rw [Bencodable] at h
    rw [strToBytes, normal, Same]
    exact ⟨_, rfl, sameItems_normal h⟩
  | .dict entries, h => by
    rw [Bencodable] at h
    exact same_dict h.2.1 (sameEntries_normal h.2.2)

theorem sameItems_normal : ∀ {xs : List PyObj}, BencodableItems xs →
    SameItems (strToBytesItems xs) (normalItems xs)
  | [], _ => by rw [strToBytesItems, normalItems, SameItems]
  | _ :: _, h => by
    rw [strToBytesItems, normalItems, SameItems]
    exact ⟨_, _, rfl, same_normal h.1, sameItems_normal h.2⟩

theorem sameEntries_normal : ∀ {es : List (Key × PyObj)}, BencodableEntries es →
    ∀ e ∈ es, Same (strToBytes e.2) (normal e.2)
  | [], _, _, he => absurd he List.not_mem_nil
  | (_, _) :: _, h, e, he => by
    rcases List.mem_cons.mp he with rfl | he
    · exact same_normal h.1
    · exact sameEntries_normal h.2 e he

end

end Bencode

end Ccbt

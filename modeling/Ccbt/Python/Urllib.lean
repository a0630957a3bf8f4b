import Mathlib.Data.List.SplitBy
import Mathlib.Data.List.TakeWhile
import Ccbt.Python.BinAscii
import Ccbt.Python.Dict

/-!
# Python `urllib.parse`

Quoting of octets and of texts, and the ways back: `unquote_to_bytes`, `unquote`, which also decodes
the text, and `parse_qs`, which does so with names and values.
-/

namespace Python

section Quote

/-- The octets that `quote` leaves as they are. -/
def isAlwaysSafe (b : UInt8) : Bool :=
  (0x41 ≤ b && b ≤ 0x5A) || (0x61 ≤ b && b ≤ 0x7A) || (0x30 ≤ b && b ≤ 0x39) ||
    b == 0x5F || b == 0x2E || b == 0x2D || b == 0x7E

def upperHexDigit (n : Nat) : Char := "0123456789ABCDEF".toList.getD n '0'

def quoteByte (b : UInt8) : Str :=
  if isAlwaysSafe b then [Char.ofNat b.toNat]
  else ['%', upperHexDigit (b.toNat / 16), upperHexDigit (b.toNat % 16)]

def quote (data : Bytes) : Str := data.flatMap quoteByte

/-- `quote(text, safe="")` -/
def quoteText (text : Str) : Str := quote (utf8Encode text)

def hexByte (b c : UInt8) : Option UInt8 := do
  let high ← hexValue (Char.ofNat b.toNat)
  let low ← hexValue (Char.ofNat c.toNat)
  return (16 * high + low).toUInt8

/-- `unquote_to_bytes(data)`: a percent sign without two digits behind it stays. -/
def unquoteToBytes : Bytes → Bytes
  | [] => []
  | a :: rest =>
    if a = 0x25 then
      match rest with
      | b :: c :: rest' =>
        match hexByte b c with
        | some x => x :: unquoteToBytes rest'
        | none => a :: unquoteToBytes (b :: c :: rest')
      | [b] => [a, b]
      | [] => [a]
    else a :: unquoteToBytes rest

def isAscii (c : Char) : Bool := c.toNat < 128

/-- `unquote(s)`: the ASCII parts of the text are decoded each for itself. -/
def unquote (s : Str) : Str :=
  (s.splitBy fun a b => isAscii a == isAscii b).flatMap fun run =>
    if run.all isAscii then utf8DecodeReplace (unquoteToBytes (utf8Encode run)) else run

end Quote

section Query

/-- A plus sign stands for a blank. -/
def plusToSpace (s : Str) : Str := s.map fun c => if c = '+' then ' ' else c

/-- The name and the value of a field as they are written. A field without a value is skipped. -/
def rawField (name_value : Str) : Option (Str × Str) :=
  let value := (name_value.dropWhile (· ≠ '=')).drop 1
  if value = [] then none else some (name_value.takeWhile (· ≠ '='), value)

/-- The fields of a query. -/
def rawFields (qs : Str) : List (Str × Str) := (qs.splitOn '&').filterMap rawField

def parseQsl (qs : Str) : List (Str × Str) :=
  (rawFields qs).map fun field => (unquote (plusToSpace field.1), unquote (plusToSpace field.2))

/-- `parse_qs(qs).get(name, [None])[0]` -/
def queryGet (qs : Str) (name : Str) : Option Str := (parseQsl qs).lookup name

/-- `parse_qs(qs).get(name, [])` -/
def queryValues (qs : Str) (name : Str) : List Str :=
  ((parseQsl qs).filter fun field => field.1 = name).map Prod.snd

/-- The value of a parameter as it is written. -/
def rawGet (qs : Str) (name : Str) : Option Str :=
  ((rawFields qs).map fun field => (unquote (plusToSpace field.1), field.2)).lookup name

end Query

section Split

/-- `scheme_chars` -/
def isSchemeChar (c : Char) : Bool := c.isAlphanum || c ∈ ['+', '-', '.']

/-- `urlparse(url)`: the scheme and the query, or `none` where it raises `ValueError`. Which network
locations it takes is a parameter. -/
def urlparse (checkNetloc : Str → Bool) (url : Str) : Option (Str × Str) :=
  let url := (url.dropWhile (·.toNat ≤ 0x20)).filter (· ∉ ['\t', '\r', '\n'])
  let front := url.takeWhile (· ≠ ':')
  let hasScheme := ':' ∈ url ∧ (front.head?.any Char.isAlpha) ∧ front.all isSchemeChar
  let scheme := if hasScheme then front.map Char.toLower else []
  let url := if hasScheme then url.drop (front.length + 1) else url
  let hasNetloc := "//".toList <+: url
  let netloc := (url.drop 2).takeWhile (· ∉ ['/', '?', '#'])
  if hasNetloc ∧ ¬checkNetloc netloc then none
  else
    let url := if hasNetloc then url.drop (2 + netloc.length) else url
    some (scheme, ((url.takeWhile (· ≠ '#')).dropWhile (· ≠ '?')).drop 1)

/-- A URL with nothing but a query behind its scheme. -/
theorem urlparse_query (checkNetloc : Str → Bool) {scheme text : Str}
    (hletter : scheme.head?.any Char.isAlpha)
    (hscheme : ∀ c ∈ scheme, isSchemeChar c = true ∧ c.toLower = c ∧ c ≠ ':' ∧ 0x20 < c.toNat)
    (htext : ∀ c ∈ text, 0x20 < c.toNat) :
    urlparse checkNetloc (scheme ++ ':' :: '?' :: text) =
      some (scheme, text.takeWhile (· ≠ '#')) := by
  have hprint : ∀ c ∈ scheme ++ ':' :: '?' :: text, 0x20 < c.toNat := by
    intro c hc
    simp only [List.mem_append, List.mem_cons] at hc
    rcases hc with hc | rfl | rfl | hc
    · exact (hscheme c hc).2.2.2
    · decide
    · decide
    · exact htext c hc
  have hdrop : (scheme ++ ':' :: '?' :: text).dropWhile (·.toNat ≤ 0x20) =
      scheme ++ ':' :: '?' :: text := by
    obtain ⟨c, rest, rfl⟩ : ∃ c rest, scheme = c :: rest :=
      List.exists_cons_of_ne_nil fun hnil => by simp [hnil] at hletter
    have hlt := hprint c List.mem_cons_self
    exact List.dropWhile_cons_of_neg (by simpa using hlt)
  have hfilter : (scheme ++ ':' :: '?' :: text).filter (· ∉ ['\t', '\r', '\n']) =
      scheme ++ ':' :: '?' :: text := by
    rw [List.filter_eq_self]
    intro c hc
    have hlt := hprint c hc
    rw [decide_eq_true_eq]
    intro hmem
    simp only [List.mem_cons, List.not_mem_nil, or_false] at hmem
    rcases hmem with rfl | rfl | rfl <;> exact absurd hlt (by decide)
  have hfront : (scheme ++ ':' :: '?' :: text).takeWhile (· ≠ ':') = scheme := by
    rw [List.takeWhile_append_of_pos fun c hc => by simpa using (hscheme c hc).2.2.1]
    simp
  have hlower : scheme.map Char.toLower = scheme :=
    (List.map_congr_left fun c hc => (hscheme c hc).2.1).trans (List.map_id scheme)
  have hall : scheme.all isSchemeChar = true :=
    List.all_eq_true.mpr fun c hc => (hscheme c hc).1
  have hrest : (scheme ++ ':' :: '?' :: text).drop (scheme.length + 1) = '?' :: text := by
    rw [List.drop_append]
    simp
  have hnetloc : ¬"//".toList <+: '?' :: text := by
    intro hprefix
    exact absurd (List.cons_prefix_cons.mp hprefix).1 (by decide)
  have hcolon : ':' ∈ scheme ++ ':' :: '?' :: text := by simp
  rw [urlparse, hdrop, hfilter]
  dsimp only
  simp only [hfront, hcolon, hletter, hall, true_and, if_true, hlower, hrest, hnetloc, false_and,
    if_false]
  simp

end Split

section QuoteLemmas

theorem forall_octets {P : UInt8 → Prop} (h : ∀ n < 256, P (UInt8.ofNat n)) (b : UInt8) : P b := by
  have hb := h b.toNat b.toNat_lt
  rwa [UInt8.ofNat_toNat] at hb

theorem hexValue_upperHexDigit : ∀ n < 16,
    hexValue (Char.ofNat (upperHexDigit n).toNat.toUInt8.toNat) = some n := by decide

/-- The characters of a quoted text: ASCII, without the signs that divide a query. -/
def IsPlain (c : Char) : Prop := c.toNat < 128 ∧ c ≠ '&' ∧ c ≠ '=' ∧ c ≠ '+' ∧ c ≠ '#'

instance (c : Char) : Decidable (IsPlain c) := inferInstanceAs (Decidable (_ ∧ _))

def PlainText (s : Str) : Prop := ∀ c ∈ s, IsPlain c

instance (s : Str) : Decidable (PlainText s) := List.decidableBAll IsPlain s

set_option maxRecDepth 4000 in
theorem quoteByte_plain : ∀ b, PlainText (quoteByte b) := forall_octets (by decide)

set_option maxRecDepth 4000 in
theorem quoteByte_of_safe : ∀ b, isAlwaysSafe b = true →
    (Char.ofNat b.toNat).toNat.toUInt8 = b ∧ b ≠ 0x25 := forall_octets (by decide)

theorem quote_plain (data : Bytes) : PlainText (quote data) := by
  intro c hc
  obtain ⟨b, -, hb⟩ := List.mem_flatMap.mp hc
  exact quoteByte_plain b c hb

theorem quote_ne_nil {data : Bytes} (h : data ≠ []) : quote data ≠ [] := by
  obtain ⟨b, rest, rfl⟩ := List.exists_cons_of_ne_nil h
  rw [quote, List.flatMap_cons, quoteByte]
  split <;> simp

theorem unquoteToBytes_cons_of_ne {b : UInt8} (h : b ≠ 0x25) (rest : Bytes) :
    unquoteToBytes (b :: rest) = b :: unquoteToBytes rest := by
  rw [unquoteToBytes.eq_def]
  exact if_neg h

theorem unquoteToBytes_of_notMem {data : Bytes} (h : 0x25 ∉ data) : unquoteToBytes data = data := by
  induction data with
  | nil => rfl
  | cons b rest ih =>
    rw [List.mem_cons, not_or] at h
    rw [unquoteToBytes_cons_of_ne (Ne.symm h.1), ih h.2]

/-- A quoted octet is read back. -/
theorem unquoteToBytes_quoteByte (b : UInt8) (rest : Bytes) :
    unquoteToBytes (utf8Encode (quoteByte b) ++ rest) = b :: unquoteToBytes rest := by
  rw [utf8Encode_of_lt fun c hc => (quoteByte_plain b c hc).1, quoteByte]
  by_cases hsafe : isAlwaysSafe b = true
  · obtain ⟨hchar, hne⟩ := quoteByte_of_safe b hsafe
    rw [if_pos hsafe, List.map_singleton, hchar]
    exact unquoteToBytes_cons_of_ne hne rest
  · have hhigh : b.toNat / 16 < 16 := Nat.div_lt_of_lt_mul b.toNat_lt
    have hlow : b.toNat % 16 < 16 := Nat.mod_lt _ (by decide)
    have hbyte : hexByte (upperHexDigit (b.toNat / 16)).toNat.toUInt8
        (upperHexDigit (b.toNat % 16)).toNat.toUInt8 = some b := by
      rw [hexByte, hexValue_upperHexDigit _ hhigh, hexValue_upperHexDigit _ hlow]
      show some (16 * (b.toNat / 16) + b.toNat % 16).toUInt8 = some b
      rw [Nat.div_add_mod, Nat.toUInt8, UInt8.ofNat_toNat]
    rw [if_neg hsafe]
    show (match hexByte (upperHexDigit (b.toNat / 16)).toNat.toUInt8
        (upperHexDigit (b.toNat % 16)).toNat.toUInt8 with
      | some x => x :: unquoteToBytes rest
      | none => _) = _
    rw [hbyte]

theorem utf8Encode_append (s t : Str) : utf8Encode (s ++ t) = utf8Encode s ++ utf8Encode t :=
  List.flatMap_append

/-- Quoted octets are read back by `unquote_to_bytes`. -/
theorem unquoteToBytes_quote (data : Bytes) : unquoteToBytes (utf8Encode (quote data)) = data := by
  induction data with
  | nil => rfl
  | cons b data ih =>
    rw [quote, List.flatMap_cons, ← quote, utf8Encode_append, unquoteToBytes_quoteByte, ih]

theorem plusToSpace_of_plain {s : Str} (h : PlainText s) : plusToSpace s = s := by
  refine (List.map_congr_left fun c hc => ?_).trans (List.map_id s)
  exact if_neg (h c hc).2.2.2.1

/-- ASCII text is unquoted as a whole. -/
theorem unquote_of_ascii {s : Str} (h : ∀ c ∈ s, c.toNat < 128) :
    unquote s = utf8DecodeReplace (unquoteToBytes (utf8Encode s)) := by
  cases s with
  | nil => rfl
  | cons c s =>
    have hascii (d : Char) (hd : d ∈ c :: s) : isAscii d = true := decide_eq_true (h d hd)
    have hsplit : (c :: s).splitBy (fun a b => isAscii a == isAscii b) = [c :: s] := by
      refine List.splitBy_of_isChain (by simp) (List.pairwise_of_forall_mem_list ?_).isChain
      intro a ha b hb
      rw [hascii a ha, hascii b hb]
      rfl
    have hall : (c :: s).all isAscii = true := List.all_eq_true.mpr hascii
    rw [unquote, hsplit, List.flatMap_singleton, if_pos hall]

/-- Quoted octets come out of `unquote` decoded. -/
theorem unquote_quote (data : Bytes) : unquote (quote data) = utf8DecodeReplace data := by
  rw [unquote_of_ascii fun c hc => (quote_plain data c hc).1, unquoteToBytes_quote]

/-- Plain text without percent signs stays as it is. -/
theorem unquote_of_notMem {s : Str} (h : ∀ c ∈ s, c.toNat < 128) (hpercent : '%' ∉ s) :
    unquote s = s := by
  have hbytes : (0x25 : UInt8) ∉ utf8Encode s := by
    rw [utf8Encode_of_lt h]
    intro hmem
    obtain ⟨c, hc, hoctet⟩ := List.mem_map.mp hmem
    have hvalue : c.toNat = 0x25 := by
      have := congrArg UInt8.toNat hoctet
      rwa [Nat.toUInt8, UInt8.toNat_ofNat', Nat.mod_eq_of_lt ((h c hc).trans (by decide))] at this
    have hchar : c = '%' := by rw [← Char.ofNat_toNat c, hvalue]
    exact hpercent (hchar ▸ hc)
  rw [unquote_of_ascii h, unquoteToBytes_of_notMem hbytes,
    utf8DecodeReplace_of_decode (utf8Decode_utf8Encode s)]

/-- Quoted text is read back. -/
theorem unquote_quoteText (text : Str) : unquote (plusToSpace (quoteText text)) = text := by
  rw [quoteText, plusToSpace_of_plain (quote_plain _), unquote_quote,
    utf8DecodeReplace_of_decode (utf8Decode_utf8Encode text)]

end QuoteLemmas

section Safe

/-- What `quote` writes for an octet when it is told to leave these characters as they are. -/
def quoteByteWith (safe : Str) (b : UInt8) : Str :=
  if Char.ofNat b.toNat ∈ safe then [Char.ofNat b.toNat] else quoteByte b

def quoteChar (safe : Str) (c : Char) : Str :=
  (String.utf8EncodeChar c).flatMap (quoteByteWith safe)

/-- `quote(text, safe)` -/
def quoteWith (safe text : Str) : Str := text.flatMap (quoteChar safe)

theorem quoteWith_append (safe s t : Str) :
    quoteWith safe (s ++ t) = quoteWith safe s ++ quoteWith safe t :=
  List.flatMap_append

/-- The signs of a quoted octet that are not the octet itself. -/
def IsEscape (c : Char) : Prop := c ∈ "%0123456789ABCDEF".toList

instance (c : Char) : Decidable (IsEscape c) := inferInstanceAs (Decidable (_ ∈ _))

variable {safe text : Str} {a c : Char}

theorem upperHexDigit_escape : ∀ n < 16, IsEscape (upperHexDigit n) := by decide

theorem mem_quoteByte {b : UInt8} (h : c ∈ quoteByte b) :
    c = Char.ofNat b.toNat ∧ isAlwaysSafe b = true ∨ IsEscape c := by
  rw [quoteByte] at h
  split at h
  · next hsafe => exact .inl ⟨List.mem_singleton.mp h, hsafe⟩
  · have hb := b.toNat_lt
    simp only [List.mem_cons, List.not_mem_nil, or_false] at h
    rcases h with rfl | rfl | rfl
    · exact .inr (by decide)
    · exact .inr (upperHexDigit_escape _ (by omega))
    · exact .inr (upperHexDigit_escape _ (by omega))

theorem utf8EncodeChar_of_lt (h : c.toNat < 128) :
    String.utf8EncodeChar c = [c.toNat.toUInt8] := by
  have hencode := utf8Encode_of_lt (s := [c]) fun d hd => List.mem_singleton.mp hd ▸ h
  rwa [utf8Encode, List.flatMap_singleton] at hencode

theorem ofNat_toUInt8 (h : c.toNat < 128) : Char.ofNat c.toNat.toUInt8.toNat = c := by
  rw [Nat.toUInt8, UInt8.toNat_ofNat', Nat.mod_eq_of_lt (by omega), Char.ofNat_toNat]

/-- The octets of a character outside ASCII are outside ASCII. -/
theorem le_of_mem_utf8EncodeChar (h : 128 ≤ c.toNat) {b : UInt8}
    (hb : b ∈ String.utf8EncodeChar c) : 128 ≤ b.toNat := by
  have hv : c.val.toNat = c.toNat := rfl
  have hoctet : ∀ n k : Nat, 128 ≤ k → n + k < 256 → 128 ≤ (UInt8.ofNat (n + k)).toNat := by
    intro n k hk hlt
    rw [UInt8.toNat_ofNat', Nat.mod_eq_of_lt hlt]
    omega
  unfold String.utf8EncodeChar at hb
  simp only [hv] at hb
  split at hb
  · omega
  · split at hb
    · simp only [List.mem_cons, List.not_mem_nil, or_false] at hb
      rcases hb with rfl | rfl <;> exact hoctet _ _ (by omega) (by omega)
    · split at hb
      · simp only [List.mem_cons, List.not_mem_nil, or_false] at hb
        rcases hb with rfl | rfl | rfl <;> exact hoctet _ _ (by omega) (by omega)
      · simp only [List.mem_cons, List.not_mem_nil, or_false] at hb
        rcases hb with rfl | rfl | rfl | rfl <;> exact hoctet _ _ (by omega) (by omega)

set_option maxRecDepth 4000 in
theorem lt_of_isAlwaysSafe : ∀ b, isAlwaysSafe b = true → b.toNat < 128 :=
  forall_octets (by decide)

set_option maxRecDepth 4000 in
theorem lt_of_mem_quoteByte : ∀ b, ∀ c ∈ quoteByte b, 0x20 < c.toNat :=
  forall_octets (by decide)

set_option maxRecDepth 4000 in
theorem toNat_ofNat_octet : ∀ b : UInt8, (Char.ofNat b.toNat).toNat = b.toNat :=
  forall_octets (by decide)

set_option maxRecDepth 4000 in
theorem eq_percent_of_octet : ∀ b : UInt8, b = 0x25 → Char.ofNat b.toNat = '%' :=
  forall_octets (by decide)

/-- A quoted text has no signs but the ones that are left as they are and plain ones. -/
theorem mem_quoteWith (h : a ∈ quoteWith safe text) : a ∈ safe ∨ IsPlain a ∧ 0x20 < a.toNat := by
  obtain ⟨c, -, hc⟩ := List.mem_flatMap.mp h
  obtain ⟨b, -, hb⟩ := List.mem_flatMap.mp hc
  rw [quoteByteWith] at hb
  split at hb
  · next hsafe => exact .inl (List.mem_singleton.mp hb ▸ hsafe)
  · exact .inr ⟨quoteByte_plain b a hb, lt_of_mem_quoteByte b a hb⟩

/-- Signs that `quote` can leave as they are: ASCII, without the percent sign. -/
def SafeSigns (safe : Str) : Prop := ∀ c ∈ safe, c.toNat < 128 ∧ c ≠ '%'

instance (safe : Str) : Decidable (SafeSigns safe) := inferInstanceAs (Decidable (∀ c ∈ safe, _))

theorem quoteChar_of_lt (h : c.toNat < 128) :
    quoteChar safe c = quoteByteWith safe c.toNat.toUInt8 := by
  rw [quoteChar, utf8EncodeChar_of_lt h, List.flatMap_singleton]

/-- A sign that is left as it is. -/
theorem SafeSigns.quoteChar_of_mem (hsafe : SafeSigns safe) (h : c ∈ safe) :
    quoteChar safe c = [c] := by
  have hlt := (hsafe c h).1
  rw [quoteChar_of_lt hlt, quoteByteWith, ofNat_toUInt8 hlt, if_pos h]

/-- Quoting brings in nothing but escapes. -/
theorem SafeSigns.mem_quoteChar (hsafe : SafeSigns safe) (h : a ∈ quoteChar safe c) :
    a = c ∧ a.toNat < 128 ∨ IsEscape a := by
  by_cases hlt : c.toNat < 128
  · rw [quoteChar_of_lt hlt, quoteByteWith, ofNat_toUInt8 hlt] at h
    split at h
    · obtain rfl := List.mem_singleton.mp h
      exact .inl ⟨rfl, hlt⟩
    · rcases mem_quoteByte h with ⟨ha, -⟩ | ha
      · obtain rfl := ha.trans (ofNat_toUInt8 hlt)
        exact .inl ⟨rfl, hlt⟩
      · exact .inr ha
  · obtain ⟨b, hb, hmem⟩ := List.mem_flatMap.mp h
    have hle := le_of_mem_utf8EncodeChar (Nat.le_of_not_lt hlt) hb
    have htoNat := toNat_ofNat_octet b
    have hnot : Char.ofNat b.toNat ∉ safe := by
      intro hin
      have := (hsafe _ hin).1
      omega
    rw [quoteByteWith, if_neg hnot] at hmem
    rcases mem_quoteByte hmem with ⟨-, halways⟩ | ha
    · have := lt_of_isAlwaysSafe b halways
      omega
    · exact .inr ha

theorem IsEscape.lt (h : IsEscape c) : c.toNat < 128 := by
  have hall : ∀ c ∈ "%0123456789ABCDEF".toList, c.toNat < 128 := by decide
  exact hall c h

section Separators

variable {f : Char → Str} {l : Str}

theorem splitOn_append_of_notMem {pre : Str} (h : a ∉ pre) (l : Str) :
    (pre ++ l).splitOn a = (l.splitOn a).modifyHead (pre ++ ·) := by
  induction pre with
  | nil =>
    rw [List.nil_append]
    cases l.splitOn a <;> rfl
  | cons c pre ih =>
    rw [List.mem_cons, not_or] at h
    rw [List.cons_append, List.splitOn_cons_eq_if_modifyHead, ih h.2,
      if_neg (by simpa using Ne.symm h.1)]
    cases l.splitOn a <;> rfl

/-- Where a sign stands for itself and comes from nothing else, a text can be split at it before or
after the other signs are replaced. -/
theorem splitOn_flatMap (hself : f a = [a]) (honly : ∀ c, a ∈ f c → c = a) :
    (l.flatMap f).splitOn a = (l.splitOn a).map (List.flatMap f) := by
  induction l with
  | nil => rfl
  | cons c l ih =>
    rw [List.flatMap_cons, List.splitOn_cons_eq_if_modifyHead]
    by_cases hc : c = a
    · subst hc
      rw [hself, List.singleton_append, List.splitOn_cons_eq_if_modifyHead, if_pos (by simp),
        if_pos (by simp), ih]
      rfl
    · rw [splitOn_append_of_notMem fun hmem => hc (honly c hmem), ih, if_neg (by simpa using hc)]
      cases l.splitOn a with
      | nil => rfl
      | cons piece pieces => simp

theorem takeWhile_flatMap (hself : f a = [a]) (honly : ∀ c, a ∈ f c → c = a) :
    (l.flatMap f).takeWhile (· ≠ a) = (l.takeWhile (· ≠ a)).flatMap f := by
  induction l with
  | nil => rfl
  | cons c l ih =>
    by_cases hc : c = a
    · subst hc
      rw [List.flatMap_cons, hself]
      simp
    · have hall : ∀ d ∈ f c, decide (d ≠ a) = true := by
        intro d hd
        rw [decide_eq_true_eq]
        rintro rfl
        exact hc (honly c hd)
      rw [List.flatMap_cons, List.takeWhile_append_of_pos hall, ih,
        List.takeWhile_cons_of_pos (by simpa using hc), List.flatMap_cons]

theorem dropWhile_flatMap (hself : f a = [a]) (honly : ∀ c, a ∈ f c → c = a) :
    (l.flatMap f).dropWhile (· ≠ a) = (l.dropWhile (· ≠ a)).flatMap f := by
  induction l with
  | nil => rfl
  | cons c l ih =>
    by_cases hc : c = a
    · subst hc
      rw [List.flatMap_cons, hself, List.dropWhile_cons_of_neg (by simp), List.flatMap_cons, hself]
      simp
    · have hall : ∀ d ∈ f c, decide (d ≠ a) = true := by
        intro d hd
        rw [decide_eq_true_eq]
        rintro rfl
        exact hc (honly c hd)
      rw [List.flatMap_cons, List.dropWhile_append_of_pos hall, ih,
        List.dropWhile_cons_of_pos (by simpa using hc)]

theorem notMem_of_mem_splitOn {piece : Str} (h : piece ∈ l.splitOn a) : a ∉ piece := by
  induction l generalizing piece with
  | nil =>
    rw [List.splitOn_nil, List.mem_singleton] at h
    rw [h]
    exact List.not_mem_nil
  | cons c l ih =>
    rw [List.splitOn_cons_eq_if_modifyHead] at h
    split at h
    · rcases List.mem_cons.mp h with rfl | h
      · exact List.not_mem_nil
      · exact ih h
    · next hc =>
      cases hsplit : l.splitOn a with
      | nil => exact absurd hsplit (List.splitOn_ne_nil a l)
      | cons first pieces =>
        rw [hsplit, List.modifyHead_cons] at h
        rw [hsplit] at ih
        rcases List.mem_cons.mp h with rfl | h
        · rw [List.mem_cons, not_or]
          exact ⟨fun heq => hc (by simp [heq]), ih List.mem_cons_self⟩
        · exact ih (List.mem_cons_of_mem _ h)

/-- The pieces of a text have its signs. -/
theorem mem_of_mem_splitOn {piece : Str} (h : piece ∈ l.splitOn a) (hc : c ∈ piece) : c ∈ l := by
  have hjoin : ∀ texts : List Str, piece ∈ texts → c ∈ [a].intercalate texts := by
    intro texts htexts
    induction texts with
    | nil => cases htexts
    | cons text texts ih =>
      by_cases hnil : texts = []
      · subst hnil
        rwa [List.intercalate_singleton, ← List.mem_singleton.mp htexts]
      · rw [List.intercalate_cons_of_ne_nil hnil, List.append_assoc, List.mem_append]
        rcases List.mem_cons.mp htexts with rfl | htexts
        · exact .inl hc
        · exact .inr (List.mem_append_right _ (ih htexts))
  have hmem := hjoin _ h
  rwa [List.intercalate_splitOn] at hmem

end Separators

section Unquote

/-- A plus sign that has been left as it is comes back as a blank. -/
def readSign (safe : Str) (c : Char) : Char := if c = '+' ∧ '+' ∈ safe then ' ' else c

theorem SafeSigns.unquoteToBytes_quoteByteWith (hsafe : SafeSigns safe) (b : UInt8) (rest : Bytes) :
    unquoteToBytes (utf8Encode (quoteByteWith safe b) ++ rest) = b :: unquoteToBytes rest := by
  rw [quoteByteWith]
  split
  · next h =>
    obtain ⟨hlt, hne⟩ := hsafe _ h
    have hb : (Char.ofNat b.toNat).toNat.toUInt8 = b := by
      rw [toNat_ofNat_octet]
      exact UInt8.ofNat_toNat
    have hencode : utf8Encode [Char.ofNat b.toNat] = [b] := by
      rw [utf8Encode_of_lt fun c hc => List.mem_singleton.mp hc ▸ hlt, List.map_singleton, hb]
    rw [hencode]
    exact unquoteToBytes_cons_of_ne (fun h => hne (eq_percent_of_octet b h)) rest
  · exact unquoteToBytes_quoteByte b rest

theorem SafeSigns.unquoteToBytes_flatMap (hsafe : SafeSigns safe) (data rest : Bytes) :
    unquoteToBytes (utf8Encode (data.flatMap (quoteByteWith safe)) ++ rest) =
      data ++ unquoteToBytes rest := by
  induction data with
  | nil => rfl
  | cons b data ih =>
    rw [List.flatMap_cons, utf8Encode_append, List.append_assoc,
      hsafe.unquoteToBytes_quoteByteWith, ih, List.cons_append]

theorem plusToSpace_of_notMem {s : Str} (h : '+' ∉ s) : plusToSpace s = s := by
  refine (List.map_congr_left fun c hc => if_neg ?_).trans (List.map_id s)
  rintro rfl
  exact h hc

/-- A quoted character is read back. -/
theorem SafeSigns.unquoteToBytes_quoteChar (hsafe : SafeSigns safe) (c : Char) (rest : Bytes) :
    unquoteToBytes (utf8Encode (plusToSpace (quoteChar safe c)) ++ rest) =
      String.utf8EncodeChar (readSign safe c) ++ unquoteToBytes rest := by
  by_cases hplus : c = '+' ∧ '+' ∈ safe
  · obtain ⟨rfl, hmem⟩ := hplus
    rw [hsafe.quoteChar_of_mem hmem, readSign, if_pos ⟨rfl, hmem⟩]
    exact unquoteToBytes_cons_of_ne (by decide) rest
  · have hnot : '+' ∉ quoteChar safe c := by
      intro hmem
      rcases hsafe.mem_quoteChar hmem with ⟨rfl, -⟩ | hescape
      · have hsign : Char.ofNat '+'.toNat.toUInt8.toNat ∉ safe := fun h => hplus ⟨rfl, h⟩
        rw [quoteChar_of_lt (by decide), quoteByteWith, if_neg hsign] at hmem
        exact absurd hmem (by decide)
      · exact absurd hescape (by decide)
    rw [plusToSpace_of_notMem hnot, readSign, if_neg hplus]
    exact hsafe.unquoteToBytes_flatMap _ rest

theorem SafeSigns.unquoteToBytes_quoteWith (hsafe : SafeSigns safe) (text : Str) :
    unquoteToBytes (utf8Encode (plusToSpace (quoteWith safe text))) =
      utf8Encode (text.map (readSign safe)) := by
  induction text with
  | nil => rfl
  | cons c text ih =>
    have hsplit : plusToSpace (quoteWith safe (c :: text)) =
        plusToSpace (quoteChar safe c) ++ plusToSpace (quoteWith safe text) := by
      rw [quoteWith, List.flatMap_cons, plusToSpace, List.map_append]
      rfl
    rw [hsplit, utf8Encode_append, hsafe.unquoteToBytes_quoteChar, ih, List.map_cons,
      utf8Encode_cons]

theorem SafeSigns.quoteWith_lt (hsafe : SafeSigns safe) (h : c ∈ quoteWith safe text) :
    c.toNat < 128 := by
  obtain ⟨d, -, hd⟩ := List.mem_flatMap.mp h
  rcases hsafe.mem_quoteChar hd with ⟨-, hlt⟩ | hescape
  · exact hlt
  · exact hescape.lt

/-- Quoted text comes back, but for plus signs that have been left as they are. -/
theorem SafeSigns.unquote_quoteWith (hsafe : SafeSigns safe) (text : Str) :
    unquote (plusToSpace (quoteWith safe text)) = text.map (readSign safe) := by
  have hascii : ∀ c ∈ plusToSpace (quoteWith safe text), c.toNat < 128 := by
    intro c hc
    obtain ⟨d, hd, rfl⟩ := List.mem_map.mp hc
    split
    · decide
    · exact hsafe.quoteWith_lt hd
  rw [unquote_of_ascii hascii, hsafe.unquoteToBytes_quoteWith,
    utf8DecodeReplace_of_decode (utf8Decode_utf8Encode _)]

theorem SafeSigns.quoteWith_ne_nil (hsafe : SafeSigns safe) (h : text ≠ []) :
    quoteWith safe text ≠ [] := by
  intro hnil
  have hback := hsafe.unquote_quoteWith text
  rw [hnil] at hback
  exact h (List.map_eq_nil_iff.mp hback.symm)

/-- A sign that is no escape is in the quoted text only if it is in the text. -/
theorem SafeSigns.mem_quoteWith (hsafe : SafeSigns safe) (ha : ¬IsEscape a)
    (h : a ∈ quoteWith safe text) : a ∈ text := by
  obtain ⟨c, hc, hmem⟩ := List.mem_flatMap.mp h
  rcases hsafe.mem_quoteChar hmem with ⟨rfl, -⟩ | hescape
  · exact hc
  · exact absurd hescape ha

end Unquote

end Safe

section QueryLemmas

/-- A field of a query as it is written. -/
def queryField (field : Str × Str) : Str := field.1 ++ '=' :: field.2

theorem rawField_queryField {field : Str × Str} (hname : '=' ∉ field.1) (hvalue : field.2 ≠ []) :
    rawField (queryField field) = some field := by
  have hplain : ∀ c ∈ field.1, decide (c ≠ '=') = true := by
    intro c hc
    rw [decide_eq_true_eq]
    rintro rfl
    exact hname hc
  have hdrop : ((queryField field).dropWhile (· ≠ '=')).drop 1 = field.2 := by
    rw [queryField, List.dropWhile_append_of_pos hplain]
    rfl
  have htake : (queryField field).takeWhile (· ≠ '=') = field.1 := by
    rw [queryField, List.takeWhile_append_of_pos hplain]
    simp
  rw [rawField, hdrop, htake, if_neg hvalue]

theorem queryGet_eq (qs name : Str) :
    queryGet qs name = (rawGet qs name).map fun value => unquote (plusToSpace value) := by
  rw [queryGet, parseQsl, rawGet]
  induction rawFields qs with
  | nil => rfl
  | cons field fields ih =>
    rw [List.map_cons, List.map_cons, List.lookup_cons, List.lookup_cons, ih]
    cases name == unquote (plusToSpace field.1) <;> rfl

/-- The names and the values of a query can be written into it as they are. -/
structure PlainFields (fields : List (Str × Str)) : Prop where
  names : ∀ field ∈ fields, PlainText field.1 ∧ '%' ∉ field.1
  values : ∀ field ∈ fields, PlainText field.2 ∧ field.2 ≠ []

variable {fields : List (Str × Str)}

theorem mem_intercalate {texts : List Str} {separator : Str} {c : Char}
    (h : c ∈ separator.intercalate texts) : c ∈ separator ∨ ∃ text ∈ texts, c ∈ text := by
  induction texts with
  | nil => cases h
  | cons text texts ih =>
    cases texts with
    | nil => exact .inr ⟨text, List.mem_singleton_self _, by rwa [List.intercalate_singleton] at h⟩
    | cons text' texts =>
      rw [List.intercalate_cons_cons, List.append_assoc] at h
      rcases List.mem_append.mp h with h | h
      · exact .inr ⟨text, List.mem_cons_self, h⟩
      · rcases List.mem_append.mp h with h | h
        · exact .inl h
        · rcases ih h with h | ⟨t, ht, hc⟩
          · exact .inl h
          · exact .inr ⟨t, List.mem_cons_of_mem _ ht, hc⟩

/-- A text in front of the first part is in front of all of them. -/
theorem intercalate_append_cons (separator pre text : Str) (texts : List Str) :
    separator.intercalate ((pre ++ text) :: texts) =
      pre ++ separator.intercalate (text :: texts) := by
  by_cases hnil : texts = []
  · subst hnil
    rw [List.intercalate_singleton, List.intercalate_singleton]
  · rw [List.intercalate_cons_of_ne_nil hnil, List.intercalate_cons_of_ne_nil hnil]
    simp only [List.append_assoc]

theorem intercalate_append {separator : Str} {texts texts' : List Str} (h : texts ≠ [])
    (h' : texts' ≠ []) : separator.intercalate (texts ++ texts') =
      separator.intercalate texts ++ separator ++ separator.intercalate texts' := by
  induction texts with
  | nil => exact absurd rfl h
  | cons text texts ih =>
    by_cases hnil : texts = []
    · subst hnil
      rw [List.singleton_append, List.intercalate_cons_of_ne_nil h', List.intercalate_singleton]
    · rw [List.cons_append, List.intercalate_cons_of_ne_nil (by simp [hnil]), ih hnil,
        List.intercalate_cons_of_ne_nil hnil]
      simp only [List.append_assoc]

/-- A written query has the signs of its fields, and those that divide it. -/
theorem PlainFields.mem_query (h : PlainFields fields) {c : Char}
    (hc : c ∈ ['&'].intercalate (fields.map queryField)) : c ≠ '#' := by
  rcases mem_intercalate hc with hc | ⟨text, htext, hc⟩
  · rw [List.mem_singleton.mp hc]
    decide
  · obtain ⟨field, hfield, rfl⟩ := List.mem_map.mp htext
    rcases List.mem_append.mp hc with hc | hc
    · exact ((h.names field hfield).1 c hc).2.2.2.2
    · rcases List.mem_cons.mp hc with rfl | hc
      · decide
      · exact ((h.values field hfield).1 c hc).2.2.2.2

/-- The fields of a query are found as they have been written, if no sign in them divides it. -/
theorem rawFields_intercalate (h : ∀ field ∈ fields, '=' ∉ field.1 ∧ '&' ∉ field.1 ∧
    '&' ∉ field.2 ∧ field.2 ≠ []) (hne : fields ≠ []) :
    rawFields (['&'].intercalate (fields.map queryField)) = fields := by
  have hsplit : (['&'].intercalate (fields.map queryField)).splitOn '&' =
      fields.map queryField := by
    refine List.splitOn_intercalate '&' (fun text htext hmem => ?_) (by simpa using hne)
    obtain ⟨field, hfield, rfl⟩ := List.mem_map.mp htext
    obtain ⟨-, hname, hvalue, -⟩ := h field hfield
    rcases List.mem_append.mp hmem with hmem | hmem
    · exact hname hmem
    · rcases List.mem_cons.mp hmem with hmem | hmem
      · exact absurd hmem (by decide)
      · exact hvalue hmem
  rw [rawFields, hsplit, List.filterMap_map, List.filterMap_congr (g := some),
    List.filterMap_some]
  intro field hfield
  exact rawField_queryField (h field hfield).1 (h field hfield).2.2.2

theorem PlainFields.rawFields_eq (h : PlainFields fields) (hne : fields ≠ []) :
    rawFields (['&'].intercalate (fields.map queryField)) = fields := by
  refine rawFields_intercalate (fun field hfield => ⟨fun hmem => ?_, fun hmem => ?_,
    fun hmem => ?_, (h.values field hfield).2⟩) hne
  · exact ((h.names field hfield).1 _ hmem).2.2.1 rfl
  · exact ((h.names field hfield).1 _ hmem).2.1 rfl
  · exact ((h.values field hfield).1 _ hmem).2.1 rfl

theorem PlainFields.rawGet_eq (h : PlainFields fields) (hne : fields ≠ []) (name : Str) :
    rawGet (['&'].intercalate (fields.map queryField)) name = fields.lookup name := by
  rw [rawGet, h.rawFields_eq hne]
  congr 1
  refine (List.map_congr_left fun field hfield => ?_).trans (List.map_id fields)
  obtain ⟨hname, hpercent⟩ := h.names field hfield
  rw [plusToSpace_of_plain hname, unquote_of_notMem (fun c hc => (hname c hc).1) hpercent]
  rfl

end QueryLemmas

theorem rawFields_append (qs rest : Str) :
    rawFields (qs ++ '&' :: rest) = rawFields qs ++ rawFields rest := by
  rw [rawFields, List.splitOn_append_cons_self, List.filterMap_append]
  rfl

/-- Where separators, too, are left as they are, they come back in no value. -/
theorem SafeSigns.mem_parseQsl_quoteWith {safe text : Str} (hsafe : SafeSigns safe)
    (hsigns : ∀ c ∈ ['&', '=', '+'], c ∈ safe) {field : Str × Str}
    (h : field ∈ parseQsl (quoteWith safe text)) :
    '&' ∉ field.2 ∧ '+' ∉ field.2 ∧ ∀ c ∈ field.2, c ∈ text ∨ c = ' ' := by
  have honly : ∀ a ∈ ['&', '='], ∀ c, a ∈ quoteChar safe c → c = a := by
    intro a ha c hmem
    rcases hsafe.mem_quoteChar hmem with ⟨heq, -⟩ | hescape
    · exact heq.symm
    · have hnot : ∀ a ∈ ['&', '='], ¬IsEscape a := by decide
      exact absurd hescape (hnot a ha)
  have hself : ∀ a ∈ ['&', '='], quoteChar safe a = [a] := fun a ha =>
    hsafe.quoteChar_of_mem (hsigns a (List.mem_append_left ['+'] ha))
  obtain ⟨raw, hraw, rfl⟩ := List.mem_map.mp h
  obtain ⟨name_value, hmem, hfield⟩ := List.mem_filterMap.mp hraw
  rw [quoteWith, splitOn_flatMap (hself '&' (by decide)) (honly '&' (by decide))] at hmem
  obtain ⟨piece, hpiece, rfl⟩ := List.mem_map.mp hmem
  have hvalue : raw.2 = quoteWith safe ((piece.dropWhile (· ≠ '=')).drop 1) := by
    rw [rawField, dropWhile_flatMap (hself '=' (by decide)) (honly '=' (by decide))] at hfield
    split at hfield
    · cases hfield
    · rw [← Option.some.inj hfield]
      dsimp only
      cases hdrop : piece.dropWhile (· ≠ '=') with
      | nil => rfl
      | cons c rest =>
        have hhead : c = '=' := by
          have hnot := List.head?_dropWhile_not (· ≠ '=') piece
          rw [hdrop] at hnot
          simpa using hnot
        rw [List.flatMap_cons, hhead, hself '=' (by decide)]
        rfl
  have hsub : ∀ c ∈ (piece.dropWhile (· ≠ '=')).drop 1, c ∈ piece := fun c hc =>
    (List.dropWhile_sublist _).subset (List.mem_of_mem_drop hc)
  rw [hvalue, hsafe.unquote_quoteWith]
  have hback : ∀ c ∈ ((piece.dropWhile (· ≠ '=')).drop 1).map (readSign safe),
      c ≠ '+' ∧ (c ∈ piece ∨ c = ' ') := by
    intro c hc
    obtain ⟨d, hd, rfl⟩ := List.mem_map.mp hc
    rw [readSign]
    split
    · exact ⟨by decide, .inr rfl⟩
    · next hplus =>
      exact ⟨fun heq => hplus ⟨heq, hsigns '+' (by decide)⟩, .inl (hsub d hd)⟩
  refine ⟨fun hand => ?_, fun hplus => (hback _ hplus).1 rfl, fun c hc => ?_⟩
  · rcases (hback _ hand).2 with hin | hblank
    · exact notMem_of_mem_splitOn hpiece hin
    · exact absurd hblank (by decide)
  · refine (hback c hc).2.imp_left fun hin => ?_
    exact mem_of_mem_splitOn hpiece hin

/-- Where the separator is left as it is, a query can be quoted as one text. -/
theorem SafeSigns.quoteWith_intercalate {safe : Str} (hsafe : SafeSigns safe) (hmem : '&' ∈ safe)
    (texts : List Str) : quoteWith safe (['&'].intercalate texts) =
      ['&'].intercalate (texts.map (quoteWith safe)) := by
  have hself : quoteWith safe ['&'] = ['&'] := by
    rw [quoteWith, List.flatMap_singleton, hsafe.quoteChar_of_mem hmem]
  induction texts with
  | nil => rfl
  | cons text texts ih =>
    by_cases hnil : texts = []
    · subst hnil
      rw [List.map_singleton, List.intercalate_singleton, List.intercalate_singleton]
    · rw [List.intercalate_cons_of_ne_nil hnil, List.map_cons,
        List.intercalate_cons_of_ne_nil (by simpa using hnil), quoteWith_append, quoteWith_append,
        ih, hself]

section QuotedFields

/-- The field of a query for a name and a value. By the name it is known which signs of the value
are left as they are. -/
def quotedField (safe : Str → Str) (field : Str × Str) : Str × Str :=
  (field.1, quoteWith (safe field.1) field.2)

/-- `"&".join(f"{name}={quote(value, safe)}" ...)` -/
def quotedQuery (safe : Str → Str) (fields : List (Str × Str)) : Str :=
  ['&'].intercalate ((fields.map (quotedField safe)).map queryField)

/-- Fields whose names are written as they are. -/
structure QuotedFields (safe : Str → Str) (fields : List (Str × Str)) : Prop where
  names : ∀ field ∈ fields, ∀ c ∈ field.1, IsPlain c ∧ c ≠ '%' ∧ 0x20 < c.toNat
  values : ∀ field ∈ fields, field.2 ≠ []
  signs : ∀ field ∈ fields, SafeSigns (safe field.1)
  printable : ∀ field ∈ fields, ∀ c ∈ safe field.1, 0x20 < c.toNat

variable {safe : Str → Str} {fields : List (Str × Str)} {c : Char}

/-- The signs of a query. -/
theorem mem_quotedQuery (h : c ∈ quotedQuery safe fields) :
    c = '&' ∨ c = '=' ∨ ∃ field ∈ fields, c ∈ field.1 ∨ c ∈ quoteWith (safe field.1) field.2 := by
  rcases mem_intercalate h with h | ⟨text, htext, h⟩
  · exact .inl (List.mem_singleton.mp h)
  · rw [List.map_map] at htext
    obtain ⟨field, hfield, rfl⟩ := List.mem_map.mp htext
    rcases List.mem_append.mp h with h | h
    · exact .inr (.inr ⟨field, hfield, .inl h⟩)
    · rcases List.mem_cons.mp h with h | h
      · exact .inr (.inl h)
      · exact .inr (.inr ⟨field, hfield, .inr h⟩)

theorem QuotedFields.printable_query (h : QuotedFields safe fields) :
    ∀ c ∈ quotedQuery safe fields, 0x20 < c.toNat := by
  intro c hc
  rcases mem_quotedQuery hc with rfl | rfl | ⟨field, hfield, hname | hvalue⟩
  · decide
  · decide
  · exact (h.names field hfield c hname).2.2
  · rcases mem_quoteWith hvalue with hsafe | ⟨-, hlt⟩
    · exact h.printable field hfield c hsafe
    · exact hlt

/-- A sign that divides a query is in a quoted value only if it is left as it is. -/
theorem QuotedFields.mem_safe (h : QuotedFields safe fields) {field : Str × Str}
    (hfield : field ∈ fields) (hsign : c ∈ ['&', '#', '+'])
    (hc : c ∈ quoteWith (safe field.1) field.2) : c ∈ safe field.1 ∧ c ∈ field.2 := by
  have hnot : ∀ c ∈ ['&', '#', '+'], ¬IsPlain c ∧ ¬IsEscape c := by decide
  obtain ⟨hplain, hescape⟩ := hnot c hsign
  refine ⟨?_, (h.signs field hfield).mem_quoteWith hescape hc⟩
  rcases mem_quoteWith hc with hsafe | ⟨hmem, -⟩
  · exact hsafe
  · exact absurd hmem hplain

/-- A query is read back, if no sign that divides it or stands for a blank is left as it is. -/
theorem QuotedFields.parseQsl_eq (h : QuotedFields safe fields) (hne : fields ≠ [])
    (hsigns : ∀ field ∈ fields, ∀ c ∈ ['&', '#', '+'], c ∈ field.2 → c ∉ safe field.1) :
    parseQsl (quotedQuery safe fields) = fields := by
  have hnames : ∀ field ∈ fields, PlainText field.1 ∧ '%' ∉ field.1 := fun field hfield =>
    ⟨fun c hc => (h.names field hfield c hc).1, fun hc => (h.names field hfield _ hc).2.1 rfl⟩
  have hraw : rawFields (quotedQuery safe fields) = fields.map (quotedField safe) := by
    refine rawFields_intercalate (fun field hfield => ?_) (by simpa using hne)
    obtain ⟨f, hf, rfl⟩ := List.mem_map.mp hfield
    refine ⟨fun hmem => (((hnames f hf).1 _ hmem).2.2.1 rfl),
      fun hmem => ((hnames f hf).1 _ hmem).2.1 rfl, fun hmem => ?_,
      (h.signs f hf).quoteWith_ne_nil (h.values f hf)⟩
    obtain ⟨hsafe, hvalue⟩ := h.mem_safe hf (by decide) hmem
    exact hsigns f hf '&' (by decide) hvalue hsafe
  rw [parseQsl, hraw, List.map_map]
  refine (List.map_congr_left fun field hfield => ?_).trans (List.map_id fields)
  obtain ⟨hplain, hpercent⟩ := hnames field hfield
  have hvalue : field.2.map (readSign (safe field.1)) = field.2 := by
    refine (List.map_congr_left fun c hc => if_neg ?_).trans (List.map_id _)
    rintro ⟨rfl, hsafe⟩
    exact hsigns field hfield '+' (by decide) hc hsafe
  show (unquote (plusToSpace field.1), unquote (plusToSpace (quoteWith (safe field.1) field.2))) =
    field
  rw [plusToSpace_of_plain hplain, unquote_of_notMem (fun c hc => (hplain c hc).1) hpercent,
    (h.signs field hfield).unquote_quoteWith, hvalue]

/-- What is in front of the first `#` of a query without one is all of it. -/
theorem QuotedFields.takeWhile_query (h : QuotedFields safe fields)
    (hsigns : ∀ field ∈ fields, ∀ c ∈ ['&', '#', '+'], c ∈ field.2 → c ∉ safe field.1) :
    (quotedQuery safe fields).takeWhile (· ≠ '#') = quotedQuery safe fields := by
  refine List.takeWhile_eq_self_iff.mpr fun c hc => ?_
  rw [decide_eq_true_eq]
  rintro rfl
  rcases mem_quotedQuery hc with hc | hc | ⟨field, hfield, hname | hvalue⟩
  · exact absurd hc (by decide)
  · exact absurd hc (by decide)
  · exact (h.names field hfield _ hname).1.2.2.2.2 rfl
  · obtain ⟨hsafe, hmem⟩ := h.mem_safe hfield (by decide) hvalue
    exact hsigns field hfield '#' (by decide) hmem hsafe

end QuotedFields

end Python

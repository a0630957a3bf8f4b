import Ccbt.Python.Text

/-!
# Octets as text: `bytes.hex`, `bytes.fromhex` and the module `base64`

Two of the readers are lenient. `bytes.fromhex` skips white space between the octets, and
`b64decode` skips what is not in the alphabet, so they accept more than what the writers give. The
third one, `b32decode`, takes full groups only.
-/

namespace Python

section Hex

def hexChar (n : Nat) : Char := "0123456789abcdef".toList.getD n '0'

/-- `data.hex()` -/
def hexText (data : Bytes) : Str :=
  data.flatMap fun b => [hexChar (b.toNat / 16), hexChar (b.toNat % 16)]

def hexValue (c : Char) : Option Nat :=
  if '0' ≤ c ∧ c ≤ '9' then some (c.toNat - 48)
  else if 'a' ≤ c ∧ c ≤ 'f' then some (c.toNat - 87)
  else if 'A' ≤ c ∧ c ≤ 'F' then some (c.toNat - 55)
  else none

/-- `Py_ISSPACE` -/
def isAsciiSpace (c : Char) : Bool := (9 ≤ c.toNat && c.toNat ≤ 13) || c.toNat == 32

/-- `bytes.fromhex(s)`, or `none` where it raises `ValueError`. -/
def fromHex : Str → Option Bytes
  | [] => some []
  | [c] => if isAsciiSpace c then some [] else none
  | c :: d :: s =>
    if isAsciiSpace c then fromHex (d :: s)
    else match hexValue c, hexValue d, fromHex s with
      | some high, some low, some rest => some (UInt8.ofNat (16 * high + low) :: rest)
      | _, _, _ => none

theorem hexValue_hexChar : ∀ n < 16, hexValue (hexChar n) = some n ∧
    isAsciiSpace (hexChar n) = false := by decide

theorem length_hexText (data : Bytes) : (hexText data).length = 2 * data.length := by
  have htwo : (data.map fun _ => 2).sum = data.length * 2 := by
    rw [List.map_const', List.sum_replicate_nat]
  rw [hexText, List.length_flatMap, Nat.mul_comm]
  exact htwo

theorem isAlphanum_of_mem_hexText {data : Bytes} {c : Char} (h : c ∈ hexText data) :
    c.isAlphanum = true := by
  have hdigit : ∀ n < 16, (hexChar n).isAlphanum = true := by decide
  obtain ⟨b, -, hc⟩ := List.mem_flatMap.mp h
  have hb := b.toNat_lt
  rcases List.mem_pair.mp hc with rfl | rfl
  · exact hdigit _ (by omega)
  · exact hdigit _ (by omega)

/-- What is written in hexadecimal is read again. -/
theorem fromHex_hexText (data : Bytes) : fromHex (hexText data) = some data := by
  induction data with
  | nil => rfl
  | cons b data ih =>
    have hb := b.toNat_lt
    obtain ⟨hhigh, hspace⟩ := hexValue_hexChar (b.toNat / 16) (by omega)
    obtain ⟨hlow, -⟩ := hexValue_hexChar (b.toNat % 16) (by omega)
    have hoctet : UInt8.ofNat (16 * (b.toNat / 16) + b.toNat % 16) = b := by
      rw [Nat.div_add_mod, UInt8.ofNat_toNat]
    have htext : hexText (b :: data) =
        hexChar (b.toNat / 16) :: hexChar (b.toNat % 16) :: hexText data := rfl
    rw [htext, fromHex, hspace, if_neg Bool.false_ne_true, hhigh, hlow, ih]
    exact congrArg (fun x => some (x :: data)) hoctet

end Hex

section Base64

def base64Alphabet : Str :=
  "ABCDEFGHIJKLMNOPQRSTUVWXYZabcdefghijklmnopqrstuvwxyz0123456789+/".toList

def base64Char (n : Nat) : Char := base64Alphabet.getD n '='

def base64Value (c : Char) : Option Nat := base64Alphabet.idxOf? c

/-- `base64.b64encode(data).decode("utf-8")` -/
def b64encode : Bytes → Str
  | [] => []
  | [a] => [base64Char (a.toNat / 4), base64Char (a.toNat % 4 * 16), '=', '=']
  | [a, b] =>
    [base64Char (a.toNat / 4), base64Char (a.toNat % 4 * 16 + b.toNat / 16),
      base64Char (b.toNat % 16 * 4), '=']
  | a :: b :: c :: rest =>
    base64Char (a.toNat / 4) :: base64Char (a.toNat % 4 * 16 + b.toNat / 16) ::
      base64Char (b.toNat % 16 * 4 + c.toNat / 64) :: base64Char (c.toNat % 64) :: b64encode rest

/-- The loop of `binascii.a2b_base64`: the place in the group of four, the bits that are left over
and the padding so far. Padding that completes a group ends the text. -/
def a2bBase64 : Nat → Nat → Nat → Str → Option Bytes
  | quad_pos, _, _, [] => if quad_pos = 0 then some [] else none
  | quad_pos, leftchar, pads, c :: s =>
    if c = '=' then
      if quad_pos < 2 then a2bBase64 quad_pos leftchar pads s
      else if quad_pos + (pads + 1) ≥ 4 then some []
      else a2bBase64 quad_pos leftchar (pads + 1) s
    else match base64Value c with
      | none => a2bBase64 quad_pos leftchar pads s
      | some n => match quad_pos with
        | 0 => a2bBase64 1 n 0 s
        | 1 => (a2bBase64 2 (n % 16) 0 s).map (UInt8.ofNat (leftchar * 4 + n / 16) :: ·)
        | 2 => (a2bBase64 3 (n % 4) 0 s).map (UInt8.ofNat (leftchar * 16 + n / 4) :: ·)
        | _ => (a2bBase64 0 0 0 s).map (UInt8.ofNat (leftchar * 64 + n) :: ·)

/-- `base64.b64decode(s)`, or `none` where it raises: not ASCII, or not complete. -/
def b64decode (s : Str) : Option Bytes :=
  if s.all fun c => c.toNat < 128 then a2bBase64 0 0 0 s else none

theorem base64Value_char : ∀ n < 64, base64Value (base64Char n) = some n ∧ base64Char n ≠ '=' ∧
    (base64Char n).toNat < 128 := by decide

section Steps

variable {n leftchar pads : Nat} {s : Str}

/-- A character of the alphabet in each of the four places. -/
theorem a2b_first (hn : n < 64) :
    a2bBase64 0 leftchar pads (base64Char n :: s) = a2bBase64 1 n 0 s := by
  obtain ⟨hvalue, hpad, -⟩ := base64Value_char n hn
  rw [a2bBase64, if_neg hpad, hvalue]
  rfl

theorem a2b_second (hn : n < 64) : a2bBase64 1 leftchar pads (base64Char n :: s) =
    (a2bBase64 2 (n % 16) 0 s).map (UInt8.ofNat (leftchar * 4 + n / 16) :: ·) := by
  obtain ⟨hvalue, hpad, -⟩ := base64Value_char n hn
  rw [a2bBase64, if_neg hpad, hvalue]
  rfl

theorem a2b_third (hn : n < 64) : a2bBase64 2 leftchar pads (base64Char n :: s) =
    (a2bBase64 3 (n % 4) 0 s).map (UInt8.ofNat (leftchar * 16 + n / 4) :: ·) := by
  obtain ⟨hvalue, hpad, -⟩ := base64Value_char n hn
  rw [a2bBase64, if_neg hpad, hvalue]
  rfl

theorem a2b_fourth (hn : n < 64) : a2bBase64 3 leftchar pads (base64Char n :: s) =
    (a2bBase64 0 0 0 s).map (UInt8.ofNat (leftchar * 64 + n) :: ·) := by
  obtain ⟨hvalue, hpad, -⟩ := base64Value_char n hn
  rw [a2bBase64, if_neg hpad, hvalue]
  rfl

end Steps

theorem octet_eq {n : Nat} {b : UInt8} (h : n = b.toNat) : UInt8.ofNat n = b := by
  rw [h, UInt8.ofNat_toNat]

theorem a2bBase64_b64encode (data : Bytes) : a2bBase64 0 0 0 (b64encode data) = some data := by
  induction data using b64encode.induct with
  | case1 => rfl
  | case2 a =>
    have ha := a.toNat_lt
    rw [b64encode, a2b_first (by omega), a2b_second (by omega)]
    exact congrArg (fun x => some [x]) (octet_eq (by omega))
  | case3 a b =>
    have ha := a.toNat_lt
    have hb := b.toNat_lt
    rw [b64encode, a2b_first (by omega), a2b_second (by omega), a2b_third (by omega)]
    exact congrArg₂ (fun x y => some [x, y]) (octet_eq (by omega)) (octet_eq (by omega))
  | case4 a b c rest ih =>
    have ha := a.toNat_lt
    have hb := b.toNat_lt
    have hc := c.toNat_lt
    rw [b64encode, a2b_first (by omega), a2b_second (by omega), a2b_third (by omega),
      a2b_fourth (by omega), ih, Option.map_some, Option.map_some, Option.map_some]
    have hfirst : UInt8.ofNat (a.toNat / 4 * 4 + (a.toNat % 4 * 16 + b.toNat / 16) / 16) = a :=
      octet_eq (by omega)
    have hsecond : UInt8.ofNat ((a.toNat % 4 * 16 + b.toNat / 16) % 16 * 16 +
        (b.toNat % 16 * 4 + c.toNat / 64) / 4) = b := octet_eq (by omega)
    have hthird : UInt8.ofNat ((b.toNat % 16 * 4 + c.toNat / 64) % 4 * 64 + c.toNat % 64) = c :=
      octet_eq (by omega)
    rw [hfirst, hsecond, hthird]

theorem ascii_b64encode (data : Bytes) : ∀ c ∈ b64encode data, c.toNat < 128 := by
  have hpad : ('=' : Char).toNat < 128 := by decide
  induction data using b64encode.induct with
  | case1 => exact fun _ h => absurd h List.not_mem_nil
  | case2 a =>
    have ha := a.toNat_lt
    simp only [b64encode, List.forall_mem_cons]
    exact ⟨(base64Value_char _ (by omega)).2.2, (base64Value_char _ (by omega)).2.2, hpad, hpad,
      fun _ h => absurd h List.not_mem_nil⟩
  | case3 a b =>
    have ha := a.toNat_lt
    have hb := b.toNat_lt
    simp only [b64encode, List.forall_mem_cons]
    exact ⟨(base64Value_char _ (by omega)).2.2, (base64Value_char _ (by omega)).2.2,
      (base64Value_char _ (by omega)).2.2, hpad, fun _ h => absurd h List.not_mem_nil⟩
  | case4 a b c rest ih =>
    have ha := a.toNat_lt
    have hb := b.toNat_lt
    have hc := c.toNat_lt
    simp only [b64encode, List.forall_mem_cons]
    exact ⟨(base64Value_char _ (by omega)).2.2, (base64Value_char _ (by omega)).2.2,
      (base64Value_char _ (by omega)).2.2, (base64Value_char _ (by omega)).2.2, ih⟩

/-- What is written in base64 is read again. -/
theorem b64decode_b64encode (data : Bytes) : b64decode (b64encode data) = some data := by
  rw [b64decode, if_pos, a2bBase64_b64encode]
  rw [List.all_eq_true]
  exact fun c hc => decide_eq_true (ascii_b64encode data c hc)

end Base64

section Base32

def base32Alphabet : Str := "ABCDEFGHIJKLMNOPQRSTUVWXYZ234567".toList

def base32Char (n : Nat) : Char := base32Alphabet.getD n '='

def base32Value (c : Char) : Option Nat := base32Alphabet.idxOf? c

/-- The last `k` digits of a number. -/
def base32Digits : Nat → Nat → Str
  | 0, _ => []
  | k + 1, n => base32Digits k (n / 32) ++ [base32Char (n % 32)]

/-- What is written for five octets, or for the last ones: padding stands for digits without a bit
of them. -/
def b32Group (octets : Bytes) : Str :=
  let digits := (8 * octets.length + 4) / 5
  (base32Digits 8 (ofBigEndian (octets ++ List.replicate (5 - octets.length) 0))).take digits ++
    List.replicate (8 - digits) '='

/-- `base64.b32encode(data).decode()` -/
def b32encode (data : Bytes) : Str := (pieces 5 data).flatMap b32Group

/-- The loop over the digits of a group. -/
def b32Number : Nat → Str → Option Nat
  | acc, [] => some acc
  | acc, c :: s =>
    match base32Value c with
    | none => none
    | some n => b32Number (32 * acc + n) s

/-- `s.rstrip("=")` -/
def stripPadding (s : Str) : Str := (s.reverse.dropWhile (· = '=')).reverse

/-- `base64.b32decode(s)`, or `none` where it raises. What is not ASCII is no digit. -/
def b32decode (s : Str) : Option Bytes :=
  if s.length % 8 ≠ 0 then none
  else
    let digits := stripPadding s
    let padchars := s.length - digits.length
    match (pieces 8 digits).mapM (b32Number 0) with
    | none => none
    | some accs =>
      if padchars ∉ [0, 1, 3, 4, 6] then none
      else
        let decoded := accs.flatMap (bigEndian 5)
        match accs.getLast? with
        | none => some decoded
        | some acc =>
          if padchars = 0 then some decoded
          else
            let last := bigEndian 5 (acc * 32 ^ padchars)
            some (decoded.take (decoded.length - 5) ++ last.take ((43 - 5 * padchars) / 8))

/-- The characters outside ASCII whose upper case is ASCII. -/
def asciiUppers : List (Nat × String) :=
  [(0xdf, "SS"), (0x131, "I"), (0x17f, "S"), (0xfb00, "FF"), (0xfb01, "FI"), (0xfb02, "FL"),
    (0xfb03, "FFI"), (0xfb04, "FFL"), (0xfb05, "ST"), (0xfb06, "ST")]

/-- `s.upper()`, but that an upper case which is not ASCII, and so no digit, is not looked up. -/
def upper (s : Str) : Str :=
  s.flatMap fun c => ((asciiUppers.lookup c.toNat).map String.toList).getD [c.toUpper]

theorem base32Value_char : ∀ n < 32, base32Value (base32Char n) = some n ∧
    base32Char n ≠ '=' ∧ (base32Char n).isAlphanum = true ∧
      upper [base32Char n] = [base32Char n] := by decide

theorem length_base32Digits (k n : Nat) : (base32Digits k n).length = k := by
  induction k generalizing n with
  | zero => rfl
  | succ k ih => rw [base32Digits, List.length_append, ih, List.length_singleton]

theorem mem_base32Digits {k n : Nat} {c : Char} (h : c ∈ base32Digits k n) :
    ∃ d < 32, c = base32Char d := by
  induction k generalizing n with
  | zero => cases h
  | succ k ih =>
    rcases List.mem_append.mp h with h | h
    · exact ih h
    · exact ⟨n % 32, Nat.mod_lt _ (by decide), List.mem_singleton.mp h⟩

theorem b32Number_append (acc : Nat) (s : Str) {d : Nat} (hd : d < 32) :
    b32Number acc (s ++ [base32Char d]) = (b32Number acc s).map (32 * · + d) := by
  induction s generalizing acc with
  | nil =>
    rw [List.nil_append, b32Number, b32Number, (base32Value_char d hd).1]
    rfl
  | cons c s ih =>
    rw [List.cons_append, b32Number, b32Number]
    cases base32Value c with
    | none => rfl
    | some n => exact ih (32 * acc + n)

/-- The digits of a number are read as the number. -/
theorem b32Number_digits {k n : Nat} (h : n < 32 ^ k) :
    b32Number 0 (base32Digits k n) = some n := by
  induction k generalizing n with
  | zero =>
    obtain rfl : n = 0 := by omega
    rfl
  | succ k ih =>
    have hdiv : n / 32 < 32 ^ k := Nat.div_lt_of_lt_mul (by rwa [← Nat.pow_succ'])
    rw [base32Digits, b32Number_append 0 _ (Nat.mod_lt n (by decide)), ih hdiv, Option.map_some,
      Nat.div_add_mod]

theorem b32Group_of_length {octets : Bytes} (h : octets.length = 5) :
    b32Group octets = base32Digits 8 (ofBigEndian octets) := by
  rw [b32Group, h]
  show (base32Digits 8 (ofBigEndian (octets ++ []))).take 8 ++ [] = _
  rw [List.append_nil, List.append_nil,
    List.take_of_length_le (length_base32Digits 8 _).le]

variable {data : Bytes}

/-- Full groups are written without padding. -/
theorem b32encode_eq (h : 5 ∣ data.length) :
    b32encode data = (pieces 5 data).flatMap fun octets => base32Digits 8 (ofBigEndian octets) :=
  List.flatMap_congr fun _ hoctets =>
    b32Group_of_length (length_of_mem_pieces (by decide) h hoctets)

theorem mem_b32encode (h : 5 ∣ data.length) {c : Char} (hc : c ∈ b32encode data) :
    ∃ d < 32, c = base32Char d := by
  rw [b32encode_eq h] at hc
  obtain ⟨octets, -, hmem⟩ := List.mem_flatMap.mp hc
  exact mem_base32Digits hmem

/-- What is written in base 32 is in upper case. -/
theorem upper_b32encode (h : 5 ∣ data.length) : upper (b32encode data) = b32encode data := by
  have hdigits : ∀ c ∈ b32encode data, upper [c] = [c] := by
    intro c hc
    obtain ⟨d, hd, rfl⟩ := mem_b32encode h hc
    exact (base32Value_char d hd).2.2.2
  rw [upper, List.flatMap_congr (g := fun c => [c]), List.flatMap_singleton']
  intro c hc
  have hupper := hdigits c hc
  rwa [upper, List.flatMap_singleton] at hupper

theorem length_b32encode (h : 5 ∣ data.length) :
    (b32encode data).length = 8 * (data.length / 5) := by
  have hsum : ((pieces 5 data).map fun octets =>
      (base32Digits 8 (ofBigEndian octets)).length).sum = (pieces 5 data).length * 8 := by
    simp only [length_base32Digits, List.map_const', List.sum_replicate_nat]
  obtain ⟨k, hk⟩ := h
  rw [b32encode_eq ⟨k, hk⟩, List.length_flatMap, hsum, length_pieces (by decide)]
  omega

theorem stripPadding_of_notMem {s : Str} (h : '=' ∉ s) : stripPadding s = s := by
  rw [stripPadding]
  cases hs : s.reverse with
  | nil => rw [List.dropWhile_nil, ← hs, List.reverse_reverse]
  | cons c r =>
    have hc : c ∈ s := List.mem_reverse.mp (hs ▸ List.mem_cons_self)
    rw [List.dropWhile_cons_of_neg (by simpa using fun heq : c = '=' => h (heq ▸ hc)), ← hs,
      List.reverse_reverse]

theorem mapM_b32Number {groups : List Bytes} (h : ∀ octets ∈ groups, octets.length = 5) :
    (groups.map fun octets => base32Digits 8 (ofBigEndian octets)).mapM (b32Number 0) =
      some (groups.map ofBigEndian) := by
  induction groups with
  | nil => rfl
  | cons octets groups ih =>
    obtain ⟨hlength, hgroups⟩ := List.forall_mem_cons.mp h
    have hlt := ofBigEndian_lt octets
    rw [hlength] at hlt
    rw [List.map_cons, List.mapM_cons, b32Number_digits (hlt.trans_le (by decide)), ih hgroups]
    rfl

/-- Full groups are read back. -/
theorem b32decode_b32encode (h : 5 ∣ data.length) : b32decode (b32encode data) = some data := by
  have hfull : ∀ octets ∈ pieces 5 data, octets.length = 5 := fun _ hoctets =>
    length_of_mem_pieces (by decide) h hoctets
  have hpadding : '=' ∉ b32encode data := by
    intro hmem
    obtain ⟨d, hd, heq⟩ := mem_b32encode h hmem
    exact (base32Value_char d hd).2.1 heq.symm
  have hpieces : pieces 8 (b32encode data) =
      (pieces 5 data).map fun octets => base32Digits 8 (ofBigEndian octets) := by
    have hlengths : ∀ piece ∈ (pieces 5 data).map fun octets =>
        base32Digits 8 (ofBigEndian octets), piece.length = 8 := by
      intro piece hpiece
      obtain ⟨octets, -, rfl⟩ := List.mem_map.mp hpiece
      exact length_base32Digits 8 _
    have hcut := pieces_flatten_append (by decide) hlengths []
    rwa [List.append_nil, pieces_nil, List.append_nil, ← List.flatMap_def, ← b32encode_eq h]
      at hcut
  have hdecoded : ((pieces 5 data).map ofBigEndian).flatMap (bigEndian 5) = data := by
    rw [List.flatMap_map, List.flatMap_congr (g := id), List.flatMap_id, flatten_pieces (by decide)]
    intro octets hoctets
    have hback := bigEndian_ofBigEndian octets
    rwa [hfull octets hoctets] at hback
  have hlength : (b32encode data).length % 8 = 0 := by
    rw [length_b32encode h]
    omega
  rw [b32decode, if_neg (not_not_intro hlength), stripPadding_of_notMem hpadding]
  dsimp only
  rw [hpieces, mapM_b32Number hfull, Nat.sub_self]
  dsimp only
  rw [if_neg (by decide), hdecoded]
  cases ((pieces 5 data).map ofBigEndian).getLast? <;> rfl

end Base32

end Python

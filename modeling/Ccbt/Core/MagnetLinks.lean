import Ccbt.Core.Magnet
import Ccbt.Python.Urllib
import Mathlib.Data.List.Dedup

/-!
# Magnet links: `core/magnet.py`

`generate_magnet_link` writes a link and `parse_magnet` reads it. The name in a link is quoted but
for its slashes. The URLs keep every sign that some part of a URL can have, and among these are the
ones that divide a query.
-/

namespace Ccbt.Magnet

open Python
open Torrent (bind_eq_ok mapError_eq_ok)

section Generate

/-- The signs that are left as they are in the URLs of a link. -/
def urlSigns : Str := ":/?#[]@!$&'()*+,;=".toList

/-- `generate_magnet_link`. What is empty is not written, as what is not given. -/
def generateMagnetLink (info_hash : Bytes) (display_name : Option Str)
    (trackers web_seeds : Option (List Str)) (selected_indices : Option (List Int))
    (prioritized_indices : Option (Dict Int Int)) (use_base32 : Bool) : Str :=
  let hash_str := if use_base32 then stripPadding (b32encode info_hash) else hexText info_hash
  let name := display_name.getD []
  let dn := if name = [] then [] else ["dn=".toList ++ quoteWith ['/'] name]
  let tr := (trackers.getD []).map fun tracker => "tr=".toList ++ quoteWith urlSigns tracker
  let ws := (web_seeds.getD []).map fun web_seed => "ws=".toList ++ quoteWith urlSigns web_seed
  let indices := selected_indices.getD []
  let so := if indices = [] then []
    else ["so=".toList ++ [','].intercalate ((sortOn id indices.dedup).map strInt)]
  let priorities := (prioritized_indices.getD Dict.empty).entries
  let x_pe := if priorities = [] then []
    else ["x.pe=".toList ++ [','].intercalate
      ((sortOn Prod.fst priorities).map fun e => strInt e.1 ++ ':' :: strInt e.2)]
  ['&'].intercalate (("magnet:?xt=urn:btih:".toList ++ hash_str) :: (dn ++ tr ++ ws ++ so ++ x_pe))

end Generate

section Parse

/-- `ValueError`, by its text and by the error that the text ends with. The texts of the library are
left out. -/
inductive ValueError
  | library
  | message (text : Str)
  | caused (text : Str) (cause : ValueError)
  deriving DecidableEq

structure MagnetInfo where
  info_hash : Bytes
  display_name : Option Str
  trackers : List Str
  web_seeds : List Str
  selected_indices : Option (List Int)
  prioritized_indices : Option (Dict Int Int)

def readInt (s : Str) : Except ValueError Int :=
  match parseInt (stripText s) with
  | some n => .ok n
  | none => .error .library

/-- `range(start, end + 1)` of a text `start-end` -/
def parseRange (text : Str) : Except ValueError (List Int) := do
  let first ← readInt (text.takeWhile (· ≠ '-'))
  let last ← readInt ((text.dropWhile (· ≠ '-')).drop 1)
  if first < 0 ∨ last < 0 then
    throw (.message ("Negative indices not allowed: ".toList ++ text))
  else if first > last then
    throw (.message ("Invalid range: start > end in ".toList ++ text))
  else return (List.range (last + 1 - first).toNat).map fun k : Nat => first + k

def parseIndex (text : Str) : Except ValueError (List Int) := do
  let idx ← readInt text
  if idx < 0 then
    throw (.message ("Negative index not allowed: ".toList ++ strInt idx))
  else return [idx]

def wrapError {α : Type} (text : String) (token : Str) (result : Except ValueError α) :
    Except ValueError α :=
  result.mapError (.caused (text.toList ++ token ++ "': ".toList))

def parseIndexToken (indices : List Int) (raw_token : Str) : Except ValueError (List Int) := do
  let token := stripText raw_token
  if token = [] then return indices
  else if '-' ∈ token then
    return indices ++ (← wrapError "Invalid range format '" token (parseRange token))
  else
    return indices ++ (← wrapError "Invalid index format '" token (parseIndex token))

def parseIndexList (index_str : Str) : Except ValueError (List Int) :=
  if stripText index_str = [] then .ok []
  else do
    let indices ← (index_str.splitOn ',').foldlM parseIndexToken []
    return sortOn id indices.dedup

/-- The indices in front of a priority. -/
def parseFilePart (file_part : Str) : Except ValueError (List Int) :=
  if '-' ∈ file_part then parseRange file_part else parseIndex file_part

/-- The pairs that a token of `_parse_prioritized_indices` gives. The last colon divides it. -/
def parsePair (token : Str) : Except ValueError (List (Int × Int)) := do
  let file_part := stripText ((token.reverse.dropWhile (· ≠ ':')).drop 1).reverse
  let priority ← readInt (token.reverse.takeWhile (· ≠ ':')).reverse
  if priority < 0 ∨ priority > 4 then
    throw (.message ("Priority must be 0-4 (got ".toList ++ strInt priority ++ " in '".toList ++
      token ++ "')".toList))
  else
    let indices ← parseFilePart file_part
    return indices.map fun idx => (idx, priority)

def parsePairToken (priorities : Dict Int Int) (raw_token : Str) :
    Except ValueError (Dict Int Int) := do
  let token := stripText raw_token
  if token = [] then return priorities
  else if ':' ∉ token then
    throw (.message ("Missing ':' separator in priority pair: ".toList ++ token))
  else
    let pairs ← wrapError "Invalid priority pair format '" token (parsePair token)
    return pairs.foldl (fun d e => d.set e.1 e.2) priorities

def parsePrioritizedIndices (priority_str : Str) : Except ValueError (Dict Int Int) :=
  if stripText priority_str = [] then .ok Dict.empty
  else (priority_str.splitOn ',').foldlM parsePairToken Dict.empty

def hexOrBase32ToBytes (btih : Str) : Except ValueError Bytes :=
  let btih := stripText btih
  match if btih.length = 40 then fromHex btih else b32decode (upper btih) with
  | some info_hash => .ok info_hash
  | none => .error .library

/-- `s.split(sep)[0]` -/
def untilText (sep : Str) : Str → Str
  | [] => []
  | c :: s => if sep <+: c :: s then [] else c :: untilText sep s

/-- The hash in the first `xt` that has one. -/
def btihValue (xts : List Str) : Option Str :=
  (xts.find? ("urn:btih:".toList <+: ·)).map fun xt =>
    untilText "urn:btih:".toList (xt.drop "urn:btih:".toList.length)

/-- `parse_magnet`. An error in the indices is only logged. -/
def parseMagnet (checkNetloc : Str → Bool) (uri : Str) : Except ValueError MagnetInfo :=
  match urlparse checkNetloc uri with
  | none => .error .library
  | some (scheme, query) =>
    if scheme ≠ "magnet".toList then .error (.message "Not a magnet URI".toList)
    else
      let btih_value := (btihValue (queryValues query "xt".toList)).getD []
      if btih_value = [] then .error (.message "Magnet URI missing xt=urn:btih".toList)
      else do
        let info_hash ← hexOrBase32ToBytes btih_value
        return {
          info_hash
          display_name := queryGet query "dn".toList
          trackers := queryValues query "tr".toList
          web_seeds := queryValues query "ws".toList
          selected_indices := (queryGet query "so".toList).bind fun value =>
            (parseIndexList value).toOption
          prioritized_indices := (queryGet query "x.pe".toList).bind fun value =>
            (parsePrioritizedIndices value).toOption }

end Parse

/-- An index with one of the priorities. -/
def IsPriority (e : Int × Int) : Prop := 0 ≤ e.1 ∧ 0 ≤ e.2 ∧ e.2 ≤ 4

instance (e : Int × Int) : Decidable (IsPriority e) := inferInstanceAs (Decidable (_ ∧ _))

section Links

/-- What a link is made for. -/
structure Link where
  info_hash : Bytes
  display_name : Str
  trackers : List Str
  web_seeds : List Str
  selected_indices : List Int
  prioritized_indices : Dict Int Int
  length_info_hash : info_hash.length = 20
  name_ne : display_name ≠ []
  urls_ne : ∀ url ∈ trackers ++ web_seeds, url ≠ []
  indices_ne : selected_indices ≠ []
  indices_nonneg : ∀ idx ∈ selected_indices, 0 ≤ idx
  priorities_ne : prioritized_indices.entries ≠ []
  priorities_bounds : ∀ e ∈ prioritized_indices.entries, IsPriority e

def Link.uri (l : Link) (use_base32 : Bool) : Str :=
  generateMagnetLink l.info_hash (some l.display_name) (some l.trackers) (some l.web_seeds)
    (some l.selected_indices) (some l.prioritized_indices) use_base32

/-- A link that has been read says what it was made for. -/
structure Link.Matches (l : Link) (info : MagnetInfo) : Prop where
  info_hash : info.info_hash = l.info_hash
  display_name : info.display_name = some l.display_name
  trackers : info.trackers = l.trackers
  web_seeds : info.web_seeds = l.web_seeds
  selected_indices : info.selected_indices = some (sortOn id l.selected_indices.dedup)
  prioritized_indices : ∃ priorities, info.prioritized_indices = some priorities ∧
    ∀ idx, priorities.get? idx = l.prioritized_indices.get? idx

/-- `parse_magnet(generate_magnet_link(...))` gives the same again. -/
def RoundTrips (checkNetloc : Str → Bool) (l : Link) (use_base32 : Bool) : Prop :=
  ∃ info, parseMagnet checkNetloc (l.uri use_base32) = .ok info ∧ l.Matches info

end Links

section Fields

def fieldSigns (name : Str) : Str := if name = "dn".toList then ['/'] else urlSigns

namespace Link

variable (l : Link) (use_base32 : Bool)

def hashStr : Str := if use_base32 then b32encode l.info_hash else hexText l.info_hash

def indices : List Int := sortOn id l.selected_indices.dedup

def soValue : Str := [','].intercalate (l.indices.map strInt)

def pairs : List (Int × Int) := sortOn Prod.fst l.prioritized_indices.entries

def pairText (e : Int × Int) : Str := strInt e.1 ++ ':' :: strInt e.2

def peValue : Str := [','].intercalate (l.pairs.map pairText)

/-- The fields that are written in front of the URLs. -/
def headFields : List (Str × Str) :=
  [("xt".toList, "urn:btih:".toList ++ l.hashStr use_base32), ("dn".toList, l.display_name)]

/-- The URLs and what is written behind them. -/
def tailFields : List (Str × Str) :=
  l.trackers.map (Prod.mk "tr".toList) ++ l.web_seeds.map (Prod.mk "ws".toList) ++
    [("so".toList, l.soValue), ("x.pe".toList, l.peValue)]

def fields : List (Str × Str) := l.headFields use_base32 ++ l.tailFields

end Link

end Fields

section Signs

def IsFieldSign (c : Char) : Prop := c.isAlphanum = true ∨ c = ',' ∨ c = ':'

instance (c : Char) : Decidable (IsFieldSign c) := inferInstanceAs (Decidable (_ ∨ _))

variable {c : Char} {s : Str}

theorem alphanum_lt (h : c.isAlphanum = true) : c.toNat < 128 := by
  delta Char.isAlphanum Char.isAlpha Char.isUpper Char.isLower Char.isDigit at h
  simp only [Bool.or_eq_true, Bool.and_eq_true, decide_eq_true_eq, UInt32.le_iff_toNat_le,
    ge_iff_le] at h
  have hv : c.val.toNat = c.toNat := rfl
  have hupper : 'Z'.val.toNat = 90 := rfl
  have hlower : 'z'.val.toNat = 122 := rfl
  have hdigit : '9'.val.toNat = 57 := rfl
  omega

set_option maxRecDepth 4000 in
/-- These signs are written as they are, divide no query and are no white space. -/
theorem IsFieldSign.plain (h : IsFieldSign c) :
    quoteChar urlSigns c = [c] ∧ c ∉ ['&', '#', '+'] ∧ isStripped c = false := by
  have hall : ∀ n < 128, IsFieldSign (Char.ofNat n) → quoteChar urlSigns (Char.ofNat n) =
      [Char.ofNat n] ∧ Char.ofNat n ∉ ['&', '#', '+'] ∧ isStripped (Char.ofNat n) = false := by
    decide
  have hlt : c.toNat < 128 := by
    rcases h with h | rfl | rfl
    · exact alphanum_lt h
    · decide
    · decide
  have hback := hall c.toNat hlt
  rw [Char.ofNat_toNat] at hback
  exact hback h

theorem quoteWith_of_fieldSigns (h : ∀ c ∈ s, IsFieldSign c) : quoteWith urlSigns s = s := by
  rw [quoteWith, List.flatMap_congr fun c hc => (h c hc).plain.1, List.flatMap_singleton']

theorem digit_of_mem_strInt {n : Int} (hn : 0 ≤ n) (h : c ∈ strInt n) : c.isDigit = true := by
  rw [strInt, if_neg (by omega)] at h
  exact Nat.isDigit_of_mem_toDigits (by decide) (by decide) h

theorem IsFieldSign.of_digit (h : c.isDigit = true) : IsFieldSign c := by
  refine .inl ?_
  rw [Char.isAlphanum, h, Bool.or_true]

theorem strInt_ne_nil (n : Int) : strInt n ≠ [] := by
  rw [strInt]
  split
  · exact List.cons_ne_nil _ _
  · exact Nat.toDigits_ne_nil

end Signs

section Hash

variable (l : Link) (use_base32 : Bool)

theorem Link.dvd_length (l : Link) : 5 ∣ l.info_hash.length := by
  rw [l.length_info_hash]
  decide

theorem Link.alphanum_hashStr {c : Char} (h : c ∈ l.hashStr use_base32) : c.isAlphanum = true := by
  rw [hashStr] at h
  split at h
  · obtain ⟨d, hd, rfl⟩ := mem_b32encode l.dvd_length h
    exact (base32Value_char d hd).2.2.1
  · exact isAlphanum_of_mem_hexText h

theorem Link.stripPadding_eq : stripPadding (b32encode l.info_hash) = b32encode l.info_hash := by
  refine stripPadding_of_notMem fun hmem => ?_
  obtain ⟨d, hd, heq⟩ := mem_b32encode l.dvd_length hmem
  exact (base32Value_char d hd).2.1 heq.symm

/-- The hash is read back in both encodings, which are told apart by their lengths. -/
theorem Link.hexOrBase32ToBytes_hashStr :
    hexOrBase32ToBytes (l.hashStr use_base32) = .ok l.info_hash := by
  have hstrip : stripText (l.hashStr use_base32) = l.hashStr use_base32 :=
    stripText_eq_self fun c hc => (IsFieldSign.plain (.inl (l.alphanum_hashStr _ hc))).2.2
  rw [hexOrBase32ToBytes, hstrip]
  cases use_base32 with
  | false =>
    have hlength : (l.hashStr false).length = 40 := by
      rw [show l.hashStr false = hexText l.info_hash from rfl, length_hexText, l.length_info_hash]
    rw [if_pos hlength, show l.hashStr false = hexText l.info_hash from rfl, fromHex_hexText]
  | true =>
    have hlength : (l.hashStr true).length ≠ 40 := by
      rw [show l.hashStr true = b32encode l.info_hash from rfl, length_b32encode l.dvd_length,
        l.length_info_hash]
      decide
    rw [if_neg hlength, show l.hashStr true = b32encode l.info_hash from rfl,
      upper_b32encode l.dvd_length, b32decode_b32encode l.dvd_length]

theorem Link.hashStr_ne : l.hashStr use_base32 ≠ [] := by
  intro hnil
  have hread := l.hexOrBase32ToBytes_hashStr use_base32
  rw [hnil] at hread
  have hempty : hexOrBase32ToBytes [] = .ok [] := rfl
  have hhash := l.length_info_hash
  rw [← Except.ok.inj (hempty.symm.trans hread)] at hhash
  cases hhash

theorem untilText_of_notMem {sep s : Str} {c : Char} (hsep : c ∈ sep) (h : c ∉ s) :
    untilText sep s = s := by
  induction s with
  | nil => rfl
  | cons d s ih =>
    have hprefix : ¬sep <+: d :: s := fun hp => h (hp.subset hsep)
    rw [List.mem_cons, not_or] at h
    rw [untilText, if_neg hprefix, ih h.2]

theorem Link.btihValue_eq (xts : List Str) :
    btihValue (("urn:btih:".toList ++ l.hashStr use_base32) :: xts) =
      some (l.hashStr use_base32) := by
  have hcolon : ':' ∉ l.hashStr use_base32 := fun hmem =>
    absurd (l.alphanum_hashStr _ hmem) (by decide)
  have huntil : untilText "urn:btih:".toList (l.hashStr use_base32) = l.hashStr use_base32 :=
    untilText_of_notMem (by decide) hcolon
  rw [btihValue, List.find?_cons_of_pos (by simp), Option.map_some, List.drop_left, huntil]

end Hash

section Indices

variable {n : Int}

theorem fieldSign_of_mem_strInt (hn : 0 ≤ n) : ∀ c ∈ strInt n, IsFieldSign c :=
  fun _ hc => .of_digit (digit_of_mem_strInt hn hc)

theorem stripText_of_fieldSigns {s : Str} (h : ∀ c ∈ s, IsFieldSign c) : stripText s = s :=
  stripText_eq_self fun c hc => (h c hc).plain.2.2

theorem notMem_strInt (hn : 0 ≤ n) {c : Char} (hc : c.isDigit = false) : c ∉ strInt n := by
  intro hmem
  rw [digit_of_mem_strInt hn hmem] at hc
  cases hc

theorem readInt_strInt (hn : 0 ≤ n) : readInt (strInt n) = .ok n := by
  rw [readInt, stripText_of_fieldSigns (fieldSign_of_mem_strInt hn), parseInt_strInt]

theorem parseIndex_strInt (hn : 0 ≤ n) : parseIndex (strInt n) = .ok [n] := by
  rw [parseIndex, readInt_strInt hn]
  show (if n < 0 then _ else _) = _
  rw [if_neg (by omega)]
  rfl

theorem parseIndexToken_strInt (indices : List Int) (hn : 0 ≤ n) :
    parseIndexToken indices (strInt n) = .ok (indices ++ [n]) := by
  rw [parseIndexToken, stripText_of_fieldSigns (fieldSign_of_mem_strInt hn),
    if_neg (strInt_ne_nil n), if_neg (notMem_strInt hn (by decide)), parseIndex_strInt hn]
  rfl

theorem foldlM_parseIndexToken {numbers : List Int} (h : ∀ idx ∈ numbers, 0 ≤ idx)
    (indices : List Int) :
    (numbers.map strInt).foldlM parseIndexToken indices = .ok (indices ++ numbers) := by
  induction numbers generalizing indices with
  | nil =>
    rw [List.append_nil]
    rfl
  | cons n numbers ih =>
    obtain ⟨hn, hrest⟩ := List.forall_mem_cons.mp h
    rw [List.map_cons, List.foldlM_cons, parseIndexToken_strInt indices hn]
    show (numbers.map strInt).foldlM parseIndexToken (indices ++ [n]) = _
    rw [ih hrest, List.append_assoc, List.singleton_append]

theorem fieldSign_of_mem_commas {texts : List Str} (h : ∀ text ∈ texts, ∀ c ∈ text, IsFieldSign c) :
    ∀ c ∈ [','].intercalate texts, IsFieldSign c := by
  intro c hc
  rcases mem_intercalate hc with hc | ⟨text, htext, hc⟩
  · exact .inr (.inl (List.mem_singleton.mp hc))
  · exact h text htext c hc

theorem commas_ne_nil {texts : List Str} (h : ∀ text ∈ texts, text ≠ []) (hne : texts ≠ []) :
    [','].intercalate texts ≠ [] := by
  obtain ⟨text, texts, rfl⟩ := List.exists_cons_of_ne_nil hne
  by_cases hnil : texts = []
  · subst hnil
    rw [List.intercalate_singleton]
    exact h text (List.mem_singleton_self _)
  · rw [List.intercalate_cons_of_ne_nil hnil, List.append_assoc]
    exact List.append_ne_nil_of_left_ne_nil (h text List.mem_cons_self) _

variable (l : Link)

theorem Link.mem_indices {idx : Int} : idx ∈ l.indices ↔ idx ∈ l.selected_indices := by
  rw [indices, (sortOn_perm id _).mem_iff, List.mem_dedup]

theorem Link.sorted_indices : sortOn id l.indices.dedup = l.indices := by
  have hnodup : l.indices.Nodup := (sortOn_perm id _).nodup_iff.mpr (List.nodup_dedup _)
  rw [hnodup.dedup]
  exact sortOn_eq_self id (sortOn_pairwise id _)

theorem Link.soTexts {text : Str} (h : text ∈ l.indices.map strInt) :
    (∀ c ∈ text, IsFieldSign c) ∧ text ≠ [] ∧ ',' ∉ text := by
  obtain ⟨idx, hidx, rfl⟩ := List.mem_map.mp h
  have hnonneg := l.indices_nonneg idx (l.mem_indices.mp hidx)
  exact ⟨fieldSign_of_mem_strInt hnonneg, strInt_ne_nil idx, notMem_strInt hnonneg (by decide)⟩

theorem Link.soTexts_ne : l.indices.map strInt ≠ [] := by
  obtain ⟨idx, hidx⟩ := List.exists_mem_of_ne_nil _ l.indices_ne
  exact List.ne_nil_of_mem (List.mem_map_of_mem (l.mem_indices.mpr hidx))

theorem Link.soValue_ne : l.soValue ≠ [] :=
  commas_ne_nil (fun _ h => (l.soTexts h).2.1) l.soTexts_ne

theorem Link.fieldSign_soValue : ∀ c ∈ l.soValue, IsFieldSign c :=
  fieldSign_of_mem_commas fun _ h => (l.soTexts h).1

/-- The indices are read back. -/
theorem Link.parseIndexList_soValue : parseIndexList l.soValue = .ok l.indices := by
  have hsplit : l.soValue.splitOn ',' = l.indices.map strInt :=
    List.splitOn_intercalate ',' (fun _ h => (l.soTexts h).2.2) l.soTexts_ne
  rw [parseIndexList, stripText_of_fieldSigns l.fieldSign_soValue, if_neg l.soValue_ne, hsplit,
    foldlM_parseIndexToken fun idx hidx => l.indices_nonneg idx (l.mem_indices.mp hidx)]
  show Except.ok (sortOn id ([] ++ l.indices).dedup) = _
  rw [List.nil_append, l.sorted_indices]

end Indices

section Pairs

variable {e : Int × Int}

/-- A text is divided at its last colon. -/
theorem reverse_pairText (he : 0 ≤ e.2) :
    ((Link.pairText e).reverse.takeWhile (· ≠ ':')).reverse = strInt e.2 ∧
      (((Link.pairText e).reverse.dropWhile (· ≠ ':')).drop 1).reverse = strInt e.1 := by
  have hreverse : (Link.pairText e).reverse =
      (strInt e.2).reverse ++ ':' :: (strInt e.1).reverse := by
    rw [Link.pairText, List.reverse_append, List.reverse_cons, List.append_assoc,
      List.singleton_append]
  have hcolon : ∀ c ∈ (strInt e.2).reverse, decide (c ≠ ':') = true := by
    intro c hc
    rw [decide_eq_true_eq]
    rintro rfl
    exact notMem_strInt he (by decide) (List.mem_reverse.mp hc)
  rw [hreverse, List.takeWhile_append_of_pos hcolon, List.dropWhile_append_of_pos hcolon]
  simp

theorem fieldSign_of_mem_pairText (hidx : 0 ≤ e.1) (hpriority : 0 ≤ e.2) :
    ∀ c ∈ Link.pairText e, IsFieldSign c := by
  intro c hc
  rcases List.mem_append.mp hc with hc | hc
  · exact fieldSign_of_mem_strInt hidx c hc
  · rcases List.mem_cons.mp hc with rfl | hc
    · exact .inr (.inr rfl)
    · exact fieldSign_of_mem_strInt hpriority c hc

theorem parsePair_pairText (hidx : 0 ≤ e.1) (hpriority : 0 ≤ e.2 ∧ e.2 ≤ 4) :
    parsePair (Link.pairText e) = .ok [e] := by
  obtain ⟨hlast, hfirst⟩ := reverse_pairText hpriority.1
  rw [parsePair, hlast, hfirst, stripText_of_fieldSigns (fieldSign_of_mem_strInt hidx),
    readInt_strInt hpriority.1]
  show (if e.2 < 0 ∨ e.2 > 4 then _ else _) = _
  rw [if_neg (by omega), parseFilePart, if_neg (notMem_strInt hidx (by decide)),
    parseIndex_strInt hidx]
  rfl

theorem parsePairToken_pairText (priorities : Dict Int Int) (hidx : 0 ≤ e.1)
    (hpriority : 0 ≤ e.2 ∧ e.2 ≤ 4) :
    parsePairToken priorities (Link.pairText e) = .ok (priorities.set e.1 e.2) := by
  have hcolon : ':' ∈ Link.pairText e := List.mem_append_right _ List.mem_cons_self
  rw [parsePairToken, stripText_of_fieldSigns (fieldSign_of_mem_pairText hidx hpriority.1),
    if_neg (List.ne_nil_of_mem hcolon), if_neg (not_not_intro hcolon),
    parsePair_pairText hidx hpriority]
  rfl

/-- The pairs are stored one after the other. -/
theorem foldlM_parsePairToken {pairs : List (Int × Int)}
    (h : ∀ e ∈ pairs, IsPriority e) (priorities : Dict Int Int) :
    (pairs.map Link.pairText).foldlM parsePairToken priorities =
      .ok (pairs.foldl (fun d e => d.set e.1 e.2) priorities) := by
  induction pairs generalizing priorities with
  | nil => rfl
  | cons e pairs ih =>
    obtain ⟨he, hrest⟩ := List.forall_mem_cons.mp h
    rw [List.map_cons, List.foldlM_cons, parsePairToken_pairText priorities he.1 he.2]
    exact ih hrest (priorities.set e.1 e.2)

theorem entries_foldl_set (pairs : List (Int × Int)) (d : Dict Int Int) :
    (pairs.foldl (fun d e => d.set e.1 e.2) d).entries =
      pairs.foldl (fun d e => setEntry e.1 e.2 d) d.entries := by
  induction pairs generalizing d with
  | nil => rfl
  | cons e pairs ih => exact ih (d.set e.1 e.2)

variable (l : Link)

theorem Link.perm_pairs : l.pairs.Perm l.prioritized_indices.entries := sortOn_perm Prod.fst _

theorem Link.pairs_bounds : ∀ e ∈ l.pairs, IsPriority e := fun e he =>
  l.priorities_bounds e (l.perm_pairs.mem_iff.mp he)

theorem Link.peTexts {text : Str} (h : text ∈ l.pairs.map pairText) :
    (∀ c ∈ text, IsFieldSign c) ∧ text ≠ [] ∧ ',' ∉ text := by
  obtain ⟨e, he, rfl⟩ := List.mem_map.mp h
  obtain ⟨hidx, hpriority, -⟩ := l.pairs_bounds e he
  refine ⟨fieldSign_of_mem_pairText hidx hpriority,
    List.append_ne_nil_of_left_ne_nil (strInt_ne_nil e.1) _, fun hmem => ?_⟩
  rcases List.mem_append.mp hmem with hmem | hmem
  · exact notMem_strInt hidx (by decide) hmem
  · rcases List.mem_cons.mp hmem with hmem | hmem
    · exact absurd hmem (by decide)
    · exact notMem_strInt hpriority (by decide) hmem

theorem Link.peTexts_ne : l.pairs.map pairText ≠ [] := by
  obtain ⟨e, he⟩ := List.exists_mem_of_ne_nil _ l.priorities_ne
  exact List.ne_nil_of_mem (List.mem_map_of_mem (l.perm_pairs.mem_iff.mpr he))

theorem Link.peValue_ne : l.peValue ≠ [] :=
  commas_ne_nil (fun _ h => (l.peTexts h).2.1) l.peTexts_ne

theorem Link.fieldSign_peValue : ∀ c ∈ l.peValue, IsFieldSign c :=
  fieldSign_of_mem_commas fun _ h => (l.peTexts h).1

/-- The priorities are read back. -/
theorem Link.parsePrioritizedIndices_peValue :
    ∃ priorities, parsePrioritizedIndices l.peValue = .ok priorities ∧
      ∀ idx, priorities.get? idx = l.prioritized_indices.get? idx := by
  have hsplit : l.peValue.splitOn ',' = l.pairs.map pairText :=
    List.splitOn_intercalate ',' (fun _ h => (l.peTexts h).2.2) l.peTexts_ne
  refine ⟨l.pairs.foldl (fun d e => d.set e.1 e.2) Dict.empty, ?_, fun idx => ?_⟩
  · rw [parsePrioritizedIndices, stripText_of_fieldSigns l.fieldSign_peValue, if_neg l.peValue_ne,
      hsplit, foldlM_parsePairToken l.pairs_bounds]
  · have hnodup : (l.pairs.map Prod.fst).Nodup :=
      (l.perm_pairs.map Prod.fst).nodup_iff.mpr l.prioritized_indices.nodup_keys
    rw [Dict.get?, entries_foldl_set]
    show (l.pairs.foldl (fun d e => setEntry e.1 e.2 d) []).lookup idx = _
    rw [foldl_setEntry_eq_append (by rwa [List.nil_append]), List.nil_append,
      lookup_perm l.perm_pairs hnodup]
    rfl

end Pairs

section Query

theorem safeSigns_urlSigns : SafeSigns urlSigns := by decide

/-- The names of the fields of a link. -/
def fieldNames : List Str := ["xt", "dn", "tr", "ws", "so", "x.pe"].map String.toList

/-- The field has no sign that divides the query, or it is the name, where they are quoted. -/
def Harmless (field : Str × Str) : Prop :=
  field.1 = "dn".toList ∨ ∀ c ∈ field.2, IsFieldSign c

theorem Harmless.notMem {field : Str × Str} (h : Harmless field) :
    ∀ c ∈ ['&', '#', '+'], c ∈ field.2 → c ∉ fieldSigns field.1 := by
  intro c hc hmem
  rcases h with hname | hsigns
  · have hslash : ∀ c ∈ ['&', '#', '+'], c ∉ ['/'] := by decide
    rw [fieldSigns, if_pos hname]
    exact hslash c hc
  · exact absurd hc (hsigns c hmem).plain.2.1

namespace Link

variable (l : Link) (use_base32 : Bool) {field : Str × Str}

theorem fieldSign_xt : ∀ c ∈ "urn:btih:".toList ++ l.hashStr use_base32, IsFieldSign c := by
  intro c hc
  rcases List.mem_append.mp hc with hc | hc
  · have hurn : ∀ c ∈ "urn:btih:".toList, IsFieldSign c := by decide
    exact hurn c hc
  · exact .inl (l.alphanum_hashStr use_base32 hc)

theorem harmless_headFields (h : field ∈ l.headFields use_base32) : Harmless field := by
  rcases List.mem_pair.mp h with rfl | rfl
  · exact .inr (l.fieldSign_xt use_base32)
  · exact .inl rfl

theorem tailFields_cases (h : field ∈ l.tailFields) :
    field.2 ∈ l.trackers ++ l.web_seeds ∨ Harmless field := by
  rcases List.mem_append.mp h with h | h
  · rcases List.mem_append.mp h with h | h
    · obtain ⟨url, hurl, rfl⟩ := List.mem_map.mp h
      exact .inl (List.mem_append_left _ hurl)
    · obtain ⟨url, hurl, rfl⟩ := List.mem_map.mp h
      exact .inl (List.mem_append_right _ hurl)
  · rcases List.mem_pair.mp h with rfl | rfl
    · exact .inr (.inr l.fieldSign_soValue)
    · exact .inr (.inr l.fieldSign_peValue)

theorem tailFields_name (h : field ∈ l.tailFields) : field.1 ∈ fieldNames ∧ field.2 ≠ [] ∧
    field.1 ≠ "dn".toList := by
  rcases List.mem_append.mp h with h | h
  · rcases List.mem_append.mp h with h | h
    · obtain ⟨url, hurl, rfl⟩ := List.mem_map.mp h
      exact ⟨by simp [fieldNames], l.urls_ne url (List.mem_append_left _ hurl), by simp⟩
    · obtain ⟨url, hurl, rfl⟩ := List.mem_map.mp h
      exact ⟨by simp [fieldNames], l.urls_ne url (List.mem_append_right _ hurl), by simp⟩
  · rcases List.mem_pair.mp h with rfl | rfl
    · exact ⟨by simp [fieldNames], l.soValue_ne, by simp⟩
    · exact ⟨by simp [fieldNames], l.peValue_ne, by simp⟩

theorem fields_name (h : field ∈ l.fields use_base32) : field.1 ∈ fieldNames ∧ field.2 ≠ [] := by
  rcases List.mem_append.mp h with h | h
  · rcases List.mem_pair.mp h with rfl | rfl
    · exact ⟨by simp [fieldNames], by simp⟩
    · exact ⟨by simp [fieldNames], l.name_ne⟩
  · obtain ⟨hname, hvalue, -⟩ := l.tailFields_name h
    exact ⟨hname, hvalue⟩

theorem safeSigns_fieldSigns (name : Str) :
    SafeSigns (fieldSigns name) ∧ ∀ c ∈ fieldSigns name, 0x20 < c.toNat := by
  rw [fieldSigns]
  split
  · exact ⟨by decide, by decide⟩
  · exact ⟨by decide, by decide⟩

theorem quotedFields {fields : List (Str × Str)} (h : fields ⊆ l.fields use_base32) :
    QuotedFields fieldSigns fields where
  names field hfield := by
    have hall : ∀ name ∈ fieldNames, ∀ c ∈ name, IsPlain c ∧ c ≠ '%' ∧ 0x20 < c.toNat := by decide
    exact hall field.1 (l.fields_name use_base32 (h hfield)).1
  values field hfield := (l.fields_name use_base32 (h hfield)).2
  signs field _ := (safeSigns_fieldSigns field.1).1
  printable field _ := (safeSigns_fieldSigns field.1).2

/-- The link as it is written. -/
theorem uri_eq : l.uri use_base32 =
    "magnet".toList ++ ':' :: '?' :: quotedQuery fieldSigns (l.fields use_base32) := by
  have hhash : (if use_base32 then stripPadding (b32encode l.info_hash) else hexText l.info_hash) =
      l.hashStr use_base32 := by
    rw [l.stripPadding_eq]
    rfl
  have hxt : quoteWith urlSigns ("urn:btih:".toList ++ l.hashStr use_base32) =
      "urn:btih:".toList ++ l.hashStr use_base32 :=
    quoteWith_of_fieldSigns (l.fieldSign_xt use_base32)
  have hparts : ((l.fields use_base32).map (quotedField fieldSigns)).map queryField =
      ("xt=".toList ++ ("urn:btih:".toList ++ l.hashStr use_base32)) ::
        (["dn=".toList ++ quoteWith ['/'] l.display_name] ++
          l.trackers.map (fun tracker => "tr=".toList ++ quoteWith urlSigns tracker) ++
          l.web_seeds.map (fun web_seed => "ws=".toList ++ quoteWith urlSigns web_seed) ++
          ["so=".toList ++ l.soValue] ++ ["x.pe=".toList ++ l.peValue]) := by
    rw [fields, headFields, tailFields]
    simp only [List.map_append, List.map_cons, List.map_nil, List.map_map]
    simp [quotedField, queryField, fieldSigns, Function.comp_def]
    exact ⟨hxt, quoteWith_of_fieldSigns l.fieldSign_soValue,
      quoteWith_of_fieldSigns l.fieldSign_peValue⟩
  have hfirst : "magnet:?xt=urn:btih:".toList ++ l.hashStr use_base32 =
      "magnet:?".toList ++ ("xt=".toList ++ ("urn:btih:".toList ++ l.hashStr use_base32)) := rfl
  rw [quotedQuery, hparts, uri, generateMagnetLink]
  dsimp only [Option.getD_some]
  rw [hhash, if_neg l.name_ne, if_neg l.indices_ne, if_neg l.priorities_ne, hfirst,
    intercalate_append_cons]
  rfl

end Link

end Query

section Reading

variable (l : Link) (use_base32 : Bool)

namespace Link

/-- The URLs and what is written behind them, before anything is quoted. -/
def tailText : Str := ['&'].intercalate (l.tailFields.map queryField)

theorem tailFields_ne : l.tailFields ≠ [] := List.append_ne_nil_of_right_ne_nil _ (by simp)

/-- These fields are quoted as one text: the signs between them are among those that stay. -/
theorem quotedQuery_tailFields :
    quotedQuery fieldSigns l.tailFields = quoteWith urlSigns l.tailText := by
  rw [quotedQuery, tailText, safeSigns_urlSigns.quoteWith_intercalate (by decide), List.map_map,
    List.map_map]
  congr 1
  refine List.map_congr_left fun field hfield => ?_
  obtain ⟨hname, -, hdn⟩ := l.tailFields_name hfield
  have hself : ∀ name ∈ fieldNames, quoteWith urlSigns (name ++ ['=']) = name ++ ['='] := by decide
  have happend : queryField field = field.1 ++ ['='] ++ field.2 := by
    rw [queryField, List.append_assoc, List.singleton_append]
  show field.1 ++ '=' :: quoteWith (fieldSigns field.1) field.2 =
    quoteWith urlSigns (queryField field)
  rw [happend, quoteWith_append, hself field.1 hname, fieldSigns, if_neg hdn, List.append_assoc,
    List.singleton_append]

/-- The query that `urlparse` finds. -/
def query : Str := (quotedQuery fieldSigns (l.fields use_base32)).takeWhile (· ≠ '#')

/-- The hash and the name are read back, whatever the URLs are. -/
theorem parseQsl_query : parseQsl (l.query use_base32) =
    l.headFields use_base32 ++
      parseQsl (quoteWith urlSigns (l.tailText.takeWhile (· ≠ '#'))) := by
  have hquoted : QuotedFields fieldSigns (l.headFields use_base32) :=
    l.quotedFields use_base32 (List.subset_append_left _ _)
  have hharmless : ∀ field ∈ l.headFields use_base32, ∀ c ∈ ['&', '#', '+'], c ∈ field.2 →
      c ∉ fieldSigns field.1 := fun _ hfield => (l.harmless_headFields use_base32 hfield).notMem
  have hhash : ∀ c ∈ quotedQuery fieldSigns (l.headFields use_base32), decide (c ≠ '#') = true :=
    List.takeWhile_eq_self_iff.mp (hquoted.takeWhile_query hharmless)
  have honly : ∀ c, '#' ∈ quoteChar urlSigns c → c = '#' := by
    intro c hc
    rcases safeSigns_urlSigns.mem_quoteChar hc with ⟨heq, -⟩ | hescape
    · exact heq.symm
    · exact absurd hescape (by decide)
  have hsplit : quotedQuery fieldSigns (l.fields use_base32) =
      quotedQuery fieldSigns (l.headFields use_base32) ++
        '&' :: quotedQuery fieldSigns l.tailFields := by
    rw [quotedQuery, fields, List.map_append, List.map_append,
      intercalate_append (by simp [headFields]) (by simpa using l.tailFields_ne),
      List.append_assoc, List.singleton_append]
    rfl
  have htail : (quoteWith urlSigns l.tailText).takeWhile (· ≠ '#') =
      quoteWith urlSigns (l.tailText.takeWhile (· ≠ '#')) :=
    takeWhile_flatMap (by decide) honly
  rw [query, hsplit, List.takeWhile_append_of_pos hhash, List.takeWhile_cons_of_pos (by decide),
    quotedQuery_tailFields, htail, parseQsl, rawFields_append, List.map_append, ← parseQsl,
    ← parseQsl, hquoted.parseQsl_eq (by simp [headFields]) hharmless]

/-- No other value has a sign that divides the query. -/
theorem notMem_of_mem_parseQsl {field : Str × Str} (h : field ∈ parseQsl (l.query use_base32))
    (hname : field.1 ∉ (l.headFields use_base32).map Prod.fst) :
    ∀ c ∈ ['&', '#', '+'], c ∉ field.2 := by
  rw [l.parseQsl_query] at h
  rcases List.mem_append.mp h with h | h
  · exact absurd (List.mem_map_of_mem h) hname
  · obtain ⟨hand, hplus, hsigns⟩ := safeSigns_urlSigns.mem_parseQsl_quoteWith (by decide) h
    have hhash : '#' ∉ field.2 := by
      intro hmem
      rcases hsigns '#' hmem with htext | hblank
      · have htake := List.mem_takeWhile_imp htext
        exact absurd htake (by decide)
      · exact absurd hblank (by decide)
    intro c hc
    simp only [List.mem_cons, List.not_mem_nil, or_false] at hc
    rcases hc with rfl | rfl | rfl
    · exact hand
    · exact hhash
    · exact hplus

/-- What is read of a link. -/
def readInfo : MagnetInfo where
  info_hash := l.info_hash
  display_name := queryGet (l.query use_base32) "dn".toList
  trackers := queryValues (l.query use_base32) "tr".toList
  web_seeds := queryValues (l.query use_base32) "ws".toList
  selected_indices := (queryGet (l.query use_base32) "so".toList).bind fun value =>
    (parseIndexList value).toOption
  prioritized_indices := (queryGet (l.query use_base32) "x.pe".toList).bind fun value =>
    (parsePrioritizedIndices value).toOption

theorem parseMagnet_uri (checkNetloc : Str → Bool) :
    parseMagnet checkNetloc (l.uri use_base32) = .ok (l.readInfo use_base32) := by
  have hprintable : ∀ c ∈ quotedQuery fieldSigns (l.fields use_base32), 0x20 < c.toNat :=
    (l.quotedFields use_base32 (List.Subset.refl _)).printable_query
  have hurl : urlparse checkNetloc (l.uri use_base32) =
      some ("magnet".toList, l.query use_base32) := by
    rw [l.uri_eq]
    exact urlparse_query checkNetloc (by decide) (by decide) hprintable
  have hxts : btihValue (queryValues (l.query use_base32) "xt".toList) =
      some (l.hashStr use_base32) := by
    rw [queryValues, l.parseQsl_query, List.filter_append, headFields,
      List.filter_cons_of_pos (by simp), List.cons_append, List.map_cons, l.btihValue_eq]
  rw [parseMagnet, hurl]
  dsimp only
  rw [if_neg (not_not_intro rfl), hxts, Option.getD_some, if_neg (l.hashStr_ne use_base32),
    l.hexOrBase32ToBytes_hashStr]
  rfl

/-- Without signs that divide the query every field is read back. -/
theorem parseQsl_query_eq (h : ∀ url ∈ l.trackers ++ l.web_seeds, ∀ c ∈ ['&', '#', '+'], c ∉ url) :
    parseQsl (l.query use_base32) = l.fields use_base32 := by
  have hquoted := l.quotedFields use_base32 (List.Subset.refl _)
  have hharmless : ∀ field ∈ l.fields use_base32, ∀ c ∈ ['&', '#', '+'], c ∈ field.2 →
      c ∉ fieldSigns field.1 := by
    intro field hfield c hc hmem
    rcases List.mem_append.mp hfield with hfield | hfield
    · exact (l.harmless_headFields use_base32 hfield).notMem c hc hmem
    · rcases l.tailFields_cases hfield with hurl | hharmless
      · exact absurd hmem (h field.2 hurl c hc)
      · exact hharmless.notMem c hc hmem
  rw [query, hquoted.takeWhile_query hharmless, hquoted.parseQsl_eq (by simp [fields, headFields])
    hharmless]

end Link

end Reading

section RoundTrip

variable {checkNetloc : Str → Bool} {l : Link} {use_base32 : Bool}

theorem filter_map_mk (name name' : Str) (values : List Str) :
    ((values.map (Prod.mk name)).filter fun field => field.1 = name').map Prod.snd =
      if name = name' then values else [] := by
  induction values with
  | nil => split <;> rfl
  | cons value values ih =>
    by_cases hname : name = name'
    · rw [if_pos hname] at ih ⊢
      rw [List.map_cons, List.filter_cons_of_pos (by simpa using hname), List.map_cons, ih]
    · rw [if_neg hname] at ih ⊢
      rw [List.map_cons, List.filter_cons_of_neg (by simpa using hname), ih]

theorem lookup_map_mk {name name' : Str} (h : name' ≠ name) (values : List Str) :
    (values.map (Prod.mk name)).lookup name' = none := by
  induction values with
  | nil => rfl
  | cons value values ih => rw [List.map_cons, List.lookup_cons, beq_false_of_ne h, ih]

/-- A URL that comes back has no sign that divides the query or stands for a blank. -/
theorem RoundTrips.notMem (h : RoundTrips checkNetloc l use_base32) :
    ∀ url ∈ l.trackers ++ l.web_seeds, ∀ c ∈ ['&', '#', '+'], c ∉ url := by
  obtain ⟨info, hparse, hmatches⟩ := h
  rw [l.parseMagnet_uri] at hparse
  obtain rfl := Except.ok.inj hparse
  have hvalues : ∀ name ∈ ["tr".toList, "ws".toList],
      ∀ url ∈ queryValues (l.query use_base32) name, ∀ c ∈ ['&', '#', '+'], c ∉ url := by
    intro name hname url hurl
    obtain ⟨field, hfield, rfl⟩ := List.mem_map.mp hurl
    obtain ⟨hmem, heq⟩ := List.mem_filter.mp hfield
    rw [decide_eq_true_eq] at heq
    refine l.notMem_of_mem_parseQsl use_base32 hmem ?_
    rw [heq]
    have hnames : ∀ name ∈ ["tr".toList, "ws".toList], name ∉ ["xt".toList, "dn".toList] := by
      decide
    exact hnames name hname
  have htrackers := hmatches.trackers
  have hweb_seeds := hmatches.web_seeds
  dsimp only [Link.readInfo] at htrackers hweb_seeds
  intro url hurl
  rcases List.mem_append.mp hurl with hurl | hurl
  · rw [← htrackers] at hurl
    exact hvalues "tr".toList List.mem_cons_self url hurl
  · rw [← hweb_seeds] at hurl
    exact hvalues "ws".toList (List.mem_cons_of_mem _ List.mem_cons_self) url hurl

section Values

variable (l : Link) (use_base32 : Bool) (name : Str)

/-- The values that the fields of a link have under a name. -/
theorem Link.values_fields (hhead : name ∉ ["xt".toList, "dn".toList, "so".toList, "x.pe".toList]) :
    ((l.fields use_base32).filter fun field => field.1 = name).map Prod.snd =
      (if "tr".toList = name then l.trackers else []) ++
        if "ws".toList = name then l.web_seeds else [] := by
  simp only [List.mem_cons, List.not_mem_nil, or_false, not_or] at hhead
  obtain ⟨hxt, hdn, hso, hpe⟩ := hhead
  have hhead : (l.headFields use_base32).filter (fun field => field.1 = name) = [] := by
    rw [headFields, List.filter_cons_of_neg (by simpa using Ne.symm hxt),
      List.filter_cons_of_neg (by simpa using Ne.symm hdn)]
    rfl
  have hindices : [("so".toList, l.soValue), ("x.pe".toList, l.peValue)].filter
      (fun field => field.1 = name) = [] := by
    rw [List.filter_cons_of_neg (by simpa using Ne.symm hso),
      List.filter_cons_of_neg (by simpa using Ne.symm hpe)]
    rfl
  rw [fields, tailFields, List.filter_append, List.filter_append, List.filter_append, hhead,
    hindices, List.nil_append, List.append_nil, List.map_append, filter_map_mk, filter_map_mk]

/-- The value that the fields of a link have under the name of a list of indices. -/
theorem Link.lookup_fields
    (hurls : name ∉ ["xt".toList, "dn".toList, "tr".toList, "ws".toList]) :
    (l.fields use_base32).lookup name =
      [("so".toList, l.soValue), ("x.pe".toList, l.peValue)].lookup name := by
  simp only [List.mem_cons, List.not_mem_nil, or_false, not_or] at hurls
  obtain ⟨hxt, hdn, htr, hws⟩ := hurls
  have hhead : (l.headFields use_base32).lookup name = none := by
    rw [headFields, List.lookup_cons, beq_false_of_ne hxt, List.lookup_cons, beq_false_of_ne hdn]
    rfl
  rw [fields, tailFields, List.lookup_append, List.lookup_append, List.lookup_append, hhead,
    lookup_map_mk htr, lookup_map_mk hws]
  rfl

end Values

/-- What is read of the fields of a link is what they were written for. -/
theorem Link.matches_readInfo (h : parseQsl (l.query use_base32) = l.fields use_base32) :
    l.Matches (l.readInfo use_base32) := by
  have hdn : queryGet (l.query use_base32) "dn".toList = some l.display_name := by
    rw [queryGet, h]
    rfl
  have hso : queryGet (l.query use_base32) "so".toList = some l.soValue := by
    rw [queryGet, h, l.lookup_fields use_base32 _ (by decide)]
    rfl
  have hpe : queryGet (l.query use_base32) "x.pe".toList = some l.peValue := by
    rw [queryGet, h, l.lookup_fields use_base32 _ (by decide)]
    rfl
  have htr : queryValues (l.query use_base32) "tr".toList = l.trackers := by
    rw [queryValues, h, l.values_fields use_base32 _ (by decide), if_pos rfl,
      if_neg (by decide), List.append_nil]
  have hws : queryValues (l.query use_base32) "ws".toList = l.web_seeds := by
    rw [queryValues, h, l.values_fields use_base32 _ (by decide), if_neg (by decide),
      if_pos rfl, List.nil_append]
  obtain ⟨priorities, hparse, hget⟩ := l.parsePrioritizedIndices_peValue
  have hindices : (parseIndexList l.soValue).toOption = some l.indices := by
    rw [l.parseIndexList_soValue]
    rfl
  have hpriorities : (parsePrioritizedIndices l.peValue).toOption = some priorities := by
    rw [hparse]
    rfl
  rw [readInfo, hdn, hso, hpe, htr, hws, Option.bind_some, Option.bind_some, hindices, hpriorities]
  exact ⟨rfl, rfl, rfl, rfl, rfl, priorities, rfl, hget⟩

/-- A link comes back exactly if its URLs have none of the signs that a query gives a meaning. -/
theorem roundTrips_iff_unreserved (checkNetloc : Str → Bool) (l : Link) (use_base32 : Bool) :
    RoundTrips checkNetloc l use_base32 ↔
      ∀ url ∈ l.trackers ++ l.web_seeds, ∀ c ∈ ['&', '#', '+'], c ∉ url := by
  refine ⟨fun h => h.notMem, fun h => ⟨l.readInfo use_base32, l.parseMagnet_uri use_base32 _, ?_⟩⟩
  exact l.matches_readInfo (l.parseQsl_query_eq use_base32 h)

theorem length_zeroHash : (List.replicate 20 (0 : UInt8)).length = 20 := List.length_replicate

/-- A tracker with two parameters. -/
def passkeyLink : Link where
  info_hash := List.replicate 20 0
  display_name := "name".toList
  trackers := ["http://t.example/announce?a=1&b=2".toList]
  web_seeds := []
  selected_indices := [0]
  prioritized_indices := ⟨[(0, 1)], by decide⟩
  length_info_hash := length_zeroHash
  name_ne := by decide
  urls_ne := by decide
  indices_ne := by decide
  indices_nonneg := by decide
  priorities_ne := by decide
  priorities_bounds := by decide

/-- Its second parameter is read as another field of the link. -/
theorem passkeyLink_not_roundTrips : ¬RoundTrips (fun _ => true) passkeyLink false := by
  intro h
  exact h.notMem "http://t.example/announce?a=1&b=2".toList (by decide) '&' (by decide) (by decide)

end RoundTrip

end Ccbt.Magnet

import Ccbt.Security.IpRanges
import Mathlib.Data.List.TakeWhile

/-!
# Lines of filter files

`_parse_and_add_line` of `security/ip_filter.py`. A line gives a text, and what follows it is a
description. The line is cut at its spaces before the range is looked for, so that of a range that is
written with spaces around its dash only the start is read.
-/

namespace Ccbt.IpFilter

open Python Python.IpAddress

section Lines

def firstWord (line : Str) : Str := (line.dropWhile isStripped).takeWhile (!isStripped ·)

def joinDashes : Str → Str
  | ' ' :: '-' :: ' ' :: text => '-' :: joinDashes text
  | c :: text => c :: joinDashes text
  | [] => []

/-- `_parse_and_add_line`, with its result unless a `TypeError` leaves it. -/
def parseAndAddLine (f : IPFilter) (line : Str) (mode : Option FilterMode) (source : Str) :
    IPFilter × Option Bool :=
  let line := stripText line
  if line = [] ∨ line.head? = some '#' then (f, some true)
  else
    let ip_part :=
      if " - ".toList <:+: line ∨ ('-' ∈ line ∧ '/' ∉ line) then
        joinDashes (if ' ' ∈ line then firstWord line else line)
      else if ' ' ∈ line then firstWord line else line
    f.addRule ip_part mode 0 source

/-- The loop of `load_from_file` over the lines: how many rules are loaded and how many errors there
are. An exception ends it as one more error. -/
def loadLines (mode : Option FilterMode) (source : Str) (f : IPFilter) :
    List Str → IPFilter × Nat × Nat
  | [] => (f, 0, 0)
  | line :: lines =>
    match parseAndAddLine f line mode source with
    | (f, none) => (f, 0, 1)
    | (f, some added) =>
      let (f, loaded, errors) := loadLines mode source f lines
      if added then (f, loaded + 1, errors) else (f, loaded, errors + 1)

end Lines

section Meaning

/-- A line that is empty or a comment. -/
def IsSkipped (line : Str) : Prop := stripText line = [] ∨ (stripText line).head? = some '#'

instance (line : Str) : Decidable (IsSkipped line) := inferInstanceAs (Decidable (_ ∨ _))

/-- The text that a line gives: its first word, if there is a space, and else all of it. -/
def lineText (line : Str) : Str :=
  let line := stripText line
  if ' ' ∈ line then firstWord line else line

/-- The addresses of a line `start - end`, which may go on with a description. -/
def spacedRange (line : Str) : Option (Address × Address) := do
  let line := stripText line
  let start := firstWord line
  let rest := line.drop start.length
  if '-' ∉ start ∧ " - ".toList <+: rest then
    let start_ip ← ipAddress start
    let end_ip ← ipAddress (firstWord (rest.drop 3))
    some (start_ip, end_ip)
  else none

/-- The addresses that a line writes, in one of the forms `start-end`, `start - end`, CIDR and single
address. -/
def lineRange (line : Str) : Option IpRange :=
  match spacedRange line with
  | some (start_ip, end_ip) => fromTo start_ip end_ip
  | none => written (lineText line)

/-- The text is a range from an address of one version to one of the other. -/
def MixesVersions (text : Str) : Prop :=
  let text := stripText text
  '/' ∉ text ∧ '-' ∈ text ∧
    ∃ start_ip end_ip, ipAddress (stripText (text.takeWhile (· ≠ '-'))) = some start_ip ∧
      ipAddress (stripText (text.dropWhile (· ≠ '-')).tail) = some end_ip ∧
      start_ip.version ≠ end_ip.version

/-- A rule for the addresses is added, or an error is reported and nothing changed. -/
def AddsRange (f : IPFilter) (mode : Option FilterMode) (source : Str) (range : Option IpRange)
    (result : IPFilter × Option Bool) : Prop :=
  match range with
  | some r => result.2 = some true ∧ ∃ network,
      result.1.rules = f.rules ++ [{ network, mode := mode.getD f.mode, source }] ∧
      ∀ a, network.Contains a ↔ r.Contains a
  | none => result = (f, some false)

/-- What is done with a line is what it says: a rule for its addresses is added, or else nothing is
changed, and it counts as an error unless it is empty or a comment. -/
def DoesAsWritten (f : IPFilter) (line : Str) (mode : Option FilterMode) (source : Str)
    (result : IPFilter × Option Bool) : Prop :=
  if IsSkipped line then result = (f, some true) else AddsRange f mode source (lineRange line) result

/-- The line is read as it is written: a range with spaces has one address only, and another range
is one network or no range at all of two versions. -/
structure IsReadable (line : Str) : Prop where
  spaced : ∀ start_ip end_ip, spacedRange line = some (start_ip, end_ip) → start_ip = end_ip
  block : spacedRange line = none → ∀ r, lineRange line = some r → r.IsBlock
  versions : spacedRange line = none → ¬MixesVersions (lineText line)

end Meaning

section Words

variable {line s : Str}

theorem not_isStripped_firstWord (line : Str) : ∀ c ∈ firstWord line, isStripped c = false := by
  intro c hc
  have htake := List.mem_takeWhile_imp hc
  rwa [Bool.not_eq_true'] at htake

theorem joinDashes_eq_self (h : ' ' ∉ s) : joinDashes s = s := by
  induction s using joinDashes.induct with
  | case1 text ih => exact absurd List.mem_cons_self h
  | case2 c text hne ih =>
    rw [List.mem_cons, not_or] at h
    rw [joinDashes, ih h.2]
    exact hne
  | case3 => rfl

theorem space_not_mem_lineText (line : Str) : ' ' ∉ lineText line := by
  rw [lineText]
  split
  · intro hspace
    have hfalse := not_isStripped_firstWord _ _ hspace
    revert hfalse
    decide
  · assumption

/-- Whichever form is supposed, the same text is read. -/
theorem parseAndAddLine_eq (f : IPFilter) (mode : Option FilterMode) (source : Str)
    (h : ¬IsSkipped line) :
    parseAndAddLine f line mode source = f.addRule (lineText line) mode 0 source := by
  rw [parseAndAddLine]
  refine (if_neg h).trans ?_
  show f.addRule (if _ then joinDashes (lineText line) else lineText line) mode 0 source = _
  rw [joinDashes_eq_self (space_not_mem_lineText line), ite_self]

end Words

section Rules

variable {f : IPFilter} {text : Str} {mode : Option FilterMode} {source : Str} {network : Network}
  {is_ipv4 : Bool} {error : RangeError}

theorem addRule_of_ok (f : IPFilter) (mode : Option FilterMode) (source : Str)
    (h : parseIpRange text = .ok (network, is_ipv4)) :
    (f.addRule text mode 0 source).2 = some true ∧
      (f.addRule text mode 0 source).1.rules =
        f.rules ++ [{ network, mode := mode.getD f.mode, source }] := by
  have hcall : parseIpRange (RuleCall.add text mode 0 source).ip_range = .ok (network, is_ipv4) := h
  refine ⟨?_, (step_of_ok hcall).1⟩
  rw [IPFilter.addRule, h]
  cases is_ipv4 <;> rfl

/-- A text that is no range changes nothing, and is reported unless versions are mixed. -/
theorem addRule_of_error (h : parseIpRange text = .error error) :
    f.addRule text mode 0 source = (f, some false) ↔ error ≠ .versions := by
  rw [IPFilter.addRule, h]
  cases error with
  | versions => simp
  | cidr | range | address => simp

theorem parseIpRange_versions_iff (text : Str) :
    parseIpRange text = .error .versions ↔ MixesVersions text := by
  rw [parseIpRange, MixesVersions]
  dsimp only
  by_cases hslash : '/' ∈ stripText text
  · rw [if_pos hslash]
    refine iff_of_false ?_ fun h => h.1 hslash
    split
    · exact nofun
    · exact nofun
  by_cases hdash : '-' ∈ stripText text
  · rw [if_neg hslash, if_pos hdash, and_iff_right hslash, and_iff_right hdash]
    split
    · next start_ip end_ip hstart hend =>
      rw [hstart, hend]
      split_ifs with hversion hlt
      · exact iff_of_true rfl ⟨start_ip, end_ip, rfl, rfl, hversion.symm⟩
      · refine iff_of_false nofun ?_
        rintro ⟨a, b, ha, hb, hne⟩
        cases ha
        cases hb
        exact hversion hne.symm
      · refine iff_of_false ?_ ?_
        · split
          · exact nofun
          · exact nofun
        · rintro ⟨a, b, ha, hb, hne⟩
          cases ha
          cases hb
          exact hversion hne.symm
    · next hnone =>
      refine iff_of_false nofun ?_
      rintro ⟨a, b, ha, hb, -⟩
      exact hnone a b ha hb
  · rw [if_neg hslash, if_neg hdash]
    refine iff_of_false ?_ fun h => hdash h.2.1
    split
    · exact nofun
    · exact nofun

theorem ipAddress_slash {a : Address} (h : ipAddress text = some a) : '/' ∉ text := by
  intro hslash
  rw [ipAddress, parseAddress, parseAddress, if_pos hslash, if_pos hslash] at h
  cases h

/-- One address without a dash is read as such. -/
theorem parseIpRange_address {a : Address} (hword : ∀ c ∈ text, isStripped c = false)
    (hdash : '-' ∉ text) (h : ipAddress text = some a) : parseIpRange text =
      .ok (networkOf a.version a ⟨_, Nat.le_refl _⟩, a.version = .v4) := by
  rw [parseIpRange, stripText_eq_self hword]
  dsimp only
  rw [if_neg (ipAddress_slash h), if_neg hdash, h]

end Rules

section Exactness

variable {f : IPFilter} {line : Str} {mode : Option FilterMode} {source : Str}

/-- The text of a line with a spaced range is the start of the range. -/
theorem lineText_of_spacedRange {start_ip end_ip : Address}
    (h : spacedRange line = some (start_ip, end_ip)) : '-' ∉ lineText line ∧
      (∀ c ∈ lineText line, isStripped c = false) ∧ ipAddress (lineText line) = some start_ip := by
  dsimp only [spacedRange] at h
  split_ifs at h with hform
  obtain ⟨hdash, hdashed⟩ := hform
  obtain ⟨start_ip', hstart, h⟩ := Option.bind_eq_some_iff.mp h
  obtain ⟨end_ip', -, h⟩ := Option.bind_eq_some_iff.mp h
  cases h
  have hspace : ' ' ∈ stripText line := List.mem_of_mem_drop (hdashed.subset List.mem_cons_self)
  have htext : lineText line = firstWord (stripText line) := if_pos hspace
  rw [htext]
  exact ⟨hdash, not_isStripped_firstWord _, hstart⟩

theorem isReadable_of_spacedRange {start_ip end_ip : Address}
    (h : spacedRange line = some (start_ip, end_ip)) : IsReadable line ↔ start_ip = end_ip := by
  have hsome : spacedRange line ≠ none := by
    rw [h]
    exact Option.some_ne_none _
  refine ⟨fun hread => hread.spaced _ _ h, fun heq => ⟨?_, fun hnone => absurd hnone hsome,
    fun hnone => absurd hnone hsome⟩⟩
  intro a b hab
  rw [h] at hab
  cases hab
  exact heq

theorem isReadable_of_not_spacedRange (h : spacedRange line = none) : IsReadable line ↔
    (∀ r, written (lineText line) = some r → r.IsBlock) ∧ ¬MixesVersions (lineText line) := by
  have hrange : lineRange line = written (lineText line) := by rw [lineRange, h]
  constructor
  · intro hread
    exact ⟨hrange ▸ hread.block h, hread.versions h⟩
  · rintro ⟨hblock, hversions⟩
    refine ⟨fun a b hab => ?_, fun _ => hrange ▸ hblock, fun _ => hversions⟩
    rw [h] at hab
    cases hab

/-- Of a spaced range the start is added. -/
theorem addsFromTo_iff (f : IPFilter) (mode : Option FilterMode) (source : Str)
    {start_ip end_ip : Address} (h : spacedRange line = some (start_ip, end_ip)) :
    AddsRange f mode source (fromTo start_ip end_ip) (f.addRule (lineText line) mode 0 source) ↔
      start_ip = end_ip := by
  obtain ⟨hdash, hword, hstart⟩ := lineText_of_spacedRange h
  obtain ⟨hadded, hrules⟩ := addRule_of_ok f mode source
    (parseIpRange_address hword hdash hstart)
  have hcontains : ∀ a, (networkOf start_ip.version start_ip ⟨_, Nat.le_refl _⟩).Contains a ↔
      a.version = start_ip.version ∧ start_ip.ip ≤ a.ip ∧ a.ip ≤ start_ip.ip := by
    intro a
    show (networkRange (networkOf _ start_ip ⟨_, Nat.le_refl _⟩)).Contains a ↔ _
    rw [networkRange_networkOf_self]
    exact Iff.rfl
  cases hrange : fromTo start_ip end_ip with
  | none =>
    refine iff_of_false (fun hsame => ?_) ?_
    · have hfalse := congrArg Prod.snd hsame
      rw [hadded] at hfalse
      cases hfalse
    · rintro rfl
      rw [fromTo, if_pos ⟨rfl, fun hgt => hgt.2 rfl⟩] at hrange
      cases hrange
  | some r =>
    obtain ⟨hversion, hgt, hle, rfl⟩ := fromTo_eq_some hrange
    constructor
    · rintro ⟨-, network, hrules', hcovers⟩
      have hrule := List.append_cancel_left (hrules.symm.trans hrules')
      have hnetwork : networkOf start_ip.version start_ip ⟨_, Nat.le_refl _⟩ = network := by
        rw [List.cons.injEq, IPFilterRule.mk.injEq] at hrule
        exact hrule.1.1
      have hend := ((hcovers end_ip).mpr ⟨hversion.symm, hle, Nat.le_refl _⟩)
      rw [← hnetwork, hcontains] at hend
      by_contra hne
      exact hgt ⟨Nat.not_lt.mpr hend.2.2, hne⟩
    · rintro rfl
      exact ⟨hadded, _, hrules, hcontains⟩

/-- Of another text the first network is added. -/
theorem addsWritten_iff (f : IPFilter) (text : Str) (mode : Option FilterMode) (source : Str) :
    AddsRange f mode source (written text) (f.addRule text mode 0 source) ↔
      (∀ r, written text = some r → r.IsBlock) ∧ ¬MixesVersions text := by
  cases hwritten : written text with
  | none =>
    obtain ⟨error, herror⟩ := parse_of_not_written hwritten
    have hversions : MixesVersions text ↔ error = .versions := by
      rw [← parseIpRange_versions_iff, herror, Except.error.injEq]
    rw [hversions, and_iff_right fun r hr => by cases hr]
    exact addRule_of_error herror
  | some r =>
    obtain ⟨network, is_ipv4, hparse, hrange, hmissed⟩ := parse_of_written hwritten
    obtain ⟨hadded, hrules⟩ := addRule_of_ok f mode source hparse
    have hversions : ¬MixesVersions text := by
      rw [← parseIpRange_versions_iff, hparse]
      exact nofun
    rw [and_iff_left hversions]
    constructor
    · rintro ⟨-, network', hrules', hcovers⟩ r' hr'
      cases hr'
      have hrule := List.append_cancel_left (hrules.symm.trans hrules')
      rw [List.cons.injEq, IPFilterRule.mk.injEq] at hrule
      obtain rfl : network = network' := hrule.1.1
      by_contra hblock
      obtain ⟨ip, a, -, hcontains, hnot⟩ := hmissed hblock
      exact hnot ((hcovers a).mpr hcontains)
    · intro hblock
      obtain rfl := hrange (hblock r rfl)
      exact ⟨hadded, network, hrules, fun a => Iff.rfl⟩

/-- A line that is not skipped adds what it writes if and only if it is readable. -/
theorem addsRange_iff (f : IPFilter) (mode : Option FilterMode) (source : Str)
    (hskip : ¬IsSkipped line) :
    AddsRange f mode source (lineRange line) (parseAndAddLine f line mode source) ↔
      IsReadable line := by
  rw [parseAndAddLine_eq f mode source hskip]
  cases hspaced : spacedRange line with
  | some addresses =>
    obtain ⟨start_ip, end_ip⟩ := addresses
    rw [isReadable_of_spacedRange hspaced, lineRange, hspaced]
    exact addsFromTo_iff f mode source hspaced
  | none =>
    rw [isReadable_of_not_spacedRange hspaced, lineRange, hspaced]
    exact addsWritten_iff f (lineText line) mode source

theorem parseAndAddLine_of_skipped (f : IPFilter) (mode : Option FilterMode) (source : Str)
    (hskip : IsSkipped line) : parseAndAddLine f line mode source = (f, some true) := by
  rw [parseAndAddLine]
  exact if_pos hskip

/-- A line is done as it is written if and only if it is skipped or readable. -/
theorem doesAsWritten_iff (f : IPFilter) (line : Str) (mode : Option FilterMode) (source : Str) :
    DoesAsWritten f line mode source (parseAndAddLine f line mode source) ↔
      IsSkipped line ∨ IsReadable line := by
  rw [DoesAsWritten]
  split
  · next hskip => exact iff_of_true (parseAndAddLine_of_skipped f mode source hskip) (.inl hskip)
  · next hskip =>
    rw [or_iff_right hskip]
    exact addsRange_iff f mode source hskip

/-- Of 256 addresses the first is blocked. -/
theorem not_doesAsWritten_spaced :
    ¬DoesAsWritten {} "192.168.1.0 - 192.168.1.255 Description".toList none "test".toList
      (parseAndAddLine {} "192.168.1.0 - 192.168.1.255 Description".toList none "test".toList) := by
  have hskip : ¬IsSkipped "192.168.1.0 - 192.168.1.255 Description".toList := by decide
  have hspaced : spacedRange "192.168.1.0 - 192.168.1.255 Description".toList =
      some ({ version := .v4, ip := 0xC0A80100 }, { version := .v4, ip := 0xC0A801FF }) := by
    decide +kernel
  rw [DoesAsWritten, if_neg hskip, addsRange_iff _ _ _ hskip, isReadable_of_spacedRange hspaced]
  decide

end Exactness

section Files

variable {mode : Option FilterMode} {source : Str}

/-- A line that counts as an error. -/
def IsError (line : Str) : Prop := ¬IsSkipped line ∧ lineRange line = none

instance (line : Str) : Decidable (IsError line) := inferInstanceAs (Decidable (_ ∧ _))

/-- The address is in the range of a line. -/
def LineContains (line : Str) (a : Address) : Prop :=
  ¬IsSkipped line ∧ ∃ r, lineRange line = some r ∧ r.Contains a

/-- What a readable line does: the rules cover the addresses that it writes besides. -/
theorem covers_parseAndAddLine (f : IPFilter) (mode : Option FilterMode) (source : Str) {line : Str}
    (h : IsSkipped line ∨ IsReadable line) :
    (parseAndAddLine f line mode source).2 = some (decide ¬IsError line) ∧
      ∀ a, (∃ rule ∈ (parseAndAddLine f line mode source).1.rules, rule.network.Contains a) ↔
        (∃ rule ∈ f.rules, rule.network.Contains a) ∨ LineContains line a := by
  by_cases hskip : IsSkipped line
  · have hnoerror : ¬IsError line := fun h => h.1 hskip
    rw [parseAndAddLine_of_skipped f mode source hskip, decide_eq_true hnoerror]
    exact ⟨rfl, fun a => (or_iff_left fun h => h.1 hskip).symm⟩
  · have hadds := (addsRange_iff f mode source hskip).mpr (h.resolve_left hskip)
    cases hrange : lineRange line with
    | none =>
      rw [hrange] at hadds
      have herror : IsError line := ⟨hskip, hrange⟩
      rw [show parseAndAddLine f line mode source = _ from hadds]
      refine ⟨by simp [herror], fun a => (or_iff_left ?_).symm⟩
      rintro ⟨-, r, hr, -⟩
      rw [hrange] at hr
      cases hr
    | some r =>
      rw [hrange] at hadds
      obtain ⟨hadded, network, hrules, hcovers⟩ := hadds
      have hnoerror : ¬IsError line := fun h => by simp [h.2] at hrange
      rw [hadded, hrules, decide_eq_true hnoerror]
      refine ⟨rfl, fun a => ?_⟩
      have hline : LineContains line a ↔ r.Contains a := by
        rw [LineContains, and_iff_right hskip, hrange]
        simp
      rw [hline, ← hcovers a]
      simp [or_and_right, exists_or]

/-- A file of readable lines is loaded as it is written: the lines that write nothing are errors, and
the rules cover what the others write. -/
theorem loadLines_of_readable (f : IPFilter) {lines : List Str}
    (h : ∀ line ∈ lines, IsSkipped line ∨ IsReadable line) :
    (loadLines mode source f lines).2.2 = lines.countP (fun line => IsError line) ∧
      (loadLines mode source f lines).2.1 = lines.countP (fun line => ¬IsError line) ∧
      ∀ a, (∃ rule ∈ (loadLines mode source f lines).1.rules, rule.network.Contains a) ↔
        (∃ rule ∈ f.rules, rule.network.Contains a) ∨ ∃ line ∈ lines, LineContains line a := by
  induction lines generalizing f with
  | nil => exact ⟨rfl, rfl, fun a => by simp [loadLines]⟩
  | cons line lines ih =>
    obtain ⟨hline, hlines⟩ := List.forall_mem_cons.mp h
    obtain ⟨hresult, hcovers⟩ := covers_parseAndAddLine f mode source hline
    cases hparse : parseAndAddLine f line mode source with
    | mk next result =>
      rw [hparse] at hresult hcovers
      obtain rfl : result = some (decide ¬IsError line) := hresult
      obtain ⟨herrors, hloaded, hall⟩ := ih next hlines
      have hrules : ∀ a, (∃ rule ∈ (loadLines mode source next lines).1.rules,
          rule.network.Contains a) ↔ (∃ rule ∈ f.rules, rule.network.Contains a) ∨
            ∃ l ∈ line :: lines, LineContains l a := by
        intro a
        rw [hall a, hcovers a, List.exists_mem_cons_iff, or_assoc]
      rw [loadLines, hparse, List.countP_cons, List.countP_cons]
      dsimp only
      by_cases herror : IsError line
      · simp only [herror, not_true_eq_false, decide_false, decide_true, if_true, if_false,
          Bool.false_eq_true, Nat.add_zero]
        exact ⟨by rw [herrors], hloaded, hrules⟩
      · simp only [herror, not_false_eq_true, decide_false, decide_true, if_true, if_false,
          Bool.false_eq_true, Nat.add_zero]
        exact ⟨herrors, by rw [hloaded], hrules⟩

/-- A list with a comment, one network and a line that is no range. -/
def privateList : List Str :=
  ["# private".toList, "10.0.0.0/8 class A".toList, "nonsense".toList]

/-- Of the list of one network, the network is what the rules cover. -/
theorem loadLines_of_readable_private :
    (loadLines none [] {} privateList).2.2 = 1 ∧ (loadLines none [] {} privateList).2.1 = 2 ∧
      ∀ a, (∃ rule ∈ (loadLines none [] {} privateList).1.rules, rule.network.Contains a) ↔
        ∃ line ∈ privateList, LineContains line a := by
  have hnetwork : IsReadable "10.0.0.0/8 class A".toList := by
    have hrange : written (lineText "10.0.0.0/8 class A".toList) =
        some { version := .v4, first := 0x0A000000, last := 0x0AFFFFFF } := by decide +kernel
    refine (isReadable_of_not_spacedRange (by decide +kernel)).mpr
      ⟨fun r hr => ?_, fun hmixes => hmixes.1 (by decide +kernel)⟩
    obtain rfl := Option.some.inj (hrange.symm.trans hr)
    exact ⟨24, by decide, by decide, by decide⟩
  have hnonsense : IsReadable "nonsense".toList := by
    have hrange : written (lineText "nonsense".toList) = none := by decide +kernel
    refine (isReadable_of_not_spacedRange (by decide +kernel)).mpr
      ⟨fun r hr => ?_, fun hmixes => absurd hmixes.2.1 (by decide +kernel)⟩
    cases hrange.symm.trans hr
  have hreadable : ∀ line ∈ privateList, IsSkipped line ∨ IsReadable line := by
    rw [privateList, List.forall_mem_cons, List.forall_mem_cons, List.forall_mem_singleton]
    exact ⟨.inl (by decide), .inr hnetwork, .inr hnonsense⟩
  obtain ⟨herrors, hloaded, hcovers⟩ := loadLines_of_readable {} hreadable
  refine ⟨herrors.trans (by decide +kernel), hloaded.trans (by decide +kernel), fun a => ?_⟩
  rw [hcovers a]
  refine or_iff_right ?_
  rintro ⟨rule, hrule, -⟩
  cases hrule

end Files

end Ccbt.IpFilter

import Ccbt.Precedence.Rank
import Ccbt.Python.IpAddress
import Ccbt.Transition.Run

/-!
# The IP filter

Rules are written as CIDR, as a range or as one address. Each is kept as a network twice: in the
list of the rules, and in a list for its version that `is_blocked` looks into.
-/

namespace Ccbt

open Python Python.IpAddress Transition

namespace IpFilter

inductive FilterMode
  | block
  | allow
deriving DecidableEq

structure IPFilterRule where
  network : Network
  mode : FilterMode
  priority : Int := 0
  source : Str := "manual".toList
deriving DecidableEq

structure Stats where
  matched : Nat := 0
  blocks : Nat := 0
  allows : Nat := 0

structure IPFilter where
  ipv4_ranges : List Network := []
  ipv6_ranges : List Network := []
  rules : List IPFilterRule := []
  stats : Stats := {}
  enabled : Bool := false
  mode : FilterMode := .block

/-- The errors of `_parse_ip_range`: the first is a `TypeError`, the others are `ValueError`s. -/
inductive RangeError
  /-- "Range start and end must be same IP version" -/
  | versions
  /-- "Invalid CIDR notation" -/
  | cidr
  /-- "Invalid IP range" -/
  | range
  /-- "Invalid IP address or range" -/
  | address

def parseIpRange (ip_range : Str) : Except RangeError (Network × Bool) :=
  let ip_range := stripText ip_range
  if '/' ∈ ip_range then
    match ipNetwork ip_range with
    | some network => .ok (network, network.version = .v4)
    | none => .error .cidr
  else if '-' ∈ ip_range then
    let start_str := stripText (ip_range.takeWhile (· ≠ '-'))
    let end_str := stripText (ip_range.dropWhile (· ≠ '-')).tail
    match ipAddress start_str, ipAddress end_str with
    | some start_ip, some end_ip =>
      if end_ip.version ≠ start_ip.version then .error .versions
      else if end_ip.ip < start_ip.ip then .error .range
      else
        match summarizeAddressRange start_ip end_ip with
        -- the first of the networks, though there may be more
        | some (network :: _) => .ok (network, network.version = .v4)
        | _ => .error .range
    | _, _ => .error .range
  else
    match ipAddress ip_range with
    -- the address is written out with `/32` or `/128` and read again
    | some ip_addr =>
      .ok (networkOf ip_addr.version ip_addr ⟨_, Nat.le_refl _⟩, ip_addr.version = .v4)
    | none => .error .address

namespace IPFilter

variable (f : IPFilter)

section Queries

/-- The loop of `_is_ipv4_in_ranges` and of `_is_ipv6_in_ranges` -/
def isInRanges (ranges : List Network) (ip_int : Nat) : Bool :=
  ranges.any fun network => network.network_address ≤ ip_int && ip_int ≤ network.broadcast_address

def isIpInRanges (ip : Address) : Bool :=
  match ip.version with
  | .v4 => isInRanges f.ipv4_ranges ip.ip
  | .v6 => isInRanges f.ipv6_ranges ip.ip

def isBlocked (ip : Str) : IPFilter × Bool :=
  if !f.enabled then (f, false)
  else
    match ipAddress ip with
    -- blocked for security
    | none => (f, true)
    | some ip_addr =>
      let is_in_filter := f.isIpInRanges ip_addr
      let f := { f with stats.matched := f.stats.matched + 1 }
      let blocked := { f with stats.blocks := f.stats.blocks + 1 }
      match f.mode, is_in_filter with
      | .block, true => (blocked, true)
      | .block, false => (f, false)
      | .allow, true => ({ f with stats.allows := f.stats.allows + 1 }, false)
      | .allow, false => (blocked, true)

end Queries

section Rules

/-- `add_rule`, with its result unless a `TypeError` leaves it. -/
def addRule (ip_range : Str) (mode : Option FilterMode) (priority : Int) (source : Str) :
    IPFilter × Option Bool :=
  match parseIpRange ip_range with
  | .error .versions => (f, none)
  | .error _ => (f, some false)
  | .ok (network, is_ipv4) =>
    let rule := { network, mode := mode.getD f.mode, priority, source }
    let f := { f with rules := f.rules ++ [rule] }
    if is_ipv4 then
      let ipv4_ranges := sortOn Network.network_address (f.ipv4_ranges ++ [network])
      ({ f with ipv4_ranges }, some true)
    else
      let ipv6_ranges := sortOn Network.network_address (f.ipv6_ranges ++ [network])
      ({ f with ipv6_ranges }, some true)

/-- `remove_rule`, with its result unless a `TypeError` leaves it. -/
def removeRule (ip_range : Str) : IPFilter × Option Bool :=
  match parseIpRange ip_range with
  | .error .versions => (f, none)
  | .error _ => (f, some false)
  | .ok (network, is_ipv4) =>
    let f := { f with rules := f.rules.filter (·.network ≠ network) }
    if is_ipv4 then
      let ipv4_ranges := f.ipv4_ranges.filter (· ≠ network)
      ({ f with ipv4_ranges }, some (ipv4_ranges.length < f.ipv4_ranges.length))
    else
      let ipv6_ranges := f.ipv6_ranges.filter (· ≠ network)
      ({ f with ipv6_ranges }, some (ipv6_ranges.length < f.ipv6_ranges.length))

end Rules

end IPFilter

/-- A call that changes the rules. -/
inductive RuleCall
  | add (ip_range : Str) (mode : Option FilterMode) (priority : Int) (source : Str)
  | remove (ip_range : Str)

def RuleCall.ip_range : RuleCall → Str
  | .add ip_range _ _ _ => ip_range
  | .remove ip_range => ip_range

def IPFilter.step (f : IPFilter) : RuleCall → IPFilter
  | .add ip_range mode priority source => (f.addRule ip_range mode priority source).1
  | .remove ip_range => (f.removeRule ip_range).1

section Spec

variable {f : IPFilter} {ip ip_range : Str} {a : Address} {network : Network} {is_ipv4 : Bool}
  {error : RangeError} {version : Version}

def IPFilter.ranges (f : IPFilter) : Version → List Network
  | .v4 => f.ipv4_ranges
  | .v6 => f.ipv6_ranges

theorem parseIpRange_is_ipv4 (h : parseIpRange ip_range = .ok (network, is_ipv4)) :
    is_ipv4 = decide (network.version = .v4) := by
  dsimp only [parseIpRange] at h
  split at h
  · split at h
    · cases h
      rfl
    · cases h
  · split at h
    · split at h
      · split at h
        · cases h
        · split at h
          · cases h
          · split at h
            · cases h
              rfl
            · cases h
      · cases h
    · split at h
      · cases h
        rfl
      · cases h

section Calls

/-- A call with a text that is no range changes nothing. -/
theorem step_of_error {call : RuleCall} (h : parseIpRange call.ip_range = .error error) :
    f.step call = f := by
  cases call with
  | add ip_range mode priority source =>
    rw [IPFilter.step, IPFilter.addRule, show parseIpRange ip_range = _ from h]
    cases error with
    | versions | cidr | range | address => rfl
  | remove ip_range =>
    rw [IPFilter.step, IPFilter.removeRule, show parseIpRange ip_range = _ from h]
    cases error with
    | versions | cidr | range | address => rfl

/-- What a call does to the rules. -/
def RuleCall.rules (call : RuleCall) (network : Network) (f : IPFilter) : List IPFilterRule :=
  match call with
  | .add _ mode priority source => f.rules ++ [{ network, mode := mode.getD f.mode, priority, source }]
  | .remove _ => f.rules.filter (·.network ≠ network)

/-- What a call does to the list of its version, but for the order. -/
def RuleCall.networks (call : RuleCall) (network : Network) (ranges : List Network) : List Network :=
  match call with
  | .add .. => ranges ++ [network]
  | .remove _ => ranges.filter (· ≠ network)

theorem forall_ne_v4 {P : Version → Prop} (h : P .v6) : ∀ version, version ≠ .v4 → P version
  | .v4, hne => absurd rfl hne
  | .v6, _ => h

theorem forall_ne_v6 {P : Version → Prop} (h : P .v4) : ∀ version, version ≠ .v6 → P version
  | .v4, _ => h
  | .v6, hne => absurd rfl hne

/-- A call with a range makes up its network and leaves the list for the other version alone. -/
theorem step_of_ok {call : RuleCall} (h : parseIpRange call.ip_range = .ok (network, is_ipv4)) :
    (f.step call).rules = call.rules network f ∧
      ((f.step call).ranges network.version).Perm (call.networks network (f.ranges network.version)) ∧
      (∀ version, version ≠ network.version → (f.step call).ranges version = f.ranges version) ∧
      (f.step call).enabled = f.enabled ∧ (f.step call).mode = f.mode := by
  obtain rfl := parseIpRange_is_ipv4 h
  cases call with
  | add ip_range mode priority source =>
    rw [IPFilter.step, IPFilter.addRule, show parseIpRange ip_range = _ from h]
    dsimp only
    cases network.version with
    | v4 => exact ⟨rfl, sortOn_perm _ _, forall_ne_v4 rfl, rfl, rfl⟩
    | v6 => exact ⟨rfl, sortOn_perm _ _, forall_ne_v6 rfl, rfl, rfl⟩
  | remove ip_range =>
    rw [IPFilter.step, IPFilter.removeRule, show parseIpRange ip_range = _ from h]
    dsimp only
    cases network.version with
    | v4 => exact ⟨rfl, List.Perm.refl _, forall_ne_v4 rfl, rfl, rfl⟩
    | v6 => exact ⟨rfl, List.Perm.refl _, forall_ne_v6 rfl, rfl, rfl⟩

/-- A call leaves the filter enabled, and in its mode. -/
theorem step_enabled (call : RuleCall) :
    (f.step call).enabled = f.enabled ∧ (f.step call).mode = f.mode := by
  cases h : parseIpRange call.ip_range with
  | error error =>
    rw [step_of_error h]
    exact ⟨rfl, rfl⟩
  | ok result => exact (step_of_ok h).2.2.2

end Calls

section Consistency

/-- The lists for the versions hold the networks of the rules. -/
def Consistent (f : IPFilter) : Prop := ∀ version,
  (f.ranges version).Perm ((f.rules.map IPFilterRule.network).filter (·.version = version))

theorem RuleCall.map_rules (call : RuleCall) (network : Network) (f : IPFilter) :
    (call.rules network f).map IPFilterRule.network =
      call.networks network (f.rules.map IPFilterRule.network) := by
  cases call with
  | add => exact List.map_append
  | remove => rw [RuleCall.rules, RuleCall.networks, List.filter_map]; rfl

theorem RuleCall.networks_perm (call : RuleCall) (network : Network) {l l' : List Network}
    (h : l.Perm l') : (call.networks network l).Perm (call.networks network l') := by
  cases call with
  | add => exact h.append_right _
  | remove => exact h.filter _

/-- A call changes the networks of its version only. -/
theorem RuleCall.filter_networks (call : RuleCall) (network : Network) (l : List Network)
    (version : Version) : (call.networks network l).filter (·.version = version) =
      if version = network.version then call.networks network (l.filter (·.version = version))
      else l.filter (·.version = version) := by
  cases call with
  | add =>
    rw [RuleCall.networks, RuleCall.networks, List.filter_append]
    split_ifs with hversion
    · rw [List.filter_singleton, decide_eq_true hversion.symm]
      rfl
    · rw [List.filter_singleton, decide_eq_false (Ne.symm hversion)]
      exact List.append_nil _
  | remove =>
    rw [RuleCall.networks, RuleCall.networks, List.filter_filter]
    split_ifs with hversion
    · rw [List.filter_filter]
      exact List.filter_congr fun n _ => Bool.and_comm _ _
    · refine List.filter_congr fun n _ => ?_
      by_cases hn : n.version = version
      · have hne : n ≠ network := fun h => hversion (h ▸ hn.symm)
        rw [decide_eq_true hn, decide_eq_true hne]
        rfl
      · rw [decide_eq_false hn]
        rfl

theorem Consistent.step (h : Consistent f) (call : RuleCall) : Consistent (f.step call) := by
  cases hparse : parseIpRange call.ip_range with
  | error error =>
    rw [step_of_error hparse]
    exact h
  | ok result =>
    obtain ⟨network, is_ipv4⟩ := result
    obtain ⟨hrules, hsame, hother, -⟩ := step_of_ok (f := f) hparse
    intro version
    rw [hrules, RuleCall.map_rules, RuleCall.filter_networks]
    split_ifs with hversion
    · rw [hversion]
      exact hsame.trans (call.networks_perm network (h network.version))
    · rw [hother version hversion]
      exact h version

/-- An enabled filter in a mode. -/
structure IPFilter.Enabled (f : IPFilter) (mode : FilterMode) : Prop where
  consistent : Consistent f
  enabled : f.enabled = true
  mode_eq : f.mode = mode

variable {mode : FilterMode}

theorem IPFilter.Enabled.step (h : f.Enabled mode) (call : RuleCall) : (f.step call).Enabled mode where
  consistent := h.consistent.step call
  enabled := (step_enabled call).1.trans h.enabled
  mode_eq := (step_enabled call).2.trans h.mode_eq

theorem enabled_new (mode : FilterMode) : IPFilter.Enabled { enabled := true, mode } mode where
  consistent version := by
    cases version with
    | v4 => exact List.Perm.refl _
    | v6 => exact List.Perm.refl _
  enabled := rfl
  mode_eq := rfl

theorem enabled_run (mode : FilterMode) (calls : List RuleCall) :
    (run IPFilter.step { enabled := true, mode } calls).Enabled mode := by
  have hstep (f : IPFilter) (call : RuleCall) (h : f.Enabled mode) : (f.step call).Enabled mode :=
    h.step call
  have hrun := run_of_invariant hstep (enabled_new mode) calls
  exact hrun

end Consistency

section Matches

theorem isInRanges_iff {ranges : List Network} {ip_int : Nat} :
    IPFilter.isInRanges ranges ip_int = true ↔ ∃ network ∈ ranges,
      network.network_address ≤ ip_int ∧ ip_int ≤ network.broadcast_address := by
  rw [IPFilter.isInRanges, List.any_eq_true]
  simp only [Bool.and_eq_true, decide_eq_true_eq]

theorem isIpInRanges_eq (f : IPFilter) (a : Address) :
    f.isIpInRanges a = IPFilter.isInRanges (f.ranges a.version) a.ip := by
  rw [IPFilter.isIpInRanges]
  cases a.version with
  | v4 => rfl
  | v6 => rfl

/-- An address is in the ranges just when a rule has it. -/
theorem Consistent.isIpInRanges_iff (h : Consistent f) :
    f.isIpInRanges a = true ↔ ∃ rule ∈ f.rules, rule.network.Contains a := by
  rw [isIpInRanges_eq, isInRanges_iff]
  constructor
  · rintro ⟨network, hmem, hbounds⟩
    obtain ⟨hmem, hversion⟩ := List.mem_filter.mp ((h a.version).mem_iff.mp hmem)
    obtain ⟨rule, hrule, rfl⟩ := List.mem_map.mp hmem
    exact ⟨rule, hrule, (of_decide_eq_true hversion).symm, hbounds⟩
  · rintro ⟨rule, hrule, hversion, hbounds⟩
    refine ⟨rule.network, (h a.version).mem_iff.mpr ?_, hbounds⟩
    exact List.mem_filter.mpr ⟨List.mem_map_of_mem hrule, decide_eq_true hversion.symm⟩

/-- What `is_blocked` says of a valid address: whether it is in the ranges, the other way round in
the mode that allows. -/
theorem isBlocked_iff (henabled : f.enabled = true) (hip : ipAddress ip = some a) :
    (f.isBlocked ip).2 = true ↔ (f.isIpInRanges a = true ↔ f.mode = .block) := by
  rw [IPFilter.isBlocked, henabled, hip, if_neg (by decide)]
  dsimp only
  cases f.mode with
  | block =>
    cases f.isIpInRanges a with
    | true => simp
    | false => simp
  | allow =>
    cases f.isIpInRanges a with
    | true => simp
    | false => simp

end Matches

end Spec

/-!
## Precedence of the filter's rules

Of the rules that match an address, one of the highest priority should decide, and one that allows
before one that blocks. The filter looks at neither: an address that a rule matches is blocked in
the mode that blocks and let through in the mode that allows.
-/

open Precedence

def IPFilter.matching (f : IPFilter) (a : Address) : List IPFilterRule :=
  f.rules.filter (·.network.Contains a)

/-- An address that a rule matches is blocked just when no matching rule of the highest priority
allows it. -/
def RespectsPrecedence (f : IPFilter) : Prop :=
  ∀ ip a, ipAddress ip = some a → f.matching a ≠ [] → ((f.isBlocked ip).2 = true ↔
    ∀ rule, Top IPFilterRule.priority (f.matching a) rule → rule.mode ≠ .allow)

/-- A rule decides against another one. -/
def IPFilterRule.Overrides (rule' rule : IPFilterRule) : Prop :=
  rule.priority < rule'.priority ∨ rule'.mode = .allow ∧ rule.priority = rule'.priority

/-- On each of its addresses a rule of the other mode is overridden by one of the filter's own. -/
def Overridden (f : IPFilter) : Prop :=
  ∀ rule ∈ f.rules, rule.mode ≠ f.mode → ∀ ip a, ipAddress ip = some a → rule.network.Contains a →
    ∃ rule' ∈ f.rules, rule'.network.Contains a ∧ rule'.mode = f.mode ∧ rule'.Overrides rule

variable {f : IPFilter} {a : Address} {rule : IPFilterRule}

theorem mem_matching : rule ∈ f.matching a ↔ rule ∈ f.rules ∧ rule.network.Contains a := by
  rw [IPFilter.matching, List.mem_filter, decide_eq_true_iff]

theorem ne_block_iff {mode : FilterMode} : mode ≠ .block ↔ mode = .allow := by
  cases mode with
  | block => simp
  | allow => simp

theorem ne_allow_iff {mode : FilterMode} : mode ≠ .allow ↔ mode = .block := by
  cases mode with
  | block => simp
  | allow => simp

theorem overrides_block_iff {rule' : IPFilterRule} (h : rule'.mode = .block) :
    rule'.Overrides rule ↔ rule.priority < rule'.priority := by
  rw [IPFilterRule.Overrides, h]
  simp

theorem overrides_allow_iff {rule' : IPFilterRule} (h : rule'.mode = .allow) :
    rule'.Overrides rule ↔ rule.priority ≤ rule'.priority := by
  rw [IPFilterRule.Overrides, h, le_iff_lt_or_eq]
  simp

/-- The rules that decide on a matched address have the filter's mode just when the rules of the
other mode are overridden. -/
theorem top_mode_iff (hne : f.matching a ≠ []) :
    (f.mode = .block ↔
        ∀ rule, Top IPFilterRule.priority (f.matching a) rule → rule.mode ≠ .allow) ↔
      ∀ rule ∈ f.matching a, rule.mode ≠ f.mode →
        ∃ rule' ∈ f.matching a, rule'.mode = f.mode ∧ rule'.Overrides rule := by
  cases f.mode with
  | block =>
    rw [iff_true_left rfl, forall_top_iff]
    refine forall₂_congr fun rule _ => imp_congr ?_ (exists_congr fun rule' => ?_)
    · rw [not_ne_iff, ne_block_iff]
    · rw [ne_allow_iff]
      exact and_congr_right fun _ => and_congr_right fun h => (overrides_block_iff h).symm
  | allow =>
    have hsome : (FilterMode.allow = .block ↔
        ∀ rule, Top IPFilterRule.priority (f.matching a) rule → rule.mode ≠ .allow) ↔
          ∃ rule, Top IPFilterRule.priority (f.matching a) rule ∧ rule.mode = .allow := by
      simp
    rw [hsome, exists_top_iff hne]
    refine forall₂_congr fun rule _ => imp_congr Iff.rfl (exists_congr fun rule' => ?_)
    exact and_congr_right fun _ => and_congr_right fun h => (overrides_allow_iff h).symm

theorem IPFilter.Enabled.precedence_iff {mode : FilterMode} (h : f.Enabled mode) :
    RespectsPrecedence f ↔ Overridden f := by
  have hblocked {ip : Str} {a : Address} (hip : ipAddress ip = some a) (hne : f.matching a ≠ []) :
      (f.isBlocked ip).2 = true ↔ f.mode = .block := by
    obtain ⟨rule, hrule⟩ := List.exists_mem_of_ne_nil _ hne
    rw [isBlocked_iff h.enabled hip, h.consistent.isIpInRanges_iff]
    exact iff_true_left ⟨rule, mem_matching.mp hrule⟩
  constructor
  · intro hrespects rule hrule hmode ip a hip hcontains
    have hmem := mem_matching.mpr ⟨hrule, hcontains⟩
    have hne := List.ne_nil_of_mem hmem
    obtain ⟨rule', hrule', hmode', hover⟩ :=
      (top_mode_iff hne).mp ((hblocked hip hne).symm.trans (hrespects ip a hip hne)) rule hmem hmode
    obtain ⟨hrule', hcontains'⟩ := mem_matching.mp hrule'
    exact ⟨rule', hrule', hcontains', hmode', hover⟩
  · intro hover ip a hip hne
    refine (hblocked hip hne).trans ((top_mode_iff hne).mpr fun rule hrule hmode => ?_)
    obtain ⟨hrule, hcontains⟩ := mem_matching.mp hrule
    obtain ⟨rule', hrule', hcontains', hmode', hover'⟩ := hover rule hrule hmode ip a hip hcontains
    exact ⟨rule', mem_matching.mpr ⟨hrule', hcontains'⟩, hmode', hover'⟩

/-- An enabled filter respects the precedence of its rules just when each rule of the other mode is
overridden on all its addresses by rules of the filter's own mode. -/
theorem respectsPrecedence_iff (mode : FilterMode) (calls : List RuleCall) :
    RespectsPrecedence (run IPFilter.step { enabled := true, mode } calls) ↔
      Overridden (run IPFilter.step { enabled := true, mode } calls) :=
  (enabled_run mode calls).precedence_iff

/-- A network is blocked, and an address in it is allowed with a higher priority. -/
theorem not_respectsPrecedence_narrow_allow :
    ¬RespectsPrecedence (run IPFilter.step { enabled := true }
      [.add "192.168.1.0/24".toList (some .block) 1 "manual".toList,
        .add "192.168.1.10".toList (some .allow) 2 "manual".toList]) := by
  intro h
  have hblocked := (h "192.168.1.10".toList { version := .v4, ip := 0xC0A8010A } (by decide +kernel)
    (by decide +kernel)).mp (by decide +kernel)
  let address : Address := { version := .v4, ip := 0xC0A8010A }
  let allowing : IPFilterRule :=
    { network := networkOf .v4 address ⟨32, by decide⟩, mode := .allow, priority := 2 }
  exact hblocked allowing ⟨by decide +kernel, by decide +kernel⟩ rfl

end IpFilter

end Ccbt

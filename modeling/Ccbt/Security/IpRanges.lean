import Ccbt.Security.IpFilter

/-!
# The addresses of the filter's rules

A filter that blocks should block the addresses written in its rules. A range of addresses is
several networks in general, and the filter keeps the first of them only: it blocks what is written
just when each range that is written is one network.
-/

namespace Ccbt.IpFilter

open Python Python.IpAddress Interval Transition

/-- The addresses of a version from the first to the last. The scope does not restrict them; it tells
ranges apart when one is removed. -/
structure IpRange where
  version : Version
  first : Nat
  last : Nat
  scope_id : Option Str := none
deriving DecidableEq

def IpRange.Contains (r : IpRange) (a : Address) : Prop :=
  a.version = r.version ∧ r.first ≤ a.ip ∧ a.ip ≤ r.last

def networkRange (network : Network) : IpRange where
  version := network.version
  first := network.network_address
  last := network.broadcast_address
  scope_id := network.scope_id

/-- A range that is one network. -/
def IpRange.IsBlock (r : IpRange) : Prop :=
  ∃ k ≤ r.version.max_prefixlen, 2 ^ k ∣ r.first ∧ r.first + 2 ^ k = r.last + 1

instance (r : IpRange) : Decidable r.IsBlock := inferInstanceAs (Decidable (∃ k ≤ _, _))

section Written

/-- The range from one address to another of the same version that is not less. -/
def fromTo (start_ip end_ip : Address) : Option IpRange :=
  if start_ip.version = end_ip.version ∧ ¬start_ip.Gt end_ip then
    some { version := start_ip.version, first := start_ip.ip, last := end_ip.ip }
  else none

/-- The addresses that a text writes: those of a network in CIDR, those from a start to an end, or
one. -/
def written (ip_range : Str) : Option IpRange :=
  let ip_range := stripText ip_range
  if '/' ∈ ip_range then (ipNetwork ip_range).map networkRange
  else if '-' ∈ ip_range then do
    let start_ip ← ipAddress (stripText (ip_range.takeWhile (· ≠ '-')))
    let end_ip ← ipAddress (stripText (ip_range.dropWhile (· ≠ '-')).tail)
    fromTo start_ip end_ip
  else (ipAddress ip_range).map fun ip_addr =>
    { version := ip_addr.version, first := ip_addr.ip, last := ip_addr.ip, scope_id := ip_addr.scope_id }

/-- The ranges that were added and not removed since. -/
def remaining (ranges : List IpRange) : RuleCall → List IpRange
  | .add ip_range _ _ _ => ranges ++ (written ip_range).toList
  | .remove ip_range => ranges.filter (written ip_range ≠ some ·)

end Written

/-- With rules from these texts the filter blocks what is written in them. -/
def ExactOn (texts : Set Str) : Prop :=
  ∀ calls : List RuleCall, (∀ call ∈ calls, call.ip_range ∈ texts) →
    ∀ ip a, ipAddress ip = some a →
      (((run IPFilter.step { enabled := true, mode := .block } calls).isBlocked ip).2 = true ↔
        ∃ r ∈ run remaining [] calls, r.Contains a)

section Networks

variable {network network' : Network}

theorem networkRange_isBlock (network : Network) : (networkRange network).IsBlock := by
  refine ⟨_, Nat.sub_le _ network.prefixlen, network.aligned, ?_⟩
  exact (broadcast_address_eq network).symm

/-- A network is known by its range. -/
theorem networkRange_injective (h : networkRange network = networkRange network') :
    network = network' := by
  have hversion : network.version = network'.version := congrArg IpRange.version h
  have hfirst : network.network_address = network'.network_address := congrArg IpRange.first h
  have hlast : network.broadcast_address = network'.broadcast_address := congrArg IpRange.last h
  have hscope : network.scope_id = network'.scope_id := congrArg IpRange.scope_id h
  have hsize : 2 ^ (network.version.max_prefixlen - network.prefixlen) =
      2 ^ (network'.version.max_prefixlen - network'.prefixlen) := by
    have hend := broadcast_address_eq network
    have hend' := broadcast_address_eq network'
    omega
  have hprefixlen : network.prefixlen = network'.prefixlen := by
    have hbits := Nat.pow_right_injective (Nat.le_refl 2) hsize
    have hle := network.prefixlen_le
    have hle' := network'.prefixlen_le
    rw [hversion] at hbits hle
    omega
  cases network
  cases network'
  cases hversion
  cases hfirst
  cases hscope
  cases hprefixlen
  rfl

/-- One address is the range of its network. -/
theorem networkRange_networkOf_self (a : Address) :
    networkRange (networkOf a.version a ⟨_, Nat.le_refl _⟩) =
      { version := a.version, first := a.ip, last := a.ip, scope_id := a.scope_id } := by
  simp [networkRange, networkOf, Network.broadcast_address, Network.hostmask]

theorem summarizeAddressRange_of_not_gt {start_ip end_ip : Address} (h : ¬start_ip.Gt end_ip)
    (hle : start_ip.ip ≤ end_ip.ip) : ∃ networks, summarizeAddressRange start_ip end_ip =
      some (firstNetwork start_ip.version start_ip.ip end_ip.ip :: networks) := by
  rw [summarizeAddressRange, if_neg h, summarizeFrom, if_pos hle]
  exact ⟨_, rfl⟩

end Networks

section Parsing

variable {ip_range : Str} {r : IpRange}

/-- The first network of a range is all of it if it is one network, and lacks its end if it is not. -/
theorem networkRange_first {start_ip end_ip : Address}
    (h : IpRange.IsBlock { version := start_ip.version, first := start_ip.ip, last := end_ip.ip }) :
    networkRange (firstNetwork start_ip.version start_ip.ip end_ip.ip) =
      { version := start_ip.version, first := start_ip.ip, last := end_ip.ip } := by
  have hend := firstNetwork_broadcast start_ip.version start_ip.ip end_ip.ip
  rw [first_block_eq_iff.mpr h] at hend
  rw [networkRange, Nat.succ.inj hend]
  rfl

theorem broadcast_lt_of_not_isBlock {start_ip end_ip : Address} (hle : start_ip.ip ≤ end_ip.ip)
    (h : ¬IpRange.IsBlock { version := start_ip.version, first := start_ip.ip, last := end_ip.ip }) :
    (firstNetwork start_ip.version start_ip.ip end_ip.ip).broadcast_address < end_ip.ip := by
  have hend := firstNetwork_broadcast start_ip.version start_ip.ip end_ip.ip
  have hblock := mt first_block_eq_iff.mp h
  have hinside := two_pow_blockExponent_le start_ip.version.max_prefixlen hle
  dsimp only at hblock
  omega

theorem fromTo_eq_some {start_ip end_ip : Address} (h : fromTo start_ip end_ip = some r) :
    start_ip.version = end_ip.version ∧ ¬start_ip.Gt end_ip ∧ start_ip.ip ≤ end_ip.ip ∧
      r = { version := start_ip.version, first := start_ip.ip, last := end_ip.ip } := by
  rw [fromTo] at h
  split_ifs at h with hrange
  obtain ⟨hversion, hgt⟩ := hrange
  refine ⟨hversion, hgt, ?_, (Option.some.inj h).symm⟩
  by_contra hle
  exact hgt ⟨fun hlt => hle hlt.le, fun heq => hle (heq ▸ Nat.le_refl _)⟩

/-- A range that is written is kept as a network, and unless it is one as a whole there is an address
to ask for that the network leaves out: the end of the range. -/
theorem parse_of_written (h : written ip_range = some r) : ∃ network is_ipv4,
    parseIpRange ip_range = .ok (network, is_ipv4) ∧ (r.IsBlock → networkRange network = r) ∧
      (¬r.IsBlock → ∃ ip a, ipAddress ip = some a ∧ r.Contains a ∧ ¬network.Contains a) := by
  dsimp only [written] at h
  dsimp only [parseIpRange]
  split_ifs at h ⊢ with hslash hdash
  · obtain ⟨network, hnetwork, rfl⟩ := Option.map_eq_some_iff.mp h
    rw [hnetwork]
    exact ⟨network, _, rfl, fun _ => rfl, fun hnot => absurd (networkRange_isBlock network) hnot⟩
  · obtain ⟨start_ip, hstart, h⟩ := Option.bind_eq_some_iff.mp h
    obtain ⟨end_ip, hend, h⟩ := Option.bind_eq_some_iff.mp h
    obtain ⟨hversion, hgt, hle, rfl⟩ := fromTo_eq_some h
    obtain ⟨networks, hnetworks⟩ := summarizeAddressRange_of_not_gt hgt hle
    rw [hstart, hend]
    dsimp only
    rw [if_neg (not_not.mpr hversion.symm), if_neg hle.not_gt, hnetworks]
    refine ⟨_, _, rfl, networkRange_first, fun hnot => ?_⟩
    refine ⟨_, end_ip, hend, ⟨hversion.symm, hle, le_rfl⟩, fun hcontains => ?_⟩
    exact (broadcast_lt_of_not_isBlock hle hnot).not_ge hcontains.2.2
  · obtain ⟨a, ha, rfl⟩ := Option.map_eq_some_iff.mp h
    rw [ha, ← networkRange_networkOf_self]
    exact ⟨_, _, rfl, fun _ => rfl, fun hnot => absurd (networkRange_isBlock _) hnot⟩

/-- What is no range is refused. -/
theorem parse_of_not_written (h : written ip_range = none) :
    ∃ error, parseIpRange ip_range = .error error := by
  dsimp only [written] at h
  dsimp only [parseIpRange]
  split_ifs at h ⊢ with hslash hdash
  · rw [Option.map_eq_none_iff.mp h]
    exact ⟨_, rfl⟩
  · cases hstart : ipAddress (stripText ((stripText ip_range).takeWhile (· ≠ '-'))) with
    | none => exact ⟨_, rfl⟩
    | some start_ip =>
      cases hend : ipAddress (stripText ((stripText ip_range).dropWhile (· ≠ '-')).tail) with
      | none => exact ⟨_, rfl⟩
      | some end_ip =>
        have hnone : fromTo start_ip end_ip = none := by
          rw [hstart, hend] at h
          exact h
        rw [fromTo] at hnone
        split_ifs at hnone with hrange
        dsimp only
        split_ifs with hversion hlt
        · exact ⟨_, rfl⟩
        · exact ⟨_, rfl⟩
        · have hgt : start_ip.Gt end_ip := by
            by_contra hgt
            exact hrange ⟨(not_not.mp hversion).symm, hgt⟩
          rw [summarizeAddressRange, if_pos hgt]
          exact ⟨_, rfl⟩
  · rw [Option.map_eq_none_iff.mp h]
    exact ⟨_, rfl⟩

end Parsing

section Runs

variable {f : IPFilter} {ranges : List IpRange}

/-- A filter that blocks, with the networks of these ranges. -/
structure Describes (f : IPFilter) (ranges : List IpRange) : Prop where
  enabled : f.Enabled .block
  rules : f.rules.map (fun rule => networkRange rule.network) = ranges

theorem remaining_of_none {call : RuleCall} (h : written call.ip_range = none) :
    remaining ranges call = ranges := by
  cases call with
  | add ip_range =>
    rw [remaining, show written ip_range = none from h]
    exact List.append_nil ranges
  | remove ip_range =>
    rw [remaining, show written ip_range = none from h]
    exact List.filter_eq_self.mpr fun r _ => by simp

/-- Calls do to the networks what they do to the ranges. -/
theorem remaining_networkRange {call : RuleCall} {network : Network}
    (h : written call.ip_range = some (networkRange network)) (f : IPFilter) :
    remaining (f.rules.map fun rule => networkRange rule.network) call =
      (call.rules network f).map fun rule => networkRange rule.network := by
  cases call with
  | add ip_range =>
    rw [remaining, show written ip_range = _ from h, RuleCall.rules, List.map_append]
    rfl
  | remove ip_range =>
    rw [remaining, show written ip_range = _ from h, RuleCall.rules, List.filter_map]
    refine congrArg _ (List.filter_congr fun rule _ => decide_eq_decide.mpr (not_congr ?_))
    rw [Option.some_inj]
    exact ⟨fun heq => (networkRange_injective heq).symm, fun heq => congrArg networkRange heq.symm⟩

theorem Describes.step (h : Describes f ranges) {call : RuleCall}
    (hblock : ∀ r, written call.ip_range = some r → r.IsBlock) :
    Describes (f.step call) (remaining ranges call) := by
  refine ⟨h.enabled.step call, ?_⟩
  cases hwritten : written call.ip_range with
  | none =>
    obtain ⟨error, herror⟩ := parse_of_not_written hwritten
    rw [step_of_error herror, remaining_of_none hwritten, h.rules]
  | some r =>
    obtain ⟨network, is_ipv4, hparse, hrange, -⟩ := parse_of_written hwritten
    obtain rfl := hrange (hblock r hwritten)
    rw [(step_of_ok hparse).1, ← h.rules, remaining_networkRange hwritten]

theorem Describes.run (h : Describes f ranges) {calls : List RuleCall}
    (hblock : ∀ call ∈ calls, ∀ r, written call.ip_range = some r → r.IsBlock) :
    Describes (run IPFilter.step f calls) (run remaining ranges calls) := by
  induction calls generalizing f ranges with
  | nil => exact h
  | cons call calls ih =>
    obtain ⟨hcall, hcalls⟩ := List.forall_mem_cons.mp hblock
    exact ih (h.step hcall) hcalls

/-- What is blocked: the addresses that the networks of the rules have. -/
theorem blocked_iff (h : f.Enabled .block) {ip : Str} {a : Address} (hip : ipAddress ip = some a) :
    (f.isBlocked ip).2 = true ↔ ∃ rule ∈ f.rules, rule.network.Contains a := by
  rw [isBlocked_iff h.enabled hip, h.mode_eq, h.consistent.isIpInRanges_iff]
  exact iff_true_right rfl

theorem Describes.blocked_iff (h : Describes f ranges) {ip : Str} {a : Address}
    (hip : ipAddress ip = some a) : (f.isBlocked ip).2 = true ↔ ∃ r ∈ ranges, r.Contains a := by
  rw [IpFilter.blocked_iff h.enabled hip, ← h.rules]
  constructor
  · rintro ⟨rule, hrule, hcontains⟩
    exact ⟨networkRange rule.network, List.mem_map_of_mem hrule, hcontains⟩
  · rintro ⟨r, hr, hcontains⟩
    obtain ⟨rule, hrule, rfl⟩ := List.mem_map.mp hr
    exact ⟨rule, hrule, hcontains⟩

end Runs

/-- A text whose range is more than one network is not blocked to its end. -/
theorem not_exactOn_of_not_isBlock {texts : Set Str} {ip_range : Str} (hmem : ip_range ∈ texts)
    {r : IpRange} (hwritten : written ip_range = some r) (hblock : ¬r.IsBlock) : ¬ExactOn texts := by
  intro hexact
  obtain ⟨network, is_ipv4, hparse, -, hmissed⟩ := parse_of_written hwritten
  obtain ⟨ip, a, hip, hcontains, hnot⟩ := hmissed hblock
  let call : RuleCall := .add ip_range none 0 "manual".toList
  have hrun := hexact [call] (List.forall_mem_singleton.mpr hmem) ip a hip
  have hremaining : ∃ r ∈ run remaining [] [call], r.Contains a := by
    refine ⟨r, ?_, hcontains⟩
    rw [run_cons, run_nil, remaining, hwritten]
    exact List.mem_singleton_self r
  have hblocked := (blocked_iff (enabled_run .block [call]) hip).mp (hrun.mpr hremaining)
  obtain ⟨rule, hrule, hcontains'⟩ := hblocked
  have hrules : (IPFilter.step { enabled := true, mode := .block } call).rules =
      call.rules network { enabled := true, mode := .block } := by
    have hcall : parseIpRange call.ip_range = .ok (network, is_ipv4) := hparse
    exact (step_of_ok hcall).1
  rw [run_cons, run_nil, hrules] at hrule
  rw [List.mem_singleton.mp hrule] at hcontains'
  exact hnot hcontains'

/-- The filter blocks what its rules say, whatever calls with these texts are made, just when each
range among them is one network. -/
theorem exactOn_iff (texts : Set Str) :
    ExactOn texts ↔ ∀ ip_range ∈ texts, ∀ r, written ip_range = some r → r.IsBlock := by
  constructor
  · intro hexact ip_range hmem r hwritten
    by_contra hblock
    exact not_exactOn_of_not_isBlock hmem hwritten hblock hexact
  · intro hblock calls hcalls ip a hip
    have hnew : Describes { enabled := true, mode := .block } [] := ⟨enabled_new .block, rfl⟩
    exact (hnew.run fun call hcall => hblock _ (hcalls call hcall)).blocked_iff hip

/-- Three addresses are two networks, and the second is not blocked. -/
theorem not_exactOn_three_addresses : ¬ExactOn {"1.0.0.1-1.0.0.3".toList} := by
  have hwritten : written "1.0.0.1-1.0.0.3".toList =
      some { version := .v4, first := 0x01000001, last := 0x01000003 } := by decide +kernel
  exact not_exactOn_of_not_isBlock (Set.mem_singleton _) hwritten (by decide +kernel)

end Ccbt.IpFilter

import Ccbt.Interval.AlignedBlock
import Ccbt.Python.BinAscii

/-!
# The module `ipaddress`

`ip_address`, `ip_network` with `strict=False` and `summarize_address_range`. An IPv6 address may
carry a scope; it takes part in comparisons, not in what a network contains.
-/

namespace Python

namespace IpAddress

open Interval

inductive Version
  | v4
  | v6
deriving DecidableEq

def Version.max_prefixlen : Version → Nat
  | .v4 => 32
  | .v6 => 128

/-- `IPv4Address` and `IPv6Address` -/
structure Address where
  version : Version
  ip : Nat
  scope_id : Option Str := none
deriving DecidableEq

section Addresses

def isAsciiDigit (c : Char) : Bool := '0' ≤ c && c ≤ '9'

/-- The text has digits only. -/
def isDigits (s : Str) : Bool := !s.isEmpty && s.all isAsciiDigit

def parseOctet (octet_str : Str) : Option Nat :=
  if !isDigits octet_str then none
  else if 3 < octet_str.length then none
  -- as strict as `inet_pton`
  else if octet_str ≠ ['0'] ∧ octet_str.head? = some '0' then none
  else
    let octet_int := Nat.ofDigitChars 10 octet_str 0
    if 255 < octet_int then none else some octet_int

/-- `_ip_int_from_string` of IPv4 -/
def ipv4IntFromString (ip_str : Str) : Option Nat :=
  let octets := ip_str.splitOn '.'
  if octets.length ≠ 4 then none
  else (octets.mapM parseOctet).map fun octets => octets.foldl (fun n octet => n <<< 8 ||| octet) 0

def parseHextet (hextet_str : Str) : Option Nat :=
  if hextet_str.isEmpty || 4 < hextet_str.length then none
  else (hextet_str.mapM hexValue).map fun digits => digits.foldl (fun n digit => 16 * n + digit) 0

/-- The parts between colons, with an address in the IPv4 style at the end as two of them. -/
def colonParts (ip_str : Str) : Option (List Str) :=
  let parts := ip_str.splitOn ':'
  let last := parts.getLastD []
  if parts.length < 3 then none
  else if '.' ∈ last then
    (ipv4IntFromString last).map fun ipv4_int =>
      parts.dropLast ++ [Nat.toDigits 16 (ipv4_int >>> 16), Nat.toDigits 16 (ipv4_int % 65536)]
  else some parts

/-- The places of `::`, the ends apart. -/
def skipIndices (parts : List Str) : List Nat :=
  (List.range parts.length).filter fun i =>
    1 ≤ i && i + 1 < parts.length && (parts.getD i []).isEmpty

/-- How many parts stand before the zeros that are left out, how many zeros are, and how many parts
stand behind them. -/
def layout (parts : List Str) : Option (Nat × Nat × Nat) :=
  let first_empty := (parts.headD []).isEmpty
  let last_empty := (parts.getLastD []).isEmpty
  match skipIndices parts with
  | [] =>
    if parts.length ≠ 8 || first_empty || last_empty then none else some (8, 0, 0)
  | [skip_index] =>
    let parts_hi := if first_empty then skip_index - 1 else skip_index
    let parts_lo := parts.length - skip_index - (if last_empty then 2 else 1)
    if first_empty && parts_hi ≠ 0 || last_empty && parts_lo ≠ 0 then none
    else if 8 - (parts_hi + parts_lo) < 1 then none
    else some (parts_hi, 8 - (parts_hi + parts_lo), parts_lo)
  | _ => none

/-- `_ip_int_from_string` of IPv6 -/
def ipv6IntFromString (ip_str : Str) : Option Nat := do
  let parts ← colonParts ip_str
  if 9 < parts.length then none
  let (parts_hi, parts_skipped, parts_lo) ← layout parts
  let high ← (parts.take parts_hi).mapM parseHextet
  let low ← (parts.drop (parts.length - parts_lo)).mapM parseHextet
  let ip_int := high.foldl (fun n hextet => n <<< 16 ||| hextet) 0
  return low.foldl (fun n hextet => n <<< 16 ||| hextet) (ip_int <<< (16 * parts_skipped))

def splitScopeId (ip_str : Str) : Option (Str × Option Str) :=
  let addr := ip_str.takeWhile (· ≠ '%')
  match ip_str.drop addr.length with
  | [] => some (addr, none)
  | _ :: scope_id => if scope_id.isEmpty || '%' ∈ scope_id then none else some (addr, some scope_id)

/-- `IPv4Address(address)` and `IPv6Address(address)` -/
def parseAddress (address : Str) : Version → Option Address
  | .v4 => if '/' ∈ address then none else
    (ipv4IntFromString address).map fun ip => { version := .v4, ip }
  | .v6 => if '/' ∈ address then none else do
    let (address, scope_id) ← splitScopeId address
    let ip ← ipv6IntFromString address
    return { version := .v6, ip, scope_id }

/-- `ip_address(address)`, or `none` where it raises `ValueError`. -/
def ipAddress (address : Str) : Option Address :=
  parseAddress address .v4 <|> parseAddress address .v6

/-- `a > b` for addresses of one version: not less, and not equal with its scope. -/
def Address.Gt (a b : Address) : Prop := ¬a.ip < b.ip ∧ a ≠ b

instance (a b : Address) : Decidable (a.Gt b) := inferInstanceAs (Decidable (_ ∧ _))

example : (ipAddress "192.0.2.1".toList).map Address.ip = some 0xC0000201 := by decide
example : (ipAddress "2001:db8::ff00:192.0.2.1".toList).map Address.ip =
    some 0x20010DB8000000000000FF00C0000201 := by decide
example : ipAddress "::1%eth0".toList = some { version := .v6, ip := 1, scope_id := "eth0".toList } := by
  decide
example : ipAddress "1.2.3.04".toList = none := by decide
example : ipAddress "1::2::3".toList = none := by decide

end Addresses

/-- `IPv4Network` and `IPv6Network`: the bits behind the prefix are zero. -/
structure Network where
  version : Version
  network_address : Nat
  scope_id : Option Str
  prefixlen : Nat
  prefixlen_le : prefixlen ≤ version.max_prefixlen
  aligned : 2 ^ (version.max_prefixlen - prefixlen) ∣ network_address
deriving DecidableEq

section Networks

variable {version : Version}

def Network.hostmask (network : Network) : Nat :=
  2 ^ (network.version.max_prefixlen - network.prefixlen) - 1

def Network.broadcast_address (network : Network) : Nat :=
  network.network_address ||| network.hostmask

/-- The prefix lengths of a version. -/
abbrev PrefixLen (version : Version) := { prefixlen : Nat // prefixlen ≤ version.max_prefixlen }

/-- The network that an address is in. The address keeps its scope if it has no host bits. -/
def networkOf (version : Version) (address : Address) (prefixlen : PrefixLen version) : Network where
  version := version
  network_address :=
    let size := 2 ^ (version.max_prefixlen - prefixlen)
    address.ip / size * size
  scope_id :=
    if 2 ^ (version.max_prefixlen - prefixlen) ∣ address.ip then address.scope_id else none
  prefixlen := prefixlen
  prefixlen_le := prefixlen.property
  aligned := Nat.dvd_mul_left _ _

def prefixFromPrefixString (version : Version) (prefixlen_str : Str) : Option (PrefixLen version) :=
  if !isDigits prefixlen_str then none
  else
    let prefixlen := Nat.ofDigitChars 10 prefixlen_str 0
    if h : prefixlen ≤ version.max_prefixlen then some ⟨prefixlen, h⟩ else none

/-- `_prefix_from_ip_int`: ones, then zeros. -/
def prefixFromIpInt (version : Version) (ip_int : Nat) : Option (PrefixLen version) :=
  let trailing_zeroes := trailingZeros ip_int version.max_prefixlen
  let prefixlen := version.max_prefixlen - trailing_zeroes
  if ip_int >>> trailing_zeroes ≠ 2 ^ prefixlen - 1 then none
  else some ⟨version.max_prefixlen - trailing_zeroes, Nat.sub_le _ _⟩

/-- `_prefix_from_ip_string`: a netmask, or else a hostmask. -/
def prefixFromIpString (ip_str : Str) : Option (PrefixLen .v4) := do
  let ip_int ← ipv4IntFromString ip_str
  prefixFromIpInt .v4 ip_int <|> prefixFromIpInt .v4 (ip_int ^^^ 0xFFFFFFFF)

/-- `_make_netmask` of a text -/
def makeNetmask (arg : Str) : (version : Version) → Option (PrefixLen version)
  | .v4 => prefixFromPrefixString .v4 arg <|> prefixFromIpString arg
  | .v6 => prefixFromPrefixString .v6 arg

/-- `IPv4Network(address, strict=False)` and `IPv6Network(address, strict=False)` -/
def parseNetwork (address : Str) (version : Version) : Option Network :=
  match address.splitOn '/' with
  | [addr] => (parseAddress addr version).map fun addr => networkOf version addr ⟨_, Nat.le_refl _⟩
  | [addr, mask] => do
    let addr ← parseAddress addr version
    let prefixlen ← makeNetmask mask version
    return networkOf version addr prefixlen
  | _ => none

/-- `ip_network(address, strict=False)`, or `none` where it raises `ValueError`. -/
def ipNetwork (address : Str) : Option Network :=
  parseNetwork address .v4 <|> parseNetwork address .v6

/-- The network of the first aligned block from one address to another. -/
def firstNetwork (version : Version) (first last : Nat) : Network where
  version := version
  network_address := first
  scope_id := none
  prefixlen := version.max_prefixlen - blockExponent version.max_prefixlen first last
  prefixlen_le := Nat.sub_le _ _
  aligned := by
    rw [Nat.sub_sub_self (blockExponent_le _ first last)]
    exact two_pow_blockExponent_dvd _ first last

/-- The loop of `summarize_address_range` -/
def summarizeFrom (version : Version) (first last : Nat) : List Network :=
  if first ≤ last then
    let nbits := blockExponent version.max_prefixlen first last
    firstNetwork version first last :: summarizeFrom version (first + 2 ^ nbits) last
  else []
termination_by last + 1 - first
decreasing_by
  have := Nat.two_pow_pos (blockExponent version.max_prefixlen first last)
  omega

/-- `list(summarize_address_range(first, last))` for addresses of one version, or `none` where it
raises `ValueError`. -/
def summarizeAddressRange (first last : Address) : Option (List Network) :=
  if first.Gt last then none else some (summarizeFrom first.version first.ip last.ip)

example : (ipNetwork "10.1.2.3/255.255.0.0".toList).map (fun n => (n.network_address, n.prefixlen)) =
    some (0x0A010000, 16) := by decide
example : (ipNetwork "10.1.2.3/0.0.255.255".toList).map Network.prefixlen = some 16 := by
  decide
example : (ipNetwork "2001:db8::1/32".toList).map Network.network_address =
    some 0x20010DB8000000000000000000000000 := by decide

def Network.Contains (network : Network) (address : Address) : Prop :=
  address.version = network.version ∧ network.network_address ≤ address.ip ∧
    address.ip ≤ network.broadcast_address

instance (network : Network) (address : Address) : Decidable (network.Contains address) :=
  inferInstanceAs (Decidable (_ ∧ _))

theorem two_pow_host_pos (network : Network) :
    0 < 2 ^ (network.version.max_prefixlen - network.prefixlen) := Nat.two_pow_pos _

/-- A network ends where its block ends. -/
theorem broadcast_address_eq (network : Network) : network.broadcast_address + 1 =
    network.network_address + 2 ^ (network.version.max_prefixlen - network.prefixlen) := by
  obtain ⟨m, hm⟩ := network.aligned
  have hpos := two_pow_host_pos network
  rw [Network.broadcast_address, Network.hostmask, hm,
    ← Nat.two_pow_add_eq_or_of_lt (Nat.sub_lt hpos Nat.one_pos)]
  omega

theorem firstNetwork_broadcast (version : Version) (first last : Nat) :
    (firstNetwork version first last).broadcast_address + 1 =
      first + 2 ^ blockExponent version.max_prefixlen first last := by
  rw [broadcast_address_eq]
  have hle := blockExponent_le version.max_prefixlen first last
  dsimp only [firstNetwork]
  rw [Nat.sub_sub_self hle]

end Networks

end IpAddress

end Python

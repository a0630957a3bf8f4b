import Mathlib.Data.List.Permutation
import Ccbt.Discovery.RoutingTable
import Ccbt.Prefix.CommonPrefix

/-!
# The nodes closest to a target

The measure that the routing table sorts by counts the bits an id shares with the target, so
it grows towards the target while the sort ascends: a lookup is answered with the nodes that
are farthest away. It gives the closest nodes only where the order does not matter.
-/

namespace Ccbt

open Python Transition Prefix

namespace Discovery

/-- The bits of an octet, the most significant first. -/
def octetBits (b : UInt8) : List Bool := (List.range 8).map fun i => b.toNat.testBit (7 - i)

def bits (id : Bytes) : List Bool := id.flatMap octetBits

def commonBits (a b : NodeId) : Nat := commonPrefix (bits a.1) (bits b.1)

/-- The XOR distance of Kademlia. -/
def xorDistance (a b : NodeId) : Nat := ofBigEndian a.1 ^^^ ofBigEndian b.1

section Bits

@[simp] theorem length_octetBits (b : UInt8) : (octetBits b).length = 8 := by simp [octetBits]

@[simp] theorem length_bits (id : Bytes) : (bits id).length = 8 * id.length := by
  induction id with
  | nil => rfl
  | cons b id ih =>
    rw [bits, List.flatMap_cons, List.length_append, ← bits, ih, length_octetBits,
      List.length_cons]
    omega

theorem length_bits_id (id : NodeId) : (bits id.1).length = 160 := by
  rw [length_bits, id.2]

private theorem ofBits_testBits : ∀ n < 256,
    ofBits ((List.range 8).map fun i => n.testBit (7 - i)) = n := by
  decide +kernel

theorem ofBits_octetBits (b : UInt8) : ofBits (octetBits b) = b.toNat :=
  ofBits_testBits b.toNat b.toNat_lt

theorem octetBits_inj {a b : UInt8} (h : octetBits a = octetBits b) : a = b := by
  have hvalue := congrArg ofBits h
  rw [ofBits_octetBits, ofBits_octetBits] at hvalue
  exact UInt8.toNat_inj.mp hvalue

theorem ofBits_bits (id : Bytes) : ofBits (bits id) = ofBigEndian id := by
  induction id using List.reverseRecOn with
  | nil => rfl
  | append_singleton id b ih =>
    rw [bits, List.flatMap_append, List.flatMap_singleton, ← bits, ofBits_append, ih,
      ofBits_octetBits, length_octetBits, ofBigEndian_append_singleton, show 2 ^ 8 = 256 from rfl]

theorem bits_inj {a b : Bytes} (hlen : a.length = b.length) (h : bits a = bits b) : a = b := by
  induction a generalizing b with
  | nil => exact (List.eq_nil_of_length_eq_zero hlen.symm).symm
  | cons x a ih =>
    cases b with
    | nil => simp at hlen
    | cons y b =>
      rw [bits, bits, List.flatMap_cons, List.flatMap_cons] at h
      obtain ⟨hxy, hab⟩ := List.append_inj h (by rw [length_octetBits, length_octetBits])
      rw [octetBits_inj hxy, ih (by simpa using hlen) hab]

/-- How many bits two octets share, from the highest bit in which they differ. -/
theorem octet_distance {a b : UInt8} (h : a ≠ b) :
    8 - (Nat.size (a.toNat ^^^ b.toNat) - 1) = commonPrefix (octetBits a) (octetBits b) + 1 := by
  have hlen : (octetBits a).length = (octetBits b).length := by simp
  have hsize := size_xor_ofBits hlen
  rw [ofBits_octetBits, ofBits_octetBits, length_octetBits] at hsize
  have hle := commonPrefix_le (octetBits a) (octetBits b)
  have hne : commonPrefix (octetBits a) (octetBits b) ≠ (octetBits a).length :=
    fun heq => h (octetBits_inj (eq_of_commonPrefix_eq_length hlen heq))
  rw [length_octetBits] at hle hne
  omega

/-- The loop counts the shared bits and the first one that is not shared. -/
theorem distanceLoop_eq {a b : Bytes} (hlen : a.length = b.length) :
    distanceLoop a b =
      if a = b then 8 * a.length else commonPrefix (bits a) (bits b) + 1 := by
  induction a generalizing b with
  | nil =>
    have hb : b = [] := List.eq_nil_of_length_eq_zero hlen.symm
    simp [hb, distanceLoop]
  | cons x a ih =>
    cases b with
    | nil => simp at hlen
    | cons y b =>
      have hlen' : a.length = b.length := by simpa using hlen
      have hbits : commonPrefix (bits (x :: a)) (bits (y :: b)) =
          if octetBits x = octetBits y then 8 + commonPrefix (bits a) (bits b)
          else commonPrefix (octetBits x) (octetBits y) := by
        rw [bits, bits, List.flatMap_cons, List.flatMap_cons, ← bits, ← bits,
          commonPrefix_append (by rw [length_octetBits, length_octetBits]), length_octetBits]
      rw [distanceLoop, hbits]
      by_cases hxy : x = y
      · subst hxy
        rw [if_pos (Nat.xor_self _), if_pos rfl, ih hlen', List.length_cons]
        by_cases hab : a = b
        · rw [if_pos hab, if_pos (congrArg _ hab)]
          omega
        · rw [if_neg hab, if_neg fun h => hab (List.cons.inj h).2]
          omega
      · have hxor : x.toNat ^^^ y.toNat ≠ 0 := by
          rw [ne_eq, Nat.xor_eq_zero_iff]
          exact fun h => hxy (UInt8.toNat_inj.mp h)
        rw [if_neg hxor, octet_distance hxy, if_neg fun h => hxy (octetBits_inj h),
          if_neg fun h => hxy (List.cons.inj h).1]

theorem distance_eq (a b : NodeId) :
    distance a.1 b.1 = if a = b then 160 else commonBits a b + 1 := by
  have hlen : a.1.length = b.1.length := by rw [a.2, b.2]
  rw [distance, if_neg (not_not.mpr hlen), distanceLoop_eq hlen, a.2]
  simp only [Subtype.ext_iff, commonBits]

theorem commonBits_le (a b : NodeId) : commonBits a b ≤ 160 := by
  rw [← length_bits_id a]
  exact commonPrefix_le _ _

theorem commonBits_eq_iff {a b : NodeId} : commonBits a b = 160 ↔ a = b := by
  have hlen : (bits a.1).length = (bits b.1).length := by rw [length_bits_id, length_bits_id]
  constructor
  · intro h
    have hbits := eq_of_commonPrefix_eq_length hlen (h.trans (length_bits_id a).symm)
    exact Subtype.ext (bits_inj (by rw [a.2, b.2]) hbits)
  · rintro rfl
    rw [commonBits, commonPrefix_self, length_bits_id]

/-- An id that differs from the target in the last bit alone is the only one to do so. -/
theorem eq_of_commonBits_last {a b t : NodeId} (ha : commonBits a t = 159)
    (hb : commonBits b t = 159) : a = b := by
  have hbits := eq_of_commonPrefix_last (length_bits_id a) (length_bits_id b) (length_bits_id t)
    ha hb
  exact Subtype.ext (bits_inj (by rw [a.2, b.2]) hbits)

/-- The class of an XOR distance, as its highest bit, is decided by the shared bits. -/
theorem size_xorDistance (a b : NodeId) : Nat.size (xorDistance a b) = 160 - commonBits a b := by
  have hlen : (bits a.1).length = (bits b.1).length := by rw [length_bits_id, length_bits_id]
  rw [xorDistance, ← ofBits_bits, ← ofBits_bits, size_xor_ofBits hlen, length_bits_id, commonBits]

/-- Among ids that are not equally far, the measure is greater for the nearer one. -/
theorem commonBits_lt_of_distance_lt {a b t : NodeId} (h : distance a.1 t.1 < distance b.1 t.1) :
    commonBits a t < commonBits b t := by
  rw [distance_eq, distance_eq] at h
  have ha := commonBits_le a t
  have hb := commonBits_le b t
  have hat := commonBits_eq_iff (a := a) (b := t)
  have hbt := commonBits_eq_iff (a := b) (b := t)
  split at h <;> split at h <;> simp_all <;> omega

end Bits

variable {Ref : Type*}

def firstItems (l : List Ref) (count : Int) : List Ref :=
  l.take (if count < 0 then l.length + count else count).toNat

namespace KademliaRoutingTable

/-- How many bits the id of a node shares with a target. -/
def shared (t : KademliaRoutingTable Ref) (target_id : NodeId) (r : Ref) : Nat :=
  commonBits (t.node r).node_id target_id

def distanceTo (t : KademliaRoutingTable Ref) (target_id : Bytes) (r : Ref) : Nat :=
  distance (t.node r).node_id.1 target_id

def getClosestNodes (t : KademliaRoutingTable Ref) (target_id : Bytes) (count : Int) : List Ref :=
  firstItems (sortOn (t.distanceTo target_id) t.nodes.values) count

/-- What a lookup of the nodes closest to a target answers. -/
structure IsClosest (t : KademliaRoutingTable Ref) (target_id : NodeId) (count : Int)
    (result : List Ref) : Prop where
  length : (result.length : Int) = min count t.nodes.size
  distinct : result.Nodup
  members : ∀ r ∈ result, r ∈ t.nodes.values
  closest : ∀ r ∈ result, ∀ e ∈ t.nodes.values, e ∉ result →
    t.shared target_id e ≤ t.shared target_id r
  xor_class : ∀ r ∈ result, ∀ e ∈ t.nodes.values, e ∉ result →
    Nat.size (xorDistance (t.node r).node_id target_id) ≤
      Nat.size (xorDistance (t.node e).node_id target_id)

/-- The order of the nodes makes no difference to the lookup: none or all of them are asked
for, all of them are equally close, or there are the target and then the one id that differs
from it in the last bit, which the measure does not tell apart. -/
def OrderImmaterial (t : KademliaRoutingTable Ref) (target_id : NodeId) (count : Int) : Prop :=
  0 ≤ count ∧ (count = 0 ∨ (t.nodes.size : Int) ≤ count ∨
    (∀ r ∈ t.nodes.values, ∀ e ∈ t.nodes.values, t.shared target_id r = t.shared target_id e) ∨
    ∃ id, t.nodes.keys = [target_id, id] ∧ commonBits id target_id = 159)

variable {t : KademliaRoutingTable Ref} {target_id : NodeId} {count : Int}

theorem keys_eq (t : KademliaRoutingTable Ref) :
    t.nodes.keys = t.nodes.values.map fun r => (t.node r).node_id := by
  rw [Dict.keys, Dict.values, List.map_map]
  refine List.map_congr_left fun e he => ?_
  exact (t.keyed e.1 e.2 ((Dict.get?_eq_some_iff t.nodes).mpr he)).symm

theorem length_values (t : KademliaRoutingTable Ref) : t.nodes.values.length = t.nodes.size := by
  rw [Dict.values, List.length_map, Dict.size]

/-- The nodes in the order of the lookup. -/
def ranked (t : KademliaRoutingTable Ref) (target_id : NodeId) : List Ref :=
  sortOn (t.distanceTo target_id.1) t.nodes.values

theorem ranked_perm : (t.ranked target_id).Perm t.nodes.values := sortOn_perm _ _

theorem mem_ranked (target_id : NodeId) {r : Ref} :
    r ∈ t.ranked target_id ↔ r ∈ t.nodes.values :=
  ranked_perm.mem_iff

theorem nodup_ranked : (t.ranked target_id).Nodup :=
  ranked_perm.nodup_iff.mpr t.values_nodup

theorem length_ranked : (t.ranked target_id).length = t.nodes.size := by
  rw [ranked_perm.length_eq, length_values]

theorem getClosestNodes_eq (h : 0 ≤ count) :
    t.getClosestNodes target_id.1 count = (t.ranked target_id).take count.toNat := by
  rw [getClosestNodes, firstItems, if_neg (by omega), ranked]

/-- A lookup with a count gives as many nodes as it should, each of them once. -/
theorem isClosest_iff (h : 0 ≤ count) :
    t.IsClosest target_id count (t.getClosestNodes target_id.1 count) ↔
      ∀ r ∈ (t.ranked target_id).take count.toNat, ∀ e ∈ (t.ranked target_id).drop count.toNat,
        t.shared target_id e ≤ t.shared target_id r := by
  rw [getClosestNodes_eq h]
  have hsplit : ((t.ranked target_id).take count.toNat ++
      (t.ranked target_id).drop count.toNat).Nodup := by
    rw [List.take_append_drop]
    exact nodup_ranked
  have hleft : ∀ e, e ∈ t.nodes.values ∧ e ∉ (t.ranked target_id).take count.toNat ↔
      e ∈ (t.ranked target_id).drop count.toNat := by
    intro e
    rw [← mem_ranked target_id,
      ← List.take_append_drop count.toNat (t.ranked target_id), List.mem_append,
      List.take_append_drop]
    constructor
    · rintro ⟨he | he, hnot⟩
      · exact absurd he hnot
      · exact he
    · exact fun he => ⟨Or.inr he, fun hmem => (List.nodup_append.mp hsplit).2.2 e hmem e he rfl⟩
  constructor
  · intro hc r hr e he
    obtain ⟨hv, hnot⟩ := (hleft e).mpr he
    exact hc.closest r hr e hv hnot
  · intro hc
    have hclosest : ∀ r ∈ (t.ranked target_id).take count.toNat, ∀ e ∈ t.nodes.values,
        e ∉ (t.ranked target_id).take count.toNat →
        t.shared target_id e ≤ t.shared target_id r :=
      fun r hr e hv hnot => hc r hr e ((hleft e).mp ⟨hv, hnot⟩)
    constructor
    case length =>
      rw [List.length_take, length_ranked]
      omega
    case distinct => exact nodup_ranked.take
    case members => exact fun r hr => (mem_ranked target_id).mp (List.mem_of_mem_take hr)
    case closest => exact hclosest
    case xor_class =>
      intro r hr e hv hnot
      have hle := hclosest r hr e hv hnot
      rw [shared, shared] at hle
      rw [size_xorDistance, size_xorDistance]
      omega

/-- When some nodes are returned and some are not, and none left out is closer, then all nodes
are equally far by the measure. -/
theorem distanceTo_eq_of_closest {n : Nat} (hpos : 0 < n) (hlt : n < (t.ranked target_id).length)
    (h : ∀ r ∈ (t.ranked target_id).take n, ∀ e ∈ (t.ranked target_id).drop n,
      t.shared target_id e ≤ t.shared target_id r) :
    ∀ r ∈ t.nodes.values, ∀ e ∈ t.nodes.values,
      t.distanceTo target_id.1 r = t.distanceTo target_id.1 e := by
  have hsorted : (t.ranked target_id).Pairwise
      (fun a b => t.distanceTo target_id.1 a ≤ t.distanceTo target_id.1 b) := sortOn_pairwise _ _
  have hcross : ∀ r ∈ (t.ranked target_id).take n, ∀ e ∈ (t.ranked target_id).drop n,
      t.distanceTo target_id.1 r = t.distanceTo target_id.1 e := by
    intro r hr e he
    rw [← List.take_append_drop n (t.ranked target_id), List.pairwise_append] at hsorted
    apply le_antisymm (hsorted.2.2 r hr e he)
    -- a node that is farther by the measure shares more bits, so it would be closer
    by_contra hfar
    exact absurd (h r hr e he) (Nat.not_le.mpr (commonBits_lt_of_distance_lt (Nat.not_le.mp hfar)))
  obtain ⟨a, ha⟩ := List.exists_mem_of_length_pos
    (l := (t.ranked target_id).take n) (by rw [List.length_take]; omega)
  obtain ⟨b, hb⟩ := List.exists_mem_of_length_pos
    (l := (t.ranked target_id).drop n) (by rw [List.length_drop]; omega)
  -- two nodes on one side are compared through one on the other side
  have hall : ∀ r ∈ t.nodes.values, t.distanceTo target_id.1 r = t.distanceTo target_id.1 a := by
    intro r hr
    rw [← mem_ranked target_id, ← List.take_append_drop n (t.ranked target_id),
      List.mem_append] at hr
    rcases hr with hr | hr
    · exact (hcross r hr b hb).trans (hcross a ha b hb).symm
    · exact (hcross a ha r hr).symm
  exact fun r hr e he => (hall r hr).trans (hall e he).symm

/-- Nodes that are equally far by the measure without being equally close are the target and
the one that differs from it in the last bit. -/
theorem perm_pair_of_distanceTo_eq
    (hfar : ∀ r ∈ t.nodes.values, ∀ e ∈ t.nodes.values,
      t.distanceTo target_id.1 r = t.distanceTo target_id.1 e)
    (hclose : ¬∀ r ∈ t.nodes.values, ∀ e ∈ t.nodes.values,
      t.shared target_id r = t.shared target_id e) :
    ∃ x z, t.nodes.values.Perm [x, z] ∧ (t.node x).node_id = target_id ∧
      t.shared target_id z = 159 := by
  -- one of two nodes that are not equally close is the target
  have hpair : ∃ x ∈ t.nodes.values, ∃ z ∈ t.nodes.values,
      (t.node x).node_id = target_id ∧ (t.node z).node_id ≠ target_id := by
    push Not at hclose
    obtain ⟨r, hr, e, he, hne⟩ := hclose
    have hdist := hfar r hr e he
    rw [distanceTo, distanceTo, distance_eq, distance_eq] at hdist
    by_cases hrt : (t.node r).node_id = target_id
    · refine ⟨r, hr, e, he, hrt, fun het => hne ?_⟩
      rw [shared, shared, hrt, het]
    · by_cases het : (t.node e).node_id = target_id
      · exact ⟨e, he, r, hr, het, hrt⟩
      · rw [if_neg hrt, if_neg het] at hdist
        exact absurd (Nat.add_right_cancel hdist) hne
  obtain ⟨x, hx, z, hz, hxt, hzt⟩ := hpair
  have hlast : ∀ w ∈ t.nodes.values, (t.node w).node_id ≠ target_id →
      t.shared target_id w = 159 := by
    intro w hw hwt
    have hdist := hfar w hw x hx
    rw [distanceTo, distanceTo, distance_eq, distance_eq, if_neg hwt, if_pos hxt] at hdist
    exact Nat.add_right_cancel hdist
  refine ⟨x, z, ?_, hxt, hlast z hz hzt⟩
  have hxz : x ≠ z := fun h => hzt (h ▸ hxt)
  rw [List.perm_ext_iff_of_nodup t.values_nodup (by simpa using hxz)]
  intro w
  rw [List.mem_cons, List.mem_singleton]
  constructor
  · intro hw
    by_cases hwt : (t.node w).node_id = target_id
    · exact Or.inl (eq_of_mem_values hw hx (hwt.trans hxt.symm))
    · exact Or.inr (eq_of_mem_values hw hz
        (eq_of_commonBits_last (hlast w hw hwt) (hlast z hz hzt)))
  · rintro (rfl | rfl)
    · exact hx
    · exact hz

theorem ranked_eq_values (h : ∀ r ∈ t.nodes.values, ∀ e ∈ t.nodes.values,
    t.distanceTo target_id.1 r = t.distanceTo target_id.1 e) :
    t.ranked target_id = t.nodes.values :=
  sortOn_eq_self _ (List.pairwise_of_forall_mem_list fun r hr e he => (h r hr e he).le)

theorem shared_target {r : Ref} (h : (t.node r).node_id = target_id) :
    t.shared target_id r = 160 :=
  commonBits_eq_iff.mpr h

/-- A lookup returns the nodes closest to the target exactly if their order is immaterial. -/
theorem isClosest_getClosestNodes_iff (t : KademliaRoutingTable Ref) (target_id : NodeId)
    (count : Int) :
    t.IsClosest target_id count (t.getClosestNodes target_id.1 count) ↔
      t.OrderImmaterial target_id count := by
  by_cases hcount : 0 ≤ count
  case neg =>
    refine iff_of_false (fun h => ?_) fun h => hcount h.1
    have hlength := h.length
    omega
  rw [isClosest_iff hcount]
  constructor
  · intro h
    refine ⟨hcount, ?_⟩
    by_cases hzero : count = 0
    · exact Or.inl hzero
    by_cases hfew : (t.nodes.size : Int) ≤ count
    · exact Or.inr (Or.inl hfew)
    have hfar := distanceTo_eq_of_closest (n := count.toNat) (by omega)
      (by rw [length_ranked]; omega) h
    by_cases hclose : ∀ r ∈ t.nodes.values, ∀ e ∈ t.nodes.values,
        t.shared target_id r = t.shared target_id e
    · exact Or.inr (Or.inr (Or.inl hclose))
    obtain ⟨x, z, hperm, hx, hz⟩ := perm_pair_of_distanceTo_eq hfar hclose
    have hsize : t.nodes.size = 2 := by rw [← length_values, hperm.length_eq]; rfl
    have hone : count.toNat = 1 := by omega
    rw [ranked_eq_values hfar, hone] at h
    refine Or.inr (Or.inr (Or.inr ⟨(t.node z).node_id, ?_, hz⟩))
    rcases List.perm_pair.mp hperm with hv | hv
    · rw [keys_eq, hv, List.map_cons, List.map_singleton, hx]
    · rw [hv] at h
      have hle := h z (by simp) x (by simp)
      rw [hz, shared_target hx] at hle
      omega
  · rintro ⟨-, hzero | hfew | hclose | ⟨id, hkeys, hid⟩⟩ r hr e he
    · rw [hzero] at hr
      simp at hr
    · rw [List.drop_eq_nil_of_le (by rw [length_ranked]; omega)] at he
      exact nomatch he
    · exact (hclose e ((mem_ranked target_id).mp (List.mem_of_mem_drop he)) r
        ((mem_ranked target_id).mp (List.mem_of_mem_take hr))).le
    · -- the target comes first, whatever the measure says
      rw [keys_eq] at hkeys
      obtain ⟨x, l, hvalues, hx, hl⟩ := List.map_eq_cons_iff.mp hkeys
      obtain ⟨z, l', rfl, hz, hl'⟩ := List.map_eq_cons_iff.mp hl
      rw [List.map_eq_nil_iff.mp hl'] at hvalues
      have hshared : t.shared target_id z = 159 := by rw [shared, hz, hid]
      have hfar : ∀ v ∈ t.nodes.values, t.distanceTo target_id.1 v = 160 := by
        rw [hvalues]
        intro v hv
        rw [distanceTo, distance_eq]
        rcases List.mem_pair.mp hv with rfl | rfl
        · rw [if_pos hx]
        · split
          · rfl
          · rw [← shared, hshared]
      rw [ranked_eq_values fun v hv w hw => (hfar v hv).trans (hfar w hw).symm, hvalues] at hr he
      obtain hn | hn | hn : count.toNat = 0 ∨ count.toNat = 1 ∨ 2 ≤ count.toNat := by omega
      · rw [hn] at hr
        exact nomatch hr
      · rw [hn] at hr he
        rw [List.mem_singleton.mp hr, List.mem_singleton.mp he, hshared, shared_target hx]
        omega
      · rw [List.drop_eq_nil_of_le hn] at he
        exact nomatch he

/-- Two nodes, of which the second is next to the target. -/
def nearAndFar (r : Nat) : DHTNode :=
  { farNode 0 with node_id := if r = 0 then idOf 0x40 0 else idOf 0x80 3 }

def nearAndFarTable : KademliaRoutingTable Nat :=
  (((new (idOf 0 0) 8 nearAndFar).addNode 0).2.addNode 1).2

/-- The nearer one of two nodes is left out. -/
theorem nearer_node_is_left_out : ¬nearAndFarTable.IsClosest (idOf 0x80 1) 1
    (nearAndFarTable.getClosestNodes (idOf 0x80 1).1 1) := by
  intro h
  exact absurd (h.closest 0 (by decide +kernel) 1 (by decide +kernel) (by decide +kernel))
    (by decide +kernel)

end KademliaRoutingTable

end Discovery

end Ccbt

import Ccbt.Peer.Message
import Ccbt.Protocols.BittorrentV2

/-!
# Message objects and their pools: `message_pools` of `peer/peer.py`

The decoders hand over message objects, and reuse objects that were returned to
their pools: the fields of a pooled object are overwritten when it is handed over
again. So an object has an identity here, and its fields are looked up by it.
-/

namespace Ccbt

open BittorrentV2

namespace Peer

inductive Message
  | peer (m : PeerMessage)
  | v2 (m : V2Message)
  deriving DecidableEq

/-- The message type of an object, which a keep-alive and a v2 message do not have. -/
def Message.message_id : Message → Option MessageType
  | peer m => m.message_id
  | v2 _ => none

abbrev Ref := Nat

/-- Whether `message_pools` has a pool for the type. -/
def MessageType.isPooled : MessageType → Bool
  | BITFIELD => false
  | PIECE => false
  | _ => true

/-- All message objects and the pools of one decoder. A pool holds objects of its type,
possibly one object more than once. -/
@[ext]
structure MessagePools where
  objects : List Message
  message_pools : MessageType → List Ref
  typed : ∀ {t ref}, ref ∈ message_pools t →
    ∃ m, objects[ref]? = some m ∧ m.message_id = some t
  unpooled : ∀ {t}, t.isPooled = false → message_pools t = []

namespace MessagePools

def empty : MessagePools := ⟨[], fun _ => [], by simp, fun _ => rfl⟩

def create (p : MessagePools) (m : Message) : Ref × MessagePools :=
  (p.objects.length,
    { p with
      objects := p.objects ++ [m]
      typed := by
        intro t ref href
        obtain ⟨o, ho, hid⟩ := p.typed href
        obtain ⟨hlt, -⟩ := List.getElem?_eq_some_iff.mp ho
        exact ⟨o, by rw [List.getElem?_append_left hlt, ho], hid⟩ })

def popleft (p : MessagePools) {t : MessageType} {ref : Ref} {rest : List Ref}
    (h : p.message_pools t = ref :: rest) : MessagePools where
  objects := p.objects
  message_pools s := if s = t then rest else p.message_pools s
  typed := by
    intro s r hr
    split at hr
    · next hs => exact p.typed (hs ▸ h ▸ List.mem_cons_of_mem ref hr)
    · exact p.typed hr
  unpooled := by
    intro s hs
    split
    · next hst =>
      have := p.unpooled (hst ▸ hs)
      simp [h] at this
    · exact p.unpooled hs

def overwrite (p : MessagePools) (ref : Ref) (m : Message)
    (h : ∃ o, p.objects[ref]? = some o ∧ o.message_id = m.message_id) : MessagePools where
  objects := p.objects.set ref m
  message_pools := p.message_pools
  typed := by
    intro t r hr
    obtain ⟨o, ho, hid⟩ := p.typed hr
    by_cases hrr : ref = r
    · subst hrr
      obtain ⟨o', ho', hid'⟩ := h
      obtain rfl : o = o' := Option.some.inj (ho.symm.trans ho')
      obtain ⟨hlt, -⟩ := List.getElem?_eq_some_iff.mp ho
      exact ⟨m, by rw [List.getElem?_set_self hlt], hid' ▸ hid⟩
    · exact ⟨o, by rw [List.getElem?_set_ne hrr, ho], hid⟩
  unpooled := p.unpooled

/-- The new message that `_get_pooled_message` makes where the pool is empty. -/
def createSimple (p : MessagePools) : MessageType → Except String (Ref × MessagePools)
  | .CHOKE => .ok (p.create (.peer .ChokeMessage))
  | .UNCHOKE => .ok (p.create (.peer .UnchokeMessage))
  | .INTERESTED => .ok (p.create (.peer .InterestedMessage))
  | .NOT_INTERESTED => .ok (p.create (.peer .NotInterestedMessage))
  | message_type => .error s!"Cannot pool message type: {message_type.toByte}"

def getPooledMessage (p : MessagePools) (message_type : MessageType) :
    Except String (Ref × MessagePools) :=
  match h : p.message_pools message_type with
  | ref :: _ => .ok (ref, p.popleft h)
  | [] => p.createSimple message_type

/-- The three methods below: an object of the pool with its fields overwritten, or a new one. -/
def getPooledWith (p : MessagePools) (t : MessageType) (m : PeerMessage)
    (hm : m.message_id = some t) : Ref × MessagePools :=
  match h : p.message_pools t with
  | ref :: _ =>
    (ref, (p.popleft h).overwrite ref (.peer m)
      (by
        obtain ⟨o, ho, hid⟩ := p.typed (h ▸ List.mem_cons_self)
        exact ⟨o, ho, hid.trans hm.symm⟩))
  | [] => p.create (.peer m)

def getPooledHaveMessage (p : MessagePools) (piece_index : UInt32) : Ref × MessagePools :=
  p.getPooledWith .HAVE (.HaveMessage piece_index) rfl

def getPooledRequestMessage (p : MessagePools) (piece_index begin length : UInt32) :
    Ref × MessagePools :=
  p.getPooledWith .REQUEST (.RequestMessage piece_index begin length) rfl

def getPooledCancelMessage (p : MessagePools) (piece_index begin length : UInt32) :
    Ref × MessagePools :=
  p.getPooledWith .CANCEL (.CancelMessage piece_index begin length) rfl

/-- `return_message_to_pool`; a pool keeps at most 100 objects. -/
def returnMessageToPool (p : MessagePools) (message : Ref) : MessagePools :=
  match ho : p.objects[message]? with
  | none => p
  | some o =>
    match hid : o.message_id with
    | none => p
    | some t =>
      if hpool : t.isPooled ∧ (p.message_pools t).length < 100 then
        { p with
          message_pools := fun s =>
            if s = t then p.message_pools t ++ [message] else p.message_pools s
          typed := by
            intro s r hr
            split at hr
            · next hs =>
              subst hs
              obtain hr | hr := List.mem_append.mp hr
              · exact p.typed hr
              · exact ⟨o, List.mem_singleton.mp hr ▸ ho, hid⟩
            · exact p.typed hr
          unpooled := by
            intro s hs
            rw [if_neg (by rintro rfl; simp [hpool.1] at hs)]
            exact p.unpooled hs }
      else p

/-- The object that is handed over for a message: the next one of the pool of its type, with
the fields of the message, or a new one. -/
def hand (p : MessagePools) (m : Message) : Ref × MessagePools :=
  match m with
  | .v2 m => p.create (.v2 m)
  | .peer m =>
    match hm : m.message_id with
    | none => p.create (.peer m)
    | some t => p.getPooledWith t m hm

/-- The objects that are handed over for some messages in turn. -/
def handAll (p : MessagePools) : List Message → List Ref × MessagePools
  | [] => ([], p)
  | m :: ms => ((p.hand m).1 :: ((p.hand m).2.handAll ms).1, ((p.hand m).2.handAll ms).2)

variable {p : MessagePools} {m : Message} {t : MessageType}

theorem lt_of_mem {ref : Ref} (h : ref ∈ p.message_pools t) : ref < p.objects.length := by
  obtain ⟨o, ho, -⟩ := p.typed h
  exact (List.getElem?_eq_some_iff.mp ho).1

theorem type_unique {s : MessageType} {ref : Ref} (hs : ref ∈ p.message_pools s)
    (ht : ref ∈ p.message_pools t) : s = t := by
  obtain ⟨o, ho, hid⟩ := p.typed hs
  obtain ⟨o', ho', hid'⟩ := p.typed ht
  obtain rfl : o = o' := Option.some.inj (ho.symm.trans ho')
  exact Option.some.inj (hid.symm.trans hid')

/-- What `hand` does where the pool of the type has an object. -/
theorem hand_pooled {ref : Ref} {rest : List Ref} (hm : m.message_id = some t)
    (h : p.message_pools t = ref :: rest) :
    (p.hand m).1 = ref ∧ (p.hand m).2.objects = p.objects.set ref m ∧
      ∀ s, (p.hand m).2.message_pools s = if s = t then rest else p.message_pools s := by
  cases m with
  | v2 m => simp [Message.message_id] at hm
  | peer m =>
    have hm' : m.message_id = some t := hm
    simp only [hand]
    split
    · next hnone => simp [hm'] at hnone
    · next t' ht' =>
      obtain rfl : t = t' := Option.some.inj (hm'.symm.trans ht')
      rw [getPooledWith]
      split
      · next ref' rest' h' =>
        obtain ⟨rfl, rfl⟩ : ref = ref' ∧ rest = rest' := by simpa [h] using h'
        exact ⟨rfl, rfl, fun s => rfl⟩
      · next h' => simp [h] at h'

/-- What `hand` does where it has to make a new object. -/
theorem hand_new (h : ∀ t, m.message_id = some t → p.message_pools t = []) :
    p.hand m = p.create m := by
  cases m with
  | v2 m => rfl
  | peer m =>
    simp only [hand]
    split
    · rfl
    · next t ht =>
      rw [getPooledWith]
      split
      · next ref rest h' => simp [h t ht] at h'
      · rfl

theorem hand_cases (p : MessagePools) (m : Message) :
    (∃ t ref rest, m.message_id = some t ∧ p.message_pools t = ref :: rest) ∨
      ∀ t, m.message_id = some t → p.message_pools t = [] := by
  cases hm : m.message_id with
  | none => exact Or.inr (by simp)
  | some t =>
    cases h : p.message_pools t with
    | nil => exact Or.inr (by rintro s hs; obtain rfl := Option.some.inj hs; exact h)
    | cons ref rest => exact Or.inl ⟨t, ref, rest, rfl, h⟩

theorem hand_get (p : MessagePools) (m : Message) :
    (p.hand m).2.objects[(p.hand m).1]? = some m := by
  obtain ⟨t, ref, rest, hm, h⟩ | h := p.hand_cases m
  · obtain ⟨href, hobjects, -⟩ := hand_pooled hm h
    rw [href, hobjects]
    exact List.getElem?_set_self (lt_of_mem (h ▸ List.mem_cons_self))
  · simp [hand_new h, create]

theorem hand_get_of_ne {ref : Ref} (hlt : ref < p.objects.length) (hne : (p.hand m).1 ≠ ref) :
    (p.hand m).2.objects[ref]? = p.objects[ref]? := by
  obtain ⟨t, ref', rest, hm, h⟩ | h := p.hand_cases m
  · obtain ⟨href, hobjects, -⟩ := hand_pooled hm h
    rw [hobjects]
    exact List.getElem?_set_ne (href ▸ hne)
  · rw [hand_new h, create]
    exact List.getElem?_append_left hlt

theorem objects_length_hand (p : MessagePools) (m : Message) :
    p.objects.length ≤ (p.hand m).2.objects.length := by
  obtain ⟨t, ref, rest, hm, h⟩ | h := p.hand_cases m
  · obtain ⟨-, hobjects, -⟩ := hand_pooled hm h
    rw [hobjects, List.length_set]
  · simp [hand_new h, create]

/-- The messages that an object of the pool of a type is due to be given: the objects are
taken from the pool in turn. -/
def due (p : MessagePools) (t : MessageType) (ms : List Message) : List (Ref × Message) :=
  (p.message_pools t).zip (ms.filter fun m => m.message_id = some t)

/-- No object that waits in a pool more than once is due to be given different fields. -/
def NoClash (p : MessagePools) (ms : List Message) : Prop :=
  ∀ t, ∀ a ∈ p.due t ms, ∀ b ∈ p.due t ms, a.1 = b.1 → a.2 = b.2

theorem mem_of_mem_hand {ref : Ref} (h : ref ∈ (p.hand m).2.message_pools t) :
    ref ∈ p.message_pools t := by
  obtain ⟨s, ref', rest, hm, hpool⟩ | hnew := p.hand_cases m
  · obtain ⟨-, -, hpools⟩ := hand_pooled hm hpool
    rw [hpools] at h
    split at h
    · next hts => exact hts ▸ hpool ▸ List.mem_cons_of_mem ref' h
    · exact h
  · rwa [hand_new hnew] at h

/-- Handing over an object of a pool takes the first message off what is due. -/
theorem due_cons_of_mem (h : (p.hand m).1 ∈ p.message_pools t) (ms : List Message) :
    p.due t (m :: ms) = ((p.hand m).1, m) :: (p.hand m).2.due t ms := by
  obtain ⟨s, ref, rest, hm, hpool⟩ | hnew := p.hand_cases m
  · obtain ⟨href, -, hpools⟩ := hand_pooled hm hpool
    obtain rfl : t = s := type_unique h (by rw [href, hpool]; exact List.mem_cons_self)
    rw [due, due, hpools, if_pos rfl, hpool, href, List.filter_cons_of_pos (by simp [hm])]
    rfl
  · rw [hand_new hnew] at h
    exact absurd (lt_of_mem h) (Nat.lt_irrefl _)

theorem due_cons_of_not_mem (h : (p.hand m).1 ∉ p.message_pools t) (ms : List Message) :
    p.due t (m :: ms) = (p.hand m).2.due t ms := by
  obtain ⟨s, ref, rest, hm, hpool⟩ | hnew := p.hand_cases m
  · obtain ⟨href, -, hpools⟩ := hand_pooled hm hpool
    have hts : t ≠ s := by
      rintro rfl
      exact h (by rw [href, hpool]; exact List.mem_cons_self)
    have hne : m.message_id ≠ some t := by simpa [hm] using Ne.symm hts
    rw [due, due, hpools, if_neg hts, List.filter_cons_of_neg (by simp [hne])]
  · have hpools : (p.hand m).2.message_pools = p.message_pools := by
      rw [hand_new hnew]
      rfl
    rw [due, due, hpools]
    by_cases hm : m.message_id = some t
    · simp [hnew t hm]
    · rw [List.filter_cons_of_neg (by simp [hm])]

theorem mem_due_cons {ms : List Message} {a : Ref × Message} (h : a ∈ (p.hand m).2.due t ms) :
    a ∈ p.due t (m :: ms) := by
  by_cases hmem : (p.hand m).1 ∈ p.message_pools t
  · exact due_cons_of_mem hmem ms ▸ List.mem_cons_of_mem _ h
  · exact due_cons_of_not_mem hmem ms ▸ h

theorem hand_mem_or_new (p : MessagePools) (m : Message) :
    (∃ t, (p.hand m).1 ∈ p.message_pools t) ∨ (p.hand m).1 = p.objects.length := by
  obtain ⟨t, ref, rest, hm, hpool⟩ | hnew := p.hand_cases m
  · obtain ⟨href, -, -⟩ := hand_pooled hm hpool
    exact Or.inl ⟨t, by rw [href, hpool]; exact List.mem_cons_self⟩
  · exact Or.inr (by rw [hand_new hnew]; rfl)

/-- Every object is handed over for the message that it is due to be given. -/
theorem mem_handAll {ms : List Message} {a : Ref × Message} (h : a ∈ p.due t ms) :
    a ∈ (p.handAll ms).1.zip ms := by
  induction ms generalizing p with
  | nil => simp [due] at h
  | cons m ms ih =>
    rw [handAll, List.zip_cons_cons]
    by_cases hmem : (p.hand m).1 ∈ p.message_pools t
    · rw [due_cons_of_mem hmem] at h
      obtain rfl | h := List.mem_cons.mp h
      · exact List.mem_cons_self
      · exact List.mem_cons_of_mem _ (ih h)
    · rw [due_cons_of_not_mem hmem] at h
      exact List.mem_cons_of_mem _ (ih h)

/-- An object that nothing is due for keeps its fields. -/
theorem handAll_get_of_not_due {ms : List Message} {ref : Ref} (hlt : ref < p.objects.length)
    (h : ∀ t, ∀ a ∈ p.due t ms, a.1 ≠ ref) :
    (p.handAll ms).2.objects[ref]? = p.objects[ref]? := by
  induction ms generalizing p with
  | nil => rfl
  | cons m ms ih =>
    have hne : (p.hand m).1 ≠ ref := by
      obtain ⟨t, hmem⟩ | hnew := p.hand_mem_or_new m
      · exact h t _ (due_cons_of_mem hmem ms ▸ List.mem_cons_self)
      · exact hnew ▸ Nat.ne_of_gt hlt
    rw [handAll, ih (Nat.lt_of_lt_of_le hlt (p.objects_length_hand m)) ?_, hand_get_of_ne hlt hne]
    exact fun t a ha => h t a (mem_due_cons ha)

/-- The objects that were handed over hold the messages that they were handed over for. -/
def ReadsBack (p : MessagePools) (ms : List Message) : Prop :=
  (p.handAll ms).1.map (fun ref => (p.handAll ms).2.objects[ref]?) = ms.map some

theorem ReadsBack.get {ms : List Message} (h : p.ReadsBack ms) {a : Ref × Message}
    (ha : a ∈ (p.handAll ms).1.zip ms) : (p.handAll ms).2.objects[a.1]? = some a.2 := by
  obtain ⟨i, hi, rfl⟩ := List.getElem_of_mem ha
  have hi' := congrArg (fun l => l[i]?) h
  rw [List.length_zip, Nat.lt_min] at hi
  simpa [hi.1, hi.2] using hi'

theorem noClash_cons (p : MessagePools) (m : Message) (ms : List Message) :
    p.NoClash (m :: ms) ↔ (p.hand m).2.NoClash ms ∧
      ∀ t, ∀ a ∈ (p.hand m).2.due t ms, a.1 = (p.hand m).1 → a.2 = m := by
  have hmem {t : MessageType} {a : Ref × Message} (ha : a ∈ (p.hand m).2.due t ms)
      (href : a.1 = (p.hand m).1) : (p.hand m).1 ∈ p.message_pools t :=
    href ▸ mem_of_mem_hand (List.of_mem_zip ha).1
  constructor
  · intro h
    refine ⟨fun t a ha b hb => h t a (mem_due_cons ha) b (mem_due_cons hb), ?_⟩
    intro t a ha href
    exact h t a (mem_due_cons ha) _ (due_cons_of_mem (hmem ha href) ms ▸ List.mem_cons_self) href
  · rintro ⟨h, hfirst⟩ t a ha b hb hab
    by_cases ht : (p.hand m).1 ∈ p.message_pools t
    · rw [due_cons_of_mem ht] at ha hb
      obtain rfl | ha := List.mem_cons.mp ha
      · obtain rfl | hb := List.mem_cons.mp hb
        · rfl
        · exact (hfirst t b hb hab.symm).symm
      · obtain rfl | hb := List.mem_cons.mp hb
        · exact hfirst t a ha hab
        · exact h t a ha b hb hab
    · rw [due_cons_of_not_mem ht] at ha hb
      exact h t a ha b hb hab

/-- The objects that are handed over hold the right fields in the end exactly when none of
them was due to be given two different ones. -/
theorem readsBack_iff_noClash (p : MessagePools) (ms : List Message) :
    p.ReadsBack ms ↔ p.NoClash ms := by
  induction ms generalizing p with
  | nil => simp [ReadsBack, NoClash, handAll, due]
  | cons m ms ih =>
    have hcons : p.ReadsBack (m :: ms) ↔
        ((p.hand m).2.handAll ms).2.objects[(p.hand m).1]? = some m ∧
          (p.hand m).2.ReadsBack ms := by
      simp [ReadsBack, handAll]
    rw [hcons, noClash_cons, ← ih, and_comm]
    refine and_congr_right fun hback => ?_
    constructor
    · rintro hm t a ha href
      have := hback.get (mem_handAll ha)
      rw [href, hm] at this
      exact (Option.some.inj this).symm
    · intro h
      by_cases hdue : ∃ t, ∃ a ∈ (p.hand m).2.due t ms, a.1 = (p.hand m).1
      · obtain ⟨t, a, ha, href⟩ := hdue
        rw [← href, hback.get (mem_handAll ha), h t a ha href]
      · have hlt := (List.getElem?_eq_some_iff.mp (p.hand_get m)).1
        rw [handAll_get_of_not_due hlt fun t a ha href => hdue ⟨t, a, ha, href⟩, hand_get]

end MessagePools

end Peer

end Ccbt

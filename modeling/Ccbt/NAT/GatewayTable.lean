import Ccbt.NAT.Natpmp
import Ccbt.Python.Dict

/-!
# What the gateway has mapped

Calls of the client of `nat/natpmp.py` against the table of a gateway. By RFC 6886 the table is keyed
by the protocol and the internal port; a request with lifetime 0 deletes the mapping of its internal
port, and with internal port 0 all mappings of the protocol. Every request is answered at once, and no
mapping expires.
-/

namespace Ccbt.Natpmp

open Python Transition

/-- Mappings with the external ports that have been granted. -/
abbrev Table := Dict (Protocol × UInt16) UInt16

namespace Table

def dropAll (table : Table) (test : Protocol × UInt16 → Bool) : Table :=
  (table.keys.filter test).foldl Dict.erase table

theorem get?_dropAll (table : Table) (test : Protocol × UInt16 → Bool) (key : Protocol × UInt16) :
    (table.dropAll test).get? key = if test key then none else table.get? key := by
  rw [dropAll, Dict.get?_foldl_erase]
  by_cases htest : test key
  · rw [if_pos htest]
    split
    · rfl
    · cases hget : table.get? key with
      | none => rfl
      | some granted =>
        have hkey : key ∈ table.keys := (Dict.mem_keys_iff table).mpr ⟨granted, hget⟩
        exact absurd (List.mem_filter.mpr ⟨hkey, htest⟩) ‹_›
  · rw [if_neg htest, if_neg]
    exact fun hmem => htest (List.mem_filter.mp hmem).2

def delete (table : Table) (protocol : Protocol) (internal_port : UInt16) : Table :=
  table.dropAll fun key => key.1 = protocol && (internal_port = 0 || key.2 = internal_port)

/-- The external port of a new mapping. A mapping that is there keeps its port. -/
def grant (table : Table) (protocol : Protocol) (internal_port wanted : UInt16) : UInt16 :=
  (table.get? (protocol, internal_port)).getD wanted

/-- The port belongs to another mapping of the protocol. -/
def taken (table : Table) (protocol : Protocol) (internal_port external_port : UInt16) : Bool :=
  table.keys.any fun key => key.1 = protocol && key.2 ≠ internal_port &&
    table.get? key = some external_port

def serve (table : Table) (decision : Decision) : Request → Table × Answer
  | .address => (table, .address decision.result decision.seconds decision.external_ip)
  | .mapping protocol internal_port _ lifetime =>
    let granted := table.grant protocol internal_port decision.external_port
    if decision.result ≠ 0 then
      (table, .mapping protocol decision.result decision.seconds internal_port 0 0)
    else if lifetime = 0 then
      (table.delete protocol internal_port,
        .mapping protocol 0 decision.seconds internal_port 0 0)
    else if table.taken protocol internal_port granted then
      (table, .mapping protocol 4 decision.seconds internal_port 0 0)
    else
      (table.set (protocol, internal_port) granted,
        .mapping protocol 0 decision.seconds internal_port granted decision.lifetime)

/-- `add_port_mapping`, with what the gateway does in between. -/
def addPortMapping (table : Table) (internal_port external_port lifetime : Int)
    (protocol : Protocol) (decision : Decision) : Table × Outcome :=
  let call := Call.addPortMapping internal_port external_port lifetime protocol
  match call.request with
  | none => (table, .structError)
  | some request =>
    match Request.parse request with
    | none => (table, call.timeout)
    | some request =>
      let (table, answer) := table.serve decision request
      (table, (NATPMPClient.receive {} answer.datagram call).2)

def deletePortMapping (table : Table) (external_port : Int) (protocol : Protocol)
    (decision : Decision) : Table × Outcome :=
  table.addPortMapping 0 external_port 0 protocol decision

end Table

section Ledger

/-- The table, and the mappings that have been added and not deleted since. -/
structure Mapped where
  table : Table := .empty
  ledger : Table := .empty

inductive TableEvent
  | add (internal_port external_port lifetime : Int) (protocol : Protocol) (decision : Decision)
  | delete (external_port : Int) (protocol : Protocol) (decision : Decision)

def Outcome.succeeds : Outcome → Bool
  | .mapping _ => true
  | _ => false

/-- A call that succeeds adds the mapping that it returns, under the protocol that was asked for, or
with lifetime 0 deletes by internal port. -/
def added (ledger : Table) (lifetime : Int) (protocol : Protocol) : Outcome → Table
  | .mapping mapping =>
    if lifetime = 0 then ledger.delete protocol mapping.internal_port
    else ledger.set (protocol, mapping.internal_port) mapping.external_port
  | _ => ledger

/-- A call that succeeds deletes the mapping of the protocol with this external port. -/
def deleted (ledger : Table) (external_port : Int) (protocol : Protocol) : Outcome → Table
  | .mapping _ => ledger.dropAll fun key => key.1 = protocol &&
      (ledger.get? key).any fun granted => (granted.toNat : Int) = external_port
  | _ => ledger

def tableStep (s : Mapped) : TableEvent → Mapped
  | .add internal_port external_port lifetime protocol decision =>
    let (table, outcome) :=
      s.table.addPortMapping internal_port external_port lifetime protocol decision
    { table, ledger := added s.ledger lifetime protocol outcome }
  | .delete external_port protocol decision =>
    let (table, outcome) := s.table.deletePortMapping external_port protocol decision
    { table, ledger := deleted s.ledger external_port protocol outcome }

def Agrees (s : Mapped) : Prop := ∀ key, s.table.get? key = s.ledger.get? key

/-- When a request for a deletion reaches the gateway and is granted, no mapping of the protocol has
another external port. -/
def DeletesAll (s : Mapped) : TableEvent → Prop
  | .add .. => True
  | .delete external_port protocol decision =>
    0 ≤ external_port → external_port < 2 ^ 16 → decision.result = 0 →
      ∀ internal_port granted, s.table.get? (protocol, internal_port) = some granted →
        (granted.toNat : Int) = external_port

end Ledger

section Exchange

variable {internal_port external_port lifetime : Int} {protocol : Protocol}

/-- The gateway reads the fields of a request as they have been sent. -/
theorem parse_fields (protocol : Protocol) (internal_port external_port : UInt16)
    (lifetime : UInt32) :
    Request.parse (NAT_PMP_VERSION :: protocol.opcode ::
        (packH 0 ++ packH internal_port ++ packH external_port ++ packI lifetime)) =
      some (.mapping protocol internal_port external_port lifetime) := by
  cases protocol with
  | tcp =>
    show some (Request.mapping .tcp (unpackH (packH internal_port))
      (unpackH (packH external_port)) (unpackI (packI lifetime))) = _
    rw [unpackH_packH, unpackH_packH, unpackI_packI]
  | udp =>
    show some (Request.mapping .udp (unpackH (packH internal_port))
      (unpackH (packH external_port)) (unpackI (packI lifetime))) = _
    rw [unpackH_packH, unpackH_packH, unpackI_packI]

/-- The fields of a request can be packed. -/
def Fits (internal_port external_port lifetime : Int) : Prop :=
  (0 ≤ internal_port ∧ internal_port < 2 ^ 16) ∧ (0 ≤ external_port ∧ external_port < 2 ^ 16) ∧
    0 ≤ lifetime ∧ lifetime < 2 ^ 32

theorem encodePortMappingRequest_cases (internal_port external_port lifetime : Int)
    (protocol : Protocol) :
    (¬Fits internal_port external_port lifetime ∧
      encodePortMappingRequest internal_port external_port lifetime protocol = none) ∨
    (Fits internal_port external_port lifetime ∧ ∃ request,
      encodePortMappingRequest internal_port external_port lifetime protocol = some request ∧
        Request.parse request = some (.mapping protocol (.ofNat internal_port.toNat)
          (.ofNat external_port.toNat) (.ofNat lifetime.toNat))) := by
  rw [encodePortMappingRequest, packPort, packPort, packLifetime]
  by_cases hinternal : 0 ≤ internal_port ∧ internal_port < 2 ^ 16
  · by_cases hexternal : 0 ≤ external_port ∧ external_port < 2 ^ 16
    · by_cases hlifetime : 0 ≤ lifetime ∧ lifetime < 2 ^ 32
      · rw [if_pos hinternal, if_pos hexternal, if_pos hlifetime]
        exact .inr ⟨⟨hinternal, hexternal, hlifetime⟩, _, rfl, parse_fields _ _ _ _⟩
      · rw [if_pos hinternal, if_pos hexternal, if_neg hlifetime]
        exact .inl ⟨fun h => hlifetime h.2.2, rfl⟩
    · rw [if_pos hinternal, if_neg hexternal]
      exact .inl ⟨fun h => hexternal h.2.1, rfl⟩
  · rw [if_neg hinternal]
    exact .inl ⟨fun h => hinternal h.1, rfl⟩

/-- A lifetime is 0 as it is sent if and only if it is 0. -/
theorem ofNat_lifetime_eq_zero (h : 0 ≤ lifetime ∧ lifetime < 2 ^ 32) :
    UInt32.ofNat lifetime.toNat = 0 ↔ lifetime = 0 := by
  rw [← UInt32.toNat_inj, UInt32.toNat_ofNat', UInt32.toNat_zero]
  omega

/-- A call fails and changes nothing, or it deletes, or it sets one mapping and returns it. -/
theorem addPortMapping_cases (table : Table) (internal_port external_port lifetime : Int)
    (protocol : Protocol) (decision : Decision) :
    (¬(Fits internal_port external_port lifetime ∧ lifetime = 0 ∧ decision.result = 0) ∧
      ∃ outcome, outcome.succeeds = false ∧
        table.addPortMapping internal_port external_port lifetime protocol decision =
          (table, outcome)) ∨
    ((Fits internal_port external_port lifetime ∧ lifetime = 0 ∧ decision.result = 0) ∧
      table.addPortMapping internal_port external_port lifetime protocol decision =
        (table.delete protocol (.ofNat internal_port.toNat),
          .mapping ⟨.ofNat internal_port.toNat, 0, 0, .udp⟩)) ∨
    (lifetime ≠ 0 ∧ ∃ granted,
      table.addPortMapping internal_port external_port lifetime protocol decision =
        (table.set (protocol, .ofNat internal_port.toNat) granted,
          .mapping ⟨.ofNat internal_port.toNat, granted, decision.lifetime, .udp⟩)) := by
  rw [Table.addPortMapping]
  rcases encodePortMappingRequest_cases internal_port external_port lifetime protocol with
    ⟨hnot, hnone⟩ | ⟨hfits, request, hrequest, hparse⟩
  · refine .inl ⟨fun h => hnot h.1, .structError, rfl, ?_⟩
    simp only [Call.request, hnone]
  · simp only [Call.request, hrequest, hparse, Table.serve]
    have hzero := ofNat_lifetime_eq_zero hfits.2.2
    by_cases hresult : decision.result = 0
    · rw [if_neg (not_not.mpr hresult)]
      by_cases hdelete : lifetime = 0
      · refine .inr (.inl ⟨⟨hfits, hdelete, hresult⟩, ?_⟩)
        rw [if_pos (hzero.mpr hdelete)]
        simp only [NATPMPClient.receive, decodePortMappingResponse_mapping]
        rfl
      · rw [if_neg (hzero.not.mpr hdelete)]
        split
        · exact .inl ⟨fun h => hdelete h.2.1, _, rfl, rfl⟩
        · refine .inr (.inr ⟨hdelete, table.grant protocol (.ofNat internal_port.toNat)
            decision.external_port, ?_⟩)
          simp only [NATPMPClient.receive, decodePortMappingResponse_mapping]
          rfl
    · refine .inl ⟨fun h => hresult h.2.2, .error ("Error adding port mapping: ".toList ++
        ("NAT-PMP error: ".toList ++ errorName decision.result)), rfl, ?_⟩
      rw [if_pos hresult]
      simp only [NATPMPClient.receive, decodePortMappingResponse_mapping, if_pos hresult]

end Exchange

section Runs

variable {s : Mapped}

theorem get?_delete (table : Table) (protocol : Protocol) (internal_port : UInt16)
    (key : Protocol × UInt16) :
    (table.delete protocol internal_port).get? key =
      if key.1 = protocol ∧ (internal_port = 0 ∨ key.2 = internal_port) then none
      else table.get? key := by
  rw [Table.delete, Table.get?_dropAll]
  exact if_congr (by simp) rfl rfl

theorem added_of_fails {ledger : Table} {lifetime : Int} {protocol : Protocol} {outcome : Outcome}
    (h : outcome.succeeds = false) : added ledger lifetime protocol outcome = ledger := by
  cases outcome with
  | mapping => cases h
  | address | error | structError => rfl

theorem deleted_of_fails {ledger : Table} {external_port : Int} {protocol : Protocol}
    {outcome : Outcome} (h : outcome.succeeds = false) :
    deleted ledger external_port protocol outcome = ledger := by
  cases outcome with
  | mapping => cases h
  | address | error | structError => rfl

/-- A new mapping is what the client takes it for. -/
theorem agrees_add (h : Agrees s) (internal_port external_port lifetime : Int)
    (protocol : Protocol) (decision : Decision) :
    Agrees (tableStep s (.add internal_port external_port lifetime protocol decision)) := by
  intro key
  rw [tableStep]
  rcases addPortMapping_cases s.table internal_port external_port lifetime protocol decision with
    ⟨-, outcome, hfails, hcall⟩ | ⟨⟨-, hzero, -⟩, hcall⟩ | ⟨hfinite, granted, hcall⟩
  · rw [hcall]
    show s.table.get? key = (added s.ledger lifetime protocol outcome).get? key
    rw [added_of_fails hfails, h key]
  · rw [hcall]
    show (s.table.delete _ _).get? key = (added _ _ _ _).get? key
    rw [added, if_pos hzero, get?_delete, get?_delete, h key]
  · rw [hcall]
    show (s.table.set _ _).get? key = (added _ _ _ _).get? key
    rw [added, if_neg hfinite, Dict.get?_set, Dict.get?_set, h key]

/-- A deletion is what the client takes it for if and only if nothing else is mapped. -/
theorem agrees_delete_iff (h : Agrees s) (external_port : Int) (protocol : Protocol)
    (decision : Decision) :
    Agrees (tableStep s (.delete external_port protocol decision)) ↔
      DeletesAll s (.delete external_port protocol decision) := by
  rw [tableStep, Table.deletePortMapping, DeletesAll]
  rcases addPortMapping_cases s.table 0 external_port 0 protocol decision with
    ⟨hnot, outcome, hfails, hcall⟩ | ⟨⟨hfits, -, hresult⟩, hcall⟩ | ⟨hfinite, -⟩
  · rw [hcall]
    refine iff_of_true (fun key => ?_) fun hlow hhigh hresult => ?_
    · show s.table.get? key = (deleted s.ledger external_port protocol outcome).get? key
      rw [deleted_of_fails hfails, h key]
    · exact absurd ⟨⟨by decide, ⟨hlow, hhigh⟩, by decide⟩, rfl, hresult⟩ hnot
  · rw [hcall, forall_prop_of_true hfits.2.1.1, forall_prop_of_true hfits.2.1.2,
      forall_prop_of_true hresult]
    have hsame (key : Protocol × UInt16) : (s.table.delete protocol 0).get? key =
          (deleted s.ledger external_port protocol (.mapping ⟨0, 0, 0, .udp⟩)).get? key ↔
        (key.1 = protocol → ∀ granted, s.table.get? key = some granted →
          (granted.toNat : Int) = external_port) := by
      rw [get?_delete, deleted, Table.get?_dropAll, h key]
      by_cases hkey : key.1 = protocol
      · cases s.ledger.get? key <;> simp [hkey]
      · simp [hkey]
    constructor
    · intro hagrees internal_port
      exact (hsame (protocol, internal_port)).mp (hagrees _) rfl
    · rintro hall ⟨other, internal_port⟩
      refine (hsame (other, internal_port)).mpr ?_
      rintro rfl
      exact hall internal_port
  · exact absurd rfl hfinite

theorem agrees_step_iff (h : Agrees s) (e : TableEvent) :
    Agrees (tableStep s e) ↔ DeletesAll s e := by
  cases e with
  | add internal_port external_port lifetime protocol decision =>
    exact iff_of_true (agrees_add h _ _ _ _ _) trivial
  | delete external_port protocol decision => exact agrees_delete_iff h _ _ _

/-- The table of the gateway is what has been added and not deleted since, throughout a run, exactly
if every deletion is of all that is mapped for the protocol. -/
theorem always_agrees_iff (events : List TableEvent) :
    Always tableStep Agrees {} events ↔ StepsMeet tableStep DeletesAll {} events :=
  always_iff_stepsMeet (fun _ e h => agrees_step_iff h e) fun _ => rfl

/-- Two ports are mapped for TCP, and one of them is deleted. -/
def deletedOne : List TableEvent :=
  [.add 6881 6881 3600 .tcp ⟨0, 1000, 0, 6881, 3600⟩,
    .add 6882 6882 3600 .tcp ⟨0, 1001, 0, 6882, 3600⟩, .delete 6881 .tcp ⟨0, 1002, 0, 0, 0⟩]

theorem not_always_agrees_deletedOne : ¬Always tableStep Agrees {} deletedOne := by
  intro h
  have hlast := always_iff_take.mp h 3 (.tcp, 6882)
  revert hlast
  decide +kernel

end Runs

end Ccbt.Natpmp

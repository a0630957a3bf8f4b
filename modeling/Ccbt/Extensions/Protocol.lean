import Ccbt.Peer.Message
import Ccbt.Python.Dict
import Ccbt.Python.Text
import Ccbt.Transition.Run

/-!
# The extension protocol: `extensions/protocol.py`

`ExtensionProtocol` numbers the extensions and calls their handlers. Its messages go out as peer
wire messages, and the message loop of `peer/async_peer_connection.py` hands those with the id 20 to
`_handle_extension_message`.
-/

namespace Ccbt.Extensions

open Python Transition

abbrev EXTENDED : UInt8 := 20

structure ExtensionInfo (H : Type*) where
  name : Str
  version : Str
  message_id : Nat
  handler : Option H

structure ExtensionProtocol (H : Type*) where
  extensions : Dict Str (ExtensionInfo H) := .empty
  message_handlers : Dict Nat H := .empty
  next_message_id : Nat := 1

variable {H : Type*}

/-- What becomes of an extension message. -/
inductive Handled (H : Type*)
  | unknown
  | called (name : Str) (handler : H)
  | ignored (name : Str)

namespace ExtensionProtocol

variable (p : ExtensionProtocol H)

/-- With the message id, or the message of a `ValueError`. -/
def registerExtension (name version : Str) (handler : Option H) :
    Except Str (Nat × ExtensionProtocol H) :=
  if (p.extensions.get? name).isSome then
    .error ("Extension '".toList ++ name ++ "' already registered".toList)
  else
    let message_id := p.next_message_id
    .ok (message_id,
      { extensions := p.extensions.set name { name, version, message_id, handler }
        message_handlers :=
          match handler with
          | some handler => p.message_handlers.set message_id handler
          | none => p.message_handlers
        next_message_id := message_id + 1 })

def unregisterExtension (name : Str) : ExtensionProtocol H :=
  match p.extensions.get? name with
  | none => p
  | some extension_info =>
    { p with
      message_handlers := p.message_handlers.erase extension_info.message_id
      extensions := p.extensions.erase name }

def handleExtensionMessage (message_id : Nat) : Handled H :=
  match p.extensions.entries.find? fun e => e.2.message_id = message_id with
  | none => .unknown
  | some (name, _) =>
    if name = [] then .unknown
    else
      match p.message_handlers.get? message_id with
      | some handler => .called name handler
      | none => .ignored name

end ExtensionProtocol

section Registry

/-! ### Which handler is called -/

inductive Registration (H : Type*)
  | register (name version : Str) (handler : Option H)
  | unregister (name : Str)

def register (p : ExtensionProtocol H) : Registration H → ExtensionProtocol H
  | .register name version handler =>
    match p.registerExtension name version handler with
    | .ok (_, p) => p
    | .error _ => p
  | .unregister name => p.unregisterExtension name

/-- The extensions have numbers of their own, and the handlers are theirs. -/
structure Numbered (p : ExtensionProtocol H) : Prop where
  lt : ∀ {name info}, p.extensions.get? name = some info → info.message_id < p.next_message_id
  unique : ∀ {name name' info info'}, p.extensions.get? name = some info →
    p.extensions.get? name' = some info' → info.message_id = info'.message_id → name = name'
  handlers : ∀ message_id h, p.message_handlers.get? message_id = some h ↔
    ∃ name info, p.extensions.get? name = some info ∧ info.message_id = message_id ∧
      info.handler = some h

variable {p : ExtensionProtocol H} {name version : Str} {handler : Option H}

theorem numbered_new : Numbered ({} : ExtensionProtocol H) where
  lt h := nomatch h
  unique h := nomatch h
  handlers _ _ := ⟨nofun, fun ⟨_, _, h, _⟩ => nomatch h⟩

/-- The registry with one more extension. -/
def added (p : ExtensionProtocol H) (name version : Str) (handler : Option H) :
    ExtensionProtocol H where
  extensions := p.extensions.set name { name, version, message_id := p.next_message_id, handler }
  message_handlers :=
    match handler with
    | some handler => p.message_handlers.set p.next_message_id handler
    | none => p.message_handlers
  next_message_id := p.next_message_id + 1

theorem register_eq : register p (.register name version handler) =
    if (p.extensions.get? name).isSome then p else added p name version handler := by
  rw [register, ExtensionProtocol.registerExtension]
  split
  · next p' h =>
    split at h
    · cases h
    · next hnew =>
      cases h
      rw [if_neg hnew]
      rfl
  · next h =>
    split at h
    · next hold => rw [if_pos hold]
    · cases h

theorem get?_extensions_added (n : Str) : (added p name version handler).extensions.get? n =
    if n = name then some { name, version, message_id := p.next_message_id, handler }
    else p.extensions.get? n :=
  p.extensions.get?_set name n _

theorem get?_message_handlers_added (message_id : Nat) :
    (added p name version handler).message_handlers.get? message_id =
      if message_id = p.next_message_id ∧ handler.isSome then handler
      else p.message_handlers.get? message_id := by
  cases handler with
  | none => rw [if_neg (fun h => Bool.false_ne_true h.2)]; rfl
  | some h =>
    refine (p.message_handlers.get?_set p.next_message_id message_id h).trans ?_
    by_cases heq : message_id = p.next_message_id
    · rw [if_pos heq, if_pos ⟨heq, rfl⟩]
    · rw [if_neg heq, if_neg (fun h => heq h.1)]

theorem Numbered.added (hp : Numbered p) (hnew : p.extensions.get? name = none) :
    Numbered (added p name version handler) where
  lt := by
    intro n info h
    rw [get?_extensions_added] at h
    split at h
    · cases h
      exact Nat.lt_succ_self _
    · exact (hp.lt h).trans (Nat.lt_succ_self _)
  unique := by
    intro n n' info info' h h' hid
    rw [get?_extensions_added] at h h'
    split at h
    · next hn =>
      cases h
      split at h'
      · next hn' => rw [hn, hn']
      · exact absurd hid.symm (hp.lt h').ne
    · split at h'
      · cases h'
        exact absurd hid (hp.lt h).ne
      · exact hp.unique h h' hid
  handlers := by
    intro message_id h
    rw [get?_message_handlers_added]
    constructor
    · intro hget
      split at hget
      · next heq =>
        exact ⟨name, _, Dict.get?_set_self _ _ _, heq.1.symm, hget⟩
      · obtain ⟨n, info, hinfo, hid, hh⟩ := (hp.handlers _ _).mp hget
        have hne : n ≠ name := by
          rintro rfl
          rw [hnew] at hinfo
          cases hinfo
        exact ⟨n, info, (Dict.get?_set_ne _ hne _).trans hinfo, hid, hh⟩
    · rintro ⟨n, info, hinfo, hid, hh⟩
      rw [get?_extensions_added] at hinfo
      split at hinfo
      · cases hinfo
        rw [if_pos ⟨hid.symm, by rw [show handler = some h from hh]; rfl⟩]
        exact hh
      · rw [if_neg (fun heq => (hp.lt hinfo).ne (hid.trans heq.1))]
        exact (hp.handlers _ _).mpr ⟨n, info, hinfo, hid, hh⟩

theorem Numbered.unregister (hp : Numbered p) (name : Str) :
    Numbered (p.unregisterExtension name) := by
  rw [ExtensionProtocol.unregisterExtension]
  split
  · exact hp
  next gone hgone =>
  refine ⟨?_, ?_, ?_⟩
  · intro n info h
    rw [Dict.get?_erase] at h
    split at h
    · cases h
    · exact hp.lt h
  · intro n n' info info' h h' hid
    rw [Dict.get?_erase] at h h'
    split at h
    · cases h
    · split at h'
      · cases h'
      · exact hp.unique h h' hid
  · intro message_id h
    simp only [Dict.get?_erase]
    constructor
    · intro hget
      split at hget
      · cases hget
      next hid =>
      obtain ⟨n, info, hinfo, hn, hh⟩ := (hp.handlers _ _).mp hget
      refine ⟨n, info, ?_, hn, hh⟩
      rw [if_neg, hinfo]
      rintro rfl
      rw [hgone] at hinfo
      cases hinfo
      exact hid hn.symm
    · rintro ⟨n, info, hinfo, hid, hh⟩
      split at hinfo
      · cases hinfo
      next hn =>
      rw [if_neg, hp.handlers]
      · exact ⟨n, info, hinfo, hid, hh⟩
      · intro heq
        exact hn (hp.unique hinfo hgone (hid.trans heq))

theorem Numbered.register (hp : Numbered p) (e : Registration H) : Numbered (register p e) := by
  cases e with
  | register name version handler =>
    rw [register_eq]
    split
    · exact hp
    · next hnew => exact hp.added (Option.not_isSome_iff_eq_none.mp hnew)
  | unregister name => exact hp.unregister name

theorem numbered_run (es : List (Registration H)) : Numbered (run register {} es) :=
  run_of_invariant (fun _ e h => h.register e) numbered_new es

theorem get?_of_find? {message_id : Nat} {n : Str} {info : ExtensionInfo H}
    (h : (p.extensions.entries.find? fun e => e.2.message_id = message_id) = some (n, info)) :
    p.extensions.get? n = some info ∧ info.message_id = message_id := by
  have hid := List.find?_some h
  exact ⟨p.extensions.get?_eq_some_iff.mpr (List.mem_of_find?_eq_some h), of_decide_eq_true hid⟩

theorem handleExtensionMessage_eq_called_iff (hp : Numbered p) {message_id : Nat} {h : H} :
    p.handleExtensionMessage message_id = .called name h ↔ name ≠ [] ∧
      ∃ info, p.extensions.get? name = some info ∧ info.message_id = message_id ∧
        info.handler = some h := by
  rw [ExtensionProtocol.handleExtensionMessage]
  constructor
  · intro hcalled
    split at hcalled
    · cases hcalled
    next n info hfind =>
    split at hcalled
    · cases hcalled
    next hne =>
    split at hcalled
    · next h' hget =>
      cases hcalled
      obtain ⟨n', info', hinfo', hid', hh'⟩ := (hp.handlers _ _).mp hget
      obtain ⟨hmem, hid⟩ := get?_of_find? hfind
      obtain rfl := hp.unique hmem hinfo' (hid.trans hid'.symm)
      exact ⟨hne, info', hinfo', hid', hh'⟩
    · cases hcalled
  · rintro ⟨hne, info, hinfo, hid, hh⟩
    cases hfind : p.extensions.entries.find? fun e => e.2.message_id = message_id with
    | none =>
      have hnot := List.find?_eq_none.mp hfind _ (p.extensions.get?_eq_some_iff.mp hinfo)
      exact absurd (decide_eq_true hid) hnot
    | some e =>
      obtain ⟨n, info'⟩ := e
      obtain ⟨hmem, hid'⟩ := get?_of_find? hfind
      obtain rfl := hp.unique hinfo hmem (hid.trans hid'.symm)
      have hget := (hp.handlers message_id h).mpr ⟨name, info, hinfo, hid, hh⟩
      simp only [if_neg hne, hget]

/-- The extensions of `p` are still what they were in `q`, or gone, and their numbers are not given
again. -/
structure Follows (p q : ExtensionProtocol H) : Prop where
  le : p.next_message_id ≤ q.next_message_id
  old : ∀ {name info}, q.extensions.get? name = some info →
    info.message_id < p.next_message_id → p.extensions.get? name = some info

theorem Follows.register {q : ExtensionProtocol H} (h : Follows p q) (e : Registration H) :
    Follows p (register q e) := by
  cases e with
  | register name version handler =>
    rw [register_eq]
    split
    · exact h
    refine ⟨h.le.trans (Nat.le_succ _), ?_⟩
    intro n info hinfo hlt
    rw [get?_extensions_added] at hinfo
    split at hinfo
    · cases hinfo
      exact absurd hlt (Nat.not_lt.mpr h.le)
    · exact h.old hinfo hlt
  | unregister name =>
    rw [Extensions.register, ExtensionProtocol.unregisterExtension]
    split
    · exact h
    refine ⟨h.le, ?_⟩
    intro n info hinfo hlt
    rw [Dict.get?_erase] at hinfo
    split at hinfo
    · cases hinfo
    · exact h.old hinfo hlt

/-- Behind every run the handlers that are called are those of the extensions that are registered,
and a number that an extension has had is never the number of another one. -/
theorem dispatch_run (es more : List (Registration H)) (message_id : Nat) :
    (∀ name h, (run register {} es).handleExtensionMessage message_id = .called name h ↔
      name ≠ [] ∧ ∃ info, (run register {} es).extensions.get? name = some info ∧
        info.message_id = message_id ∧ info.handler = some h) ∧
    ∀ name name' info info',
      (run register {} es).extensions.get? name = some info →
      (run register {} (es ++ more)).extensions.get? name' = some info' →
      info.message_id = info'.message_id → name' = name ∧ info' = info := by
  have hp := numbered_run es
  refine ⟨fun name h => handleExtensionMessage_eq_called_iff hp, ?_⟩
  intro name name' info info' hinfo hinfo' hid
  rw [run_append] at hinfo'
  have hfollows : Follows (run register {} es) (run register (run register {} es) more) :=
    run_of_invariant (fun _ e h => h.register e) ⟨le_rfl, fun h _ => h⟩ more
  have hold := hfollows.old hinfo' (hid ▸ hp.lt hinfo)
  obtain rfl := hp.unique hinfo hold hid
  exact ⟨rfl, Option.some.inj (hold.symm.trans hinfo)⟩

end Registry

section Wire

/-! ### What arrives of the messages that are sent -/

/-- The escape of a character with this code, as `\u` and four hexadecimal digits. -/
def escape (n : Nat) : Str :=
  let digit (k : Nat) : Char := "0123456789abcdef".toList.getD (n / 16 ^ k % 16) '0'
  ['\\', 'u', digit 3, digit 2, digit 1, digit 0]

/-- A character in a string of `json.dumps`. -/
def jsonChar (c : Char) : Str :=
  if c = '"' ∨ c = '\\' then ['\\', c]
  else if 0x20 ≤ c.toNat ∧ c.toNat ≤ 0x7E then [c]
  else if c = '\n' then ['\\', 'n']
  else if c = '\r' then ['\\', 'r']
  else if c = '\t' then ['\\', 't']
  else if c.toNat = 0x0C then ['\\', 'f']
  else if c.toNat = 0x08 then ['\\', 'b']
  else if c.toNat < 0x10000 then escape c.toNat
  else
    escape (0xD800 + (c.toNat - 0x10000) / 0x400) ++ escape (0xDC00 + (c.toNat - 0x10000) % 0x400)

def jsonStr (s : Str) : Str := '"' :: s.flatMap jsonChar ++ ['"']

/-- The text `json.dumps` makes of the extensions. -/
def jsonExtensions (extensions : List (Str × ExtensionInfo H)) : Str :=
  let entry (e : Str × ExtensionInfo H) : Str :=
    jsonStr e.1 ++ ": \x7b\"version\": ".toList ++ jsonStr e.2.version ++
      ", \"message_id\": ".toList ++ strInt e.2.message_id ++ ['\x7d']
  '\x7b' :: [',', ' '].intercalate (extensions.map entry) ++ ['\x7d']

namespace ExtensionProtocol

/-- `none` where `struct.pack` raises. -/
def encodeExtensionMessage (message_id : Nat) (payload : Bytes) : Option Bytes :=
  if payload.length + 1 < 2 ^ 32 ∧ message_id < 256 then
    some (packI (UInt32.ofNat (payload.length + 1)) ++ [UInt8.ofNat message_id] ++ payload)
  else none

def encodeHandshake (p : ExtensionProtocol H) : Option Bytes :=
  encodeExtensionMessage EXTENDED.toNat (utf8Encode (jsonExtensions p.extensions.entries))

def decodeHandshake {J : Type*} (loads : Bytes → Option J) (data : Bytes) : Option J :=
  if data.length < 5 then none
  else
    let length := (unpackI (data.take 4)).toNat
    if data[4]? ≠ some EXTENDED then none
    else if data.length < 5 + length - 1 then none
    else loads ((data.drop 5).take (length - 1))

end ExtensionProtocol

/-- What the message loop does with an extension message. -/
inductive Handling (J : Type*)
  /-- `set_peer_extensions` -/
  | peer_extensions (extensions : J)
  /-- `handle_ssl_message` -/
  | ssl (data : Bytes)
  /-- `handle_xet_message` -/
  | xet (data : Bytes)

variable {J : Type*} (loads : Bytes → Option J)

def handlePayload (p : ExtensionProtocol H) (payload : Bytes) : List (Handling J) :=
  match payload with
  | _ :: extension_id :: extension_payload =>
    if extension_id = 0 then
      ((ExtensionProtocol.decodeHandshake loads (payload.drop 1)).map .peer_extensions).toList
    else
      let hasId (name : String) : Bool :=
        (p.extensions.get? name.toList).any fun info => info.message_id = extension_id.toNat
      (if hasId "ssl" then [.ssl extension_payload] else []) ++
        (if hasId "xet" then [.xet extension_payload] else [])
  | _ => []

/-- A message in the loop of `_handle_peer_messages`: those without the id 20 go to the decoder. -/
def handleFrame (p : ExtensionProtocol H) (f : Peer.Frame) : List (Handling J) :=
  if f.body.head? = some EXTENDED then handlePayload loads p f.body else []

/-- What the loop does with the extension messages of a stream. -/
def handleStream (p : ExtensionProtocol H) (stream : Bytes) : List (Handling J) :=
  (Peer.Frame.splitter.drain stream).1.flatMap (handleFrame loads p)

/-- What is sent by way of the protocol. -/
inductive Sent
  | handshake
  /-- a request or an answer of the extension `ssl` -/
  | ssl (payload : Bytes)
  /-- a request or an answer of the extension `xet` -/
  | xet (payload : Bytes)
  /-- `send_pex_message`, which sends nothing without an id -/
  | pex (ut_pex_id : UInt8) (is_added : Bool) (peer_data : Bytes)

/-- The octets that are written, if any. -/
def encodeSent (p : ExtensionProtocol H) : Sent → Option Bytes
  | .handshake => p.encodeHandshake
  | .ssl payload =>
    (p.extensions.get? "ssl".toList).bind fun info =>
      ExtensionProtocol.encodeExtensionMessage info.message_id payload
  | .xet payload =>
    (p.extensions.get? "xet".toList).bind fun info =>
      ExtensionProtocol.encodeExtensionMessage info.message_id payload
  | .pex ut_pex_id is_added peer_data =>
    if ut_pex_id = 0 ∨ peer_data.isEmpty then none
    else
      ExtensionProtocol.encodeExtensionMessage EXTENDED.toNat
        (ut_pex_id :: (if is_added then 0 else 1) :: peer_data)

/-- What the other side makes of a message that is sent. -/
def arrives : Sent → List (Handling J)
  | .pex ut_pex_id is_added peer_data =>
    if ut_pex_id = 0 ∨ peer_data.isEmpty ∨ 2 ^ 32 ≤ peer_data.length + 3 then []
    else if ut_pex_id = 1 then [.ssl ((if is_added then 0 else 1) :: peer_data)]
    else if ut_pex_id = 2 then [.xet ((if is_added then 0 else 1) :: peer_data)]
    else []
  | _ => []

def managerProtocol : ExtensionProtocol H :=
  run register {}
    [.register "ssl".toList "1.0".toList none, .register "xet".toList "1.0".toList none]

def managerWith (es : List (Str × Str × Option H)) : ExtensionProtocol H :=
  es.foldl (fun p e => register p (.register e.1 e.2.1 e.2.2)) managerProtocol

/-- `ssl` has the number 1 and `xet` the number 2. -/
structure OfManager (p : ExtensionProtocol H) : Prop where
  ssl : (p.extensions.get? "ssl".toList).map ExtensionInfo.message_id = some 1
  xet : (p.extensions.get? "xet".toList).map ExtensionInfo.message_id = some 2

theorem ofManager_managerProtocol : OfManager (managerProtocol : ExtensionProtocol H) := ⟨rfl, rfl⟩

variable {p : ExtensionProtocol H} {loads}

theorem OfManager.register (h : OfManager p) (name version : Str) (handler : Option H) :
    OfManager (register p (.register name version handler)) := by
  have hkeep : ∀ n : Str, ∀ k, (p.extensions.get? n).map ExtensionInfo.message_id = some k →
      ((Extensions.register p (.register name version handler)).extensions.get? n).map
        ExtensionInfo.message_id = some k := by
    intro n k hn
    rw [register_eq]
    split
    · exact hn
    next hnew =>
    rw [get?_extensions_added, if_neg, hn]
    rintro rfl
    rw [Option.not_isSome_iff_eq_none.mp hnew] at hn
    cases hn
  exact ⟨hkeep _ _ h.ssl, hkeep _ _ h.xet⟩

theorem ofManager_managerWith (es : List (Str × Str × Option H)) : OfManager (managerWith es) :=
  List.foldlRecOn es _ ofManager_managerProtocol fun _ h e _ => h.register e.1 e.2.1 e.2.2

theorem encodeExtensionMessage_eq_some {message_id : Nat} {payload data : Bytes}
    (h : ExtensionProtocol.encodeExtensionMessage message_id payload = some data) :
    ∃ f : Peer.Frame, f.body = UInt8.ofNat message_id :: payload ∧ data = f.encode := by
  rw [ExtensionProtocol.encodeExtensionMessage] at h
  split at h
  · next hlt =>
    refine ⟨⟨UInt8.ofNat message_id :: payload, hlt.1⟩, rfl, ?_⟩
    rw [← Option.some.inj h, List.append_assoc]
    rfl
  · cases h

theorem any_message_id {name : String} {n : Nat} (k : Nat)
    (h : (p.extensions.get? name.toList).map ExtensionInfo.message_id = some n) :
    ((p.extensions.get? name.toList).any fun info => info.message_id = k) = decide (n = k) := by
  obtain ⟨info, hinfo, rfl⟩ := Option.map_eq_some_iff.mp h
  rw [hinfo]
  rfl

/-- A message of the manager's extensions, or none. -/
theorem OfManager.handlePayload (h : OfManager p) {b extension_id : UInt8} {payload : Bytes}
    (hne : extension_id ≠ 0) : handlePayload loads p (b :: extension_id :: payload) =
      if extension_id = 1 then [.ssl payload] else if extension_id = 2 then [.xet payload]
      else [] := by
  have h1 : 1 = extension_id.toNat ↔ extension_id = 1 := by
    rw [← UInt8.toNat_inj]
    exact eq_comm
  have h2 : 2 = extension_id.toNat ↔ extension_id = 2 := by
    rw [← UInt8.toNat_inj]
    exact eq_comm
  rw [Extensions.handlePayload, if_neg hne]
  simp only [any_message_id _ h.ssl, any_message_id _ h.xet, h1, h2, decide_eq_true_eq]
  by_cases hssl : extension_id = 1
  · subst hssl
    rfl
  · rw [if_neg hssl, if_neg hssl, List.nil_append]

/-- The octet of the opening brace. -/
theorem utf8Encode_jsonExtensions (extensions : List (Str × ExtensionInfo H)) :
    ∃ text, utf8Encode (jsonExtensions extensions) = 0x7B :: text := ⟨_, rfl⟩

variable {q : ExtensionProtocol H}

/-- A message that goes out under the number of its extension has the id of another message. -/
theorem handleFrame_numbered {n : Nat} (hn : UInt8.ofNat n ≠ EXTENDED) {payload data : Bytes}
    (h : ExtensionProtocol.encodeExtensionMessage n payload = some data) :
    ∃ f : Peer.Frame, data = f.encode ∧ handleFrame loads q f = [] := by
  obtain ⟨f, hbody, hdata⟩ := encodeExtensionMessage_eq_some h
  refine ⟨f, hdata, ?_⟩
  rw [handleFrame, hbody, List.head?_cons, if_neg]
  exact fun heq => hn (Option.some.inj heq)

variable (loads) in
theorem handleFrame_sent (hp : OfManager p) (hq : OfManager q) {s : Sent} {data : Bytes}
    (h : encodeSent p s = some data) :
    ∃ f : Peer.Frame, data = f.encode ∧ handleFrame loads q f = arrives s := by
  cases s with
  | handshake =>
    obtain ⟨f, hbody, hdata⟩ := encodeExtensionMessage_eq_some h
    obtain ⟨text, htext⟩ := utf8Encode_jsonExtensions p.extensions.entries
    refine ⟨f, hdata, ?_⟩
    rw [handleFrame, hbody, htext, List.head?_cons, if_pos (congrArg some UInt8.ofNat_toNat),
      hq.handlePayload (by decide)]
    rfl
  | ssl payload =>
    obtain ⟨info, hinfo, hencode⟩ := Option.bind_eq_some_iff.mp h
    have hid : info.message_id = 1 := by
      have hssl := hp.ssl
      rw [hinfo] at hssl
      exact Option.some.inj hssl
    exact handleFrame_numbered (by rw [hid]; decide) hencode
  | xet payload =>
    obtain ⟨info, hinfo, hencode⟩ := Option.bind_eq_some_iff.mp h
    have hid : info.message_id = 2 := by
      have hxet := hp.xet
      rw [hinfo] at hxet
      exact Option.some.inj hxet
    exact handleFrame_numbered (by rw [hid]; decide) hencode
  | pex ut_pex_id is_added peer_data =>
    rw [encodeSent] at h
    split at h
    · cases h
    next hsent =>
    rw [not_or] at hsent
    obtain ⟨f, hbody, hdata⟩ := encodeExtensionMessage_eq_some h
    have hlt : peer_data.length + 3 < 2 ^ 32 := by
      have hbody_lt := f.body_lt
      rwa [hbody] at hbody_lt
    have harrives : ¬(ut_pex_id = 0 ∨ peer_data.isEmpty ∨ 2 ^ 32 ≤ peer_data.length + 3) := by
      rintro (hid | hempty | hle)
      · exact hsent.1 hid
      · exact hsent.2 hempty
      · exact absurd hlt (Nat.not_lt.mpr hle)
    refine ⟨f, hdata, ?_⟩
    rw [handleFrame, hbody, List.head?_cons, if_pos (congrArg some UInt8.ofNat_toNat),
      hq.handlePayload hsent.1, arrives, if_neg harrives]

theorem arrives_of_encodeSent {s : Sent} (h : encodeSent p s = none) :
    (arrives s : List (Handling J)) = [] := by
  cases s with
  | pex ut_pex_id is_added peer_data =>
    rw [arrives]
    split
    · rfl
    next hsent =>
    simp only [not_or] at hsent
    rw [encodeSent, if_neg (not_or.mpr ⟨hsent.1, hsent.2.1⟩),
      ExtensionProtocol.encodeExtensionMessage, if_pos] at h
    · cases h
    · exact ⟨Nat.lt_of_not_le hsent.2.2, by decide⟩
  | _ => rfl

theorem handleStream_cons (f : Peer.Frame) (stream : Bytes) :
    handleStream loads q (f.encode ++ stream) =
      handleFrame loads q f ++ handleStream loads q stream := by
  rw [handleStream, Framing.Splitter.drain_of_some (Peer.Frame.splitter_encode f stream),
    List.flatMap_cons]
  rfl

/-- Of two sides whose managers have registered anything, the one handles no handshake, no request
and no answer of the other: these go out under ids that the message loop does not take for extension
messages, or under an extension id that no one has. Messages of the peer exchange arrive, but
those with the id 1 or 2 are handled as messages of `ssl` or `xet`. -/
theorem handleStream_sent (loads : Bytes → Option J) (es es' : List (Str × Str × Option H))
    (sent : List Sent) :
    handleStream loads (managerWith es')
        (sent.flatMap fun s => (encodeSent (managerWith es) s).getD []) =
      sent.flatMap arrives := by
  induction sent with
  | nil => rfl
  | cons s sent ih =>
    rw [List.flatMap_cons, List.flatMap_cons]
    cases h : encodeSent (managerWith es) s with
    | none =>
      rw [Option.getD_none, List.nil_append, ih, arrives_of_encodeSent h, List.nil_append]
    | some data =>
      obtain ⟨f, rfl, hf⟩ :=
        handleFrame_sent loads (ofManager_managerWith es) (ofManager_managerWith es') h
      rw [Option.getD_some, handleStream_cons, hf, ih]

end Wire

end Ccbt.Extensions

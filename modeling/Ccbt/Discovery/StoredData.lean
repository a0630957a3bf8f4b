import Ccbt.Core.Bencode.Canonical
import Ccbt.Core.Bencode.Equality
import Ccbt.Discovery.MutableData
import Ccbt.Discovery.RoutingTable
import Ccbt.Expiry.Board
import Mathlib.Algebra.Order.Ring.Rat
import Mathlib.Data.Rat.Defs

/-!
# Stored data in the DHT

What `discovery/dht_storage.py` makes of an item for a message and back again, and its cache; and the
index entries of `discovery/dht_indexing.py`, which are signed and stored as such items. A field of an
item that comes in a message may be any object. Floats are rational numbers.
-/

namespace Ccbt

open Python Bencode Transition

namespace Discovery

section Items

structure DHTImmutableData where
  data : PyObj
  salt : PyObj := .bytes []
  seq : PyObj := .int 0

structure DHTMutableData where
  data : PyObj
  public_key : PyObj
  seq : PyObj
  signature : PyObj
  salt : PyObj := .bytes []

/-- What is stored under a key. -/
inductive DHTData
  | immutable (d : DHTImmutableData)
  | mutable (d : DHTMutableData)

inductive DHTStorageKeyType
  | immutable
  | mutable
deriving DecidableEq

def truthy : PyObj → Bool
  | .bytes b => !b.isEmpty
  | .str s => !s.isEmpty
  | .int n => n ≠ 0
  | .bool b => b
  | .list items => !items.isEmpty
  | .dict entries => !entries.isEmpty
  | .other _ => true

abbrev ValueDict := List (Key × PyObj)

def field (name : String) (value : PyObj) : Key × PyObj := (.bytes (ascii name), value)

def getField (value_dict : ValueDict) (name : String) : Option PyObj :=
  value_dict.lookup (.bytes (ascii name))

inductive StoredValueError
  | valueError (msg : Str)
  | bencode (e : EncodeError)

def maxStorageValueSize : Nat := 1000

/-- The dictionary of `encode_storage_value`. -/
def DHTData.fields : DHTData → ValueDict
  | .immutable d =>
    [field "v" d.data] ++ (if truthy d.salt then [field "salt" d.salt] else []) ++
      (if truthy d.seq then [field "seq" d.seq] else [])
  | .mutable d =>
    [field "v" d.data, field "k" d.public_key, field "seq" d.seq, field "sig" d.signature] ++
      (if truthy d.salt then [field "salt" d.salt] else [])

def encodeStorageValue (data : DHTData) : Except StoredValueError ValueDict :=
  match encode (.dict data.fields) with
  | .error e => .error (.bencode e)
  | .ok encoded =>
    if encoded.length > maxStorageValueSize then
      .error (.valueError ("Encoded value too large: ".toList ++ strInt encoded.length ++
        " > ".toList ++ strInt maxStorageValueSize))
    else .ok data.fields

/-- A field that has to be there and must not be empty. -/
def requireField (value_dict : ValueDict) (name : String) (msg : String) :
    Except StoredValueError PyObj :=
  match (getField value_dict name).filter truthy with
  | some value => .ok value
  | none => .error (.valueError msg.toList)

def decodeStorageValue (value_dict : ValueDict) : DHTStorageKeyType → Except StoredValueError DHTData
  | .immutable => do
    let data ← requireField value_dict "v" "Missing 'v' field in immutable data"
    return .immutable
      { data
        salt := (getField value_dict "salt").getD (.bytes [])
        seq := (getField value_dict "seq").getD (.int 0) }
  | .mutable => do
    let data ← requireField value_dict "v" "Missing 'v' field in mutable data"
    let public_key ← requireField value_dict "k" "Missing 'k' field in mutable data"
    match getField value_dict "seq" with
    | none => .error (.valueError "Missing 'seq' field in mutable data".toList)
    | some seq =>
      let signature ← requireField value_dict "sig" "Missing 'sig' field in mutable data"
      return .mutable
        { data, public_key, seq, signature
          salt := (getField value_dict "salt").getD (.bytes []) }

/-- The fields are of the types that the dataclasses declare. -/
def DHTData.Declared : DHTData → Prop
  | .immutable d => ∃ data salt seq, d = ⟨.bytes data, .bytes salt, .int seq⟩
  | .mutable d => ∃ data public_key seq signature salt,
      d = ⟨.bytes data, .bytes public_key, .int seq, .bytes signature, .bytes salt⟩

def DHTData.keyType : DHTData → DHTStorageKeyType
  | .immutable _ => .immutable
  | .mutable _ => .mutable

def DHTData.Complete : DHTData → Prop
  | .immutable d => truthy d.data
  | .mutable d => truthy d.data ∧ truthy d.public_key ∧ truthy d.signature

/-- The item comes through a message: its dictionary is written, read and decoded again. -/
def DHTData.ComesThrough (data : DHTData) : Prop :=
  ∃ value encoded read, encodeStorageValue data = .ok value ∧ encode (.dict value) = .ok encoded ∧
    (decode encoded (fuelFor encoded) ⟨0, false⟩).1 = .ok (.dict read) ∧
    decodeStorageValue read data.keyType = .ok data

variable {data : DHTData}

/-- The dictionary with the fields that are left out when they are empty. -/
def DHTData.allFields : DHTData → ValueDict
  | .immutable d => [field "v" d.data, field "salt" d.salt, field "seq" d.seq]
  | .mutable d =>
    [field "v" d.data, field "k" d.public_key, field "seq" d.seq, field "sig" d.signature,
      field "salt" d.salt]

theorem fields_sublist (data : DHTData) : data.fields.Sublist data.allFields := by
  have hleft (p : Bool) (e : Key × PyObj) : (if p then [e] else []).Sublist [e] := by
    cases p
    · exact List.nil_sublist _
    · exact List.Sublist.refl _
  cases data with
  | immutable d => exact ((List.Sublist.refl _).append (hleft _ _)).append (hleft _ _)
  | mutable d => exact (List.Sublist.refl _).append (hleft _ _)

/-- A field of a declared type is written and read as it is. -/
theorem plain_of_mem_allFields (h : data.Declared) {e : Key × PyObj} (he : e ∈ data.allFields) :
    (∃ b, e.1 = .bytes b) ∧ ((∃ b, e.2 = .bytes b) ∨ ∃ n, e.2 = .int n) := by
  cases data with
  | immutable d =>
    obtain ⟨data, salt, seq, rfl⟩ := h
    simp only [DHTData.allFields, List.mem_cons, List.not_mem_nil, or_false] at he
    rcases he with rfl | rfl | rfl <;> exact ⟨⟨_, rfl⟩, by simp [field]⟩
  | mutable d =>
    obtain ⟨data, public_key, seq, signature, salt, rfl⟩ := h
    simp only [DHTData.allFields, List.mem_cons, List.not_mem_nil, or_false] at he
    rcases he with rfl | rfl | rfl | rfl | rfl <;> exact ⟨⟨_, rfl⟩, by simp [field]⟩

theorem stored_fields (h : data.Declared) : Stored data.fields where
  octets e he := (plain_of_mem_allFields h ((fields_sublist data).subset he)).1
  nodup := by
    refine List.Nodup.sublist ((fields_sublist data).map Prod.fst) ?_
    cases data with
    | immutable d =>
      show [Key.bytes (ascii "v"), .bytes (ascii "salt"), .bytes (ascii "seq")].Nodup
      decide
    | mutable d =>
      show [Key.bytes (ascii "v"), .bytes (ascii "k"), .bytes (ascii "seq"), .bytes (ascii "sig"),
        .bytes (ascii "salt")].Nodup
      decide
  values e he := by
    rcases (plain_of_mem_allFields h ((fields_sublist data).subset he)).2 with ⟨b, hb⟩ | ⟨n, hn⟩
    · rw [hb]
      trivial
    · rw [hn]
      trivial

theorem getField_normalDict {es : ValueDict} (h : Stored es) (name : String) :
    getField (normalDict es) name = (getField es name).map normal := h.lookup_normalDict _

/-- What is read back has the same fields. -/
theorem getField_read (h : data.Declared) (name : String) :
    getField (normalDict data.fields) name = getField data.fields name := by
  rw [getField_normalDict (stored_fields h)]
  cases hfound : getField data.fields name with
  | none => rfl
  | some v =>
    have hmem := (lookup_eq_some_iff (stored_fields h).nodup).mp hfound
    rcases (plain_of_mem_allFields h ((fields_sublist data).subset hmem)).2 with ⟨b, hb⟩ | ⟨n, hn⟩
    · rw [show v = .bytes b from hb]
      rfl
    · rw [show v = .int n from hn]
      rfl

theorem decodeStorageValue_congr {value_dict value_dict' : ValueDict}
    (h : ∀ name, getField value_dict name = getField value_dict' name) (key_type : DHTStorageKeyType) :
    decodeStorageValue value_dict key_type = decodeStorageValue value_dict' key_type := by
  cases key_type <;> simp only [decodeStorageValue, requireField, h]

theorem getField_immutable (d : DHTImmutableData) :
    getField (DHTData.immutable d).fields "v" = some d.data ∧
      getField (DHTData.immutable d).fields "salt" = (if truthy d.salt then some d.salt else none) ∧
      getField (DHTData.immutable d).fields "seq" = if truthy d.seq then some d.seq else none := by
  by_cases hsalt : truthy d.salt = true <;> by_cases hseq : truthy d.seq = true <;>
    simp only [DHTData.fields, hsalt, hseq] <;> exact ⟨rfl, rfl, rfl⟩

theorem getField_mutable (d : DHTMutableData) :
    getField (DHTData.mutable d).fields "v" = some d.data ∧
      getField (DHTData.mutable d).fields "k" = some d.public_key ∧
      getField (DHTData.mutable d).fields "seq" = some d.seq ∧
      getField (DHTData.mutable d).fields "sig" = some d.signature ∧
      getField (DHTData.mutable d).fields "salt" = if truthy d.salt then some d.salt else none := by
  by_cases hsalt : truthy d.salt = true <;> simp only [DHTData.fields, hsalt] <;>
    exact ⟨rfl, rfl, rfl, rfl, rfl⟩

/-- A field that is left out when it is empty, and is then read as the empty value. -/
theorem getD_salt (salt : Bytes) :
    (if truthy (.bytes salt) then some (PyObj.bytes salt) else none).getD (.bytes []) = .bytes salt := by
  cases salt <;> rfl

theorem getD_seq (seq : Int) :
    (if truthy (.int seq) then some (PyObj.int seq) else none).getD (.int 0) = .int seq := by
  by_cases h : seq = 0
  · subst h
    rfl
  · rw [if_pos (by simpa [truthy] using h)]
    rfl

theorem requireField_of_truthy {value_dict : ValueDict} {name : String} {value : PyObj}
    (h : getField value_dict name = some value) (htruthy : truthy value) (msg : String) :
    requireField value_dict name msg = .ok value := by
  rw [requireField, h, Option.filter_some, if_pos htruthy]

theorem requireField_of_not_truthy {value_dict : ValueDict} {name : String} {value : PyObj}
    (h : getField value_dict name = some value) (htruthy : ¬truthy value) (msg : String) :
    requireField value_dict name msg = .error (.valueError msg.toList) := by
  rw [requireField, h, Option.filter_some, if_neg htruthy]

/-- The dictionary of an item is decoded to the item exactly when it is complete. -/
theorem decodeStorageValue_fields (h : data.Declared) :
    decodeStorageValue data.fields data.keyType = .ok data ↔ data.Complete := by
  cases data with
  | immutable d =>
    obtain ⟨data, salt, seq, rfl⟩ := h
    obtain ⟨hv, hsalt, hseq⟩ := getField_immutable ⟨.bytes data, .bytes salt, .int seq⟩
    rw [DHTData.keyType, decodeStorageValue, DHTData.Complete, hsalt, hseq, getD_salt, getD_seq]
    by_cases hdata : truthy (.bytes data)
    · rw [requireField_of_truthy hv hdata]
      exact iff_of_true rfl hdata
    · rw [requireField_of_not_truthy hv hdata]
      exact iff_of_false nofun hdata
  | mutable d =>
    obtain ⟨data, public_key, seq, signature, salt, rfl⟩ := h
    obtain ⟨hv, hk, hseq, hsig, hsalt⟩ :=
      getField_mutable ⟨.bytes data, .bytes public_key, .int seq, .bytes signature, .bytes salt⟩
    rw [DHTData.keyType, decodeStorageValue, DHTData.Complete, hsalt, hseq, getD_salt]
    by_cases hdata : truthy (.bytes data)
    · rw [requireField_of_truthy hv hdata]
      by_cases hkey : truthy (.bytes public_key)
      · rw [requireField_of_truthy hk hkey]
        by_cases hsignature : truthy (.bytes signature)
        · rw [requireField_of_truthy hsig hsignature]
          exact iff_of_true rfl ⟨hdata, hkey, hsignature⟩
        · rw [requireField_of_not_truthy hsig hsignature]
          exact iff_of_false nofun fun h => hsignature h.2.2
      · rw [requireField_of_not_truthy hk hkey]
        exact iff_of_false nofun fun h => hkey h.2.1
    · rw [requireField_of_not_truthy hv hdata]
      exact iff_of_false nofun fun h => hdata h.1

theorem encodeStorageValue_eq_ok_iff {value : ValueDict} :
    encodeStorageValue data = .ok value ↔ value = data.fields ∧
      ∃ encoded, encode (.dict data.fields) = .ok encoded ∧ encoded.length ≤ maxStorageValueSize := by
  unfold encodeStorageValue
  cases encode (.dict data.fields) with
  | error e => simp
  | ok encoded =>
    by_cases hlarge : encoded.length > maxStorageValueSize
    · simp [hlarge]
    · simp [hlarge, eq_comm, not_lt.mp hlarge]

/-- An item of the declared types comes through a message as it is, with the salt and the number
that are left out restored, exactly when nothing that has to be there is empty and the dictionary
takes no more than 1000 octets. -/
theorem comesThrough_iff (data : DHTData) (h : data.Declared) :
    data.ComesThrough ↔ data.Complete ∧ ∃ encoded, encode (.dict data.fields) = .ok encoded ∧
      encoded.length ≤ maxStorageValueSize := by
  have hstored := stored_fields h
  constructor
  · rintro ⟨value, encoded, read, hvalue, hencoded, hread, hdecoded⟩
    obtain ⟨rfl, hfits⟩ := encodeStorageValue_eq_ok_iff.mp hvalue
    cases (hstored.decode_written hencoded).symm.trans hread
    rw [decodeStorageValue_congr (getField_read h), decodeStorageValue_fields h] at hdecoded
    exact ⟨hdecoded, hfits⟩
  · rintro ⟨hcomplete, encoded, hencoded, hfits⟩
    refine ⟨data.fields, encoded, _, encodeStorageValue_eq_ok_iff.mpr ⟨rfl, encoded, hencoded, hfits⟩,
      hencoded, hstored.decode_written hencoded, ?_⟩
    rw [decodeStorageValue_congr (getField_read h)]
    exact (decodeStorageValue_fields h).mpr hcomplete

/-- A value of two octets under a salt. -/
def saltedItem : DHTData := .immutable ⟨.bytes [1, 2], .bytes [7], .int 0⟩

theorem comesThrough_saltedItem : saltedItem.Declared ∧ saltedItem.ComesThrough :=
  have hdeclared : saltedItem.Declared := ⟨[1, 2], [7], 0, rfl⟩
  ⟨hdeclared, (comesThrough_iff saltedItem hdeclared).mpr ⟨rfl, _, rfl, by decide⟩⟩

end Items

section Cache

open Expiry

structure DHTStorageCacheEntry where
  key : Bytes
  value : DHTData
  stored_at : Time
  expires_at : Time

structure DHTStorageCache where
  cache : Dict Bytes DHTStorageCacheEntry := .empty
  default_ttl : Int := 3600

namespace DHTStorageCache

variable (c : DHTStorageCache)

def get (key : Bytes) (now : Time) : DHTStorageCache × Option DHTData :=
  match c.cache.get? key with
  | none => (c, none)
  | some entry =>
    if now > entry.expires_at then ({ c with cache := c.cache.erase key }, none)
    else (c, some entry.value)

/-- The clock is read twice: for `stored_at`, and then for `expires_at`. -/
def put (key : Bytes) (value : DHTData) (ttl : Option Int) (stored_at now : Time) : DHTStorageCache :=
  let entry := { key, value, stored_at, expires_at := now + ttl.getD c.default_ttl }
  { c with cache := c.cache.set key entry }

def remove (key : Bytes) : DHTStorageCache := { c with cache := c.cache.erase key }

def cleanupExpired (current_time : Time) : DHTStorageCache × Nat :=
  let expired_keys := pastKeys DHTStorageCacheEntry.expires_at c.cache current_time
  ({ c with cache := expired_keys.foldl Dict.erase c.cache }, expired_keys.length)

def clear : DHTStorageCache := { c with cache := .empty }

def size : Nat := c.cache.size

end DHTStorageCache

inductive CacheCall
  | get (key : Bytes)
  | put (key : Bytes) (value : DHTData) (ttl : Option Int) (stored_at : Time)
  | remove (key : Bytes)
  | cleanup_expired
  | clear

/-- What a call returns. -/
inductive CacheReply
  | value (v : Option DHTData)
  | removed (n : Nat)
  | nothing

/-- The cache beside a table of everything that has been put, from which nothing goes unless it is
removed. -/
structure CacheSystem where
  cache : DHTStorageCache := {}
  kept : Dict Bytes DHTStorageCacheEntry := .empty

namespace CacheSystem

variable (s : CacheSystem)

/-- The cache after a call at a time, and what the call returns. -/
def reply : Time × CacheCall → DHTStorageCache × CacheReply
  | (now, .get key) => ((s.cache.get key now).1, .value (s.cache.get key now).2)
  | (now, .put key value ttl stored_at) => (s.cache.put key value ttl stored_at now, .nothing)
  | (_, .remove key) => (s.cache.remove key, .nothing)
  | (now, .cleanup_expired) =>
    ((s.cache.cleanupExpired now).1, .removed (s.cache.cleanupExpired now).2)
  | (_, .clear) => (s.cache.clear, .nothing)

def keep : Time × CacheCall → Dict Bytes DHTStorageCacheEntry
  | (now, .put key value ttl stored_at) => s.kept.set key
    { key, value, stored_at, expires_at := now + ttl.getD s.cache.default_ttl }
  | (_, .remove key) => s.kept.erase key
  | (_, .clear) => .empty
  | _ => s.kept

def step (e : Time × CacheCall) : CacheSystem := { cache := (s.reply e).1, kept := s.keep e }

/-- What `get` returns is what was put last under the key, if it has not been removed since and has
not expired; behind `cleanup_expired` the cache has no more than that, and less by the number that is
returned. -/
def Serves : Time × CacheCall → Prop
  | (now, .get key) => (s.reply (now, .get key)).2 =
      .value ((current DHTStorageCacheEntry.expires_at s.kept key now).map (·.value))
  | (now, .cleanup_expired) =>
      (∀ key, (s.step (now, .cleanup_expired)).cache.cache.get? key =
        current DHTStorageCacheEntry.expires_at s.kept key now) ∧
      (s.reply (now, .cleanup_expired)).2 =
        .removed (s.cache.size - (s.step (now, .cleanup_expired)).cache.size)
  | _ => True

/-- From a time on the cache cannot be told from the table. -/
def Matches (clock : Time) (s : CacheSystem) : Prop :=
  AgreeFrom DHTStorageCacheEntry.expires_at clock s.cache.cache s.kept

variable {s : CacheSystem} {clock now : Time} {key : Bytes}

theorem get_value (c : DHTStorageCache) (key : Bytes) (now : Time) :
    (c.get key now).2 = (current DHTStorageCacheEntry.expires_at c.cache key now).map (·.value) := by
  rw [DHTStorageCache.get, current]
  cases hfound : c.cache.get? key with
  | none => rfl
  | some entry =>
    by_cases hpast : now > entry.expires_at
    · rw [Option.filter_some, if_neg (by simpa using hpast)]
      simp only [hpast, if_true]
      rfl
    · rw [Option.filter_some, if_pos (by simpa using hpast)]
      simp only [hpast, if_false]
      rfl

theorem Matches.get (h : s.Matches clock) (hclock : clock ≤ now) (key : Bytes) :
    (s.step (now, .get key)).Matches now := by
  have hlater := h.later hclock
  show AgreeFrom _ now (s.cache.get key now).1.cache s.kept
  unfold DHTStorageCache.get
  cases hfound : s.cache.cache.get? key with
  | none => exact hlater
  | some entry =>
    by_cases hpast : now > entry.expires_at
    · simp only [hpast, if_true]
      refine hlater.erase_past ?_
      rw [current, hfound, Option.filter_some, if_neg (by simpa using hpast)]
    · simp only [hpast, if_false]
      exact hlater

theorem matches_step (h : s.Matches clock) {e : Time × CacheCall} (hclock : clock ≤ e.1) :
    (s.step e).Matches e.1 := by
  obtain ⟨now, call⟩ := e
  have hlater := AgreeFrom.later h hclock
  cases call with
  | get key => exact h.get hclock key
  | put key value ttl stored_at => exact hlater.set key _
  | remove key => exact hlater.erase key
  | cleanup_expired => exact hlater.dropPast
  | clear => exact .refl now _

theorem serves_of_matches (h : s.Matches clock) {e : Time × CacheCall} (hclock : clock ≤ e.1) :
    s.Serves e := by
  obtain ⟨now, call⟩ := e
  have hlater := AgreeFrom.later h hclock
  cases call with
  | get key =>
    show CacheReply.value _ = _
    rw [get_value, hlater key now le_rfl]
  | put key value ttl stored_at => trivial
  | remove key => trivial
  | cleanup_expired =>
    refine ⟨fun key => ?_, ?_⟩
    · rw [← hlater key now le_rfl]
      exact get?_dropPast _ _ _ _
    · show CacheReply.removed _ = .removed (s.cache.size - (dropPast _ s.cache.cache now).size)
      have hsize := size_dropPast DHTStorageCacheEntry.expires_at s.cache.cache now
      rw [DHTStorageCache.size, ← hsize, Nat.add_sub_cancel_left]
      rfl
  | clear => trivial

/-- With a clock that does not go back, the cache serves, in every call of a run, what was put last and
has neither been removed nor expired, however often it has dropped what it need not keep. -/
theorem cache_serves (default_ttl : Int) (events : List (Time × CacheCall))
    (horder : events.Pairwise fun e e' => e.1 ≤ e'.1) :
    StepsMeet step Serves { cache := { default_ttl } } events := by
  have hstart (clock : Time) : Matches clock { cache := { default_ttl } } := AgreeFrom.refl clock _
  have hstep (clock : Time) (s : CacheSystem) (e : Time × CacheCall) (h : s.Matches clock)
      (hclock : clock ≤ e.1) : (s.step e).Matches e.1 := matches_step h hclock
  exact (clocked_from_start hstep (fun _ _ _ h hclock => serves_of_matches h hclock) hstart
    horder).2

/-- Something expires and is put again. -/
def renewal : List (Time × CacheCall) :=
  [(0, .put [1] saltedItem (some 5) 0), (6, .get [1]), (7, .put [1] saltedItem none 7),
    (8, .cleanup_expired), (9, .get [1])]

theorem cache_serves_renewal : (renewal.Pairwise fun e e' => e.1 ≤ e'.1) ∧
    StepsMeet step Serves { cache := { default_ttl := 60 } } renewal :=
  have horder : renewal.Pairwise fun e e' => e.1 ≤ e'.1 := by
    simp [renewal]
    norm_num
  ⟨horder, cache_serves 60 renewal horder⟩

end CacheSystem

end Cache

section Index

structure DHTInfohashSample where
  info_hash : PyObj
  name : Str
  size : PyObj
  created_time : Time

structure DHTIndexEntry where
  samples : List DHTInfohashSample
  updated_time : Time

inductive IndexError
  | valueError (msg : String)
  | typeError
  | attributeError
  | bencode (e : EncodeError)
  | storage (e : StorageError)
  /-- what keeps the bencode decoder from returning -/
  | decode (e : Stop)
  /-- the `float` of an object that is no number -/
  | float

/-- `int(x)`, which cuts off what is behind the point. -/
def cutOff (x : Time) : Int := x.num.tdiv x.den

def DHTInfohashSample.fields (sample : DHTInfohashSample) : ValueDict :=
  [field "h" sample.info_hash, field "n" (.bytes (utf8Encode sample.name)), field "s" sample.size,
    field "t" (.int (cutOff sample.created_time))]

def DHTIndexEntry.fields (entry : DHTIndexEntry) : ValueDict :=
  [field "samples" (.list (entry.samples.map fun sample => .dict sample.fields)),
    field "updated" (.int (cutOff entry.updated_time))]

def encodeIndexEntry (lib : Option Cryptography) (entry : DHTIndexEntry)
    (public_key private_key : Bytes) (seq : Int) (salt : Bytes) : Except IndexError DHTMutableData := do
  let data_bytes ← (encode (.dict entry.fields)).mapError .bencode
  let signature ← (signMutableData lib data_bytes public_key private_key seq salt).mapError .storage
  return ⟨.bytes data_bytes, .bytes public_key, .int seq, .bytes signature, .bytes salt⟩

/-- `verify_mutable_data_signature` for the fields of an item: a key or a signature that is no byte
string raises where it is used, and that is caught. -/
def verifyItem (lib : Option Cryptography) (m : DHTMutableData) : Except IndexError Bool :=
  match lib with
  | none => .ok false
  | some _ =>
    match m.salt, m.seq, m.data with
    | .bytes salt, .int seq, .bytes data =>
      match m.public_key, m.signature with
      | .bytes public_key, .bytes signature =>
        (verifyMutableDataSignature lib data public_key signature seq salt).mapError .storage
      | _, _ => ((signedMessage data seq salt).map fun _ => false).mapError .storage
    | _, _, _ => .error .typeError

def pyLen : PyObj → Option Nat
  | .bytes b => some b.length
  | .str s => some s.length
  | .list items => some items.length
  | .dict entries => some entries.length
  | _ => none

section Decoding

variable (float_bytes : Bytes → Option Time) (now : Time)

def toFloat : PyObj → Option Time
  | .int n => some n
  | .bytes b => float_bytes b
  | _ => none

/-- The `name` of a sample; octets that are no text raise. -/
def sampleName : PyObj → Option Str
  | .bytes b => utf8Decode b
  | obj => some obj.toStr

def decodeSample : PyObj → Except IndexError (Option DHTInfohashSample)
  | .dict sample_data =>
    match (getField sample_data "h").filter truthy with
    | none => .ok none
    | some info_hash =>
      match pyLen info_hash with
      | none => .error .typeError
      | some n =>
        if n = 20 then
          .ok <| do
            let name ← sampleName ((getField sample_data "n").getD (.bytes []))
            let created_time ← match getField sample_data "t" with
              | none => some now
              | some t => toFloat float_bytes t
            return { info_hash, name, size := (getField sample_data "s").getD (.int 0), created_time }
        else .ok none
  | _ => .ok none

def decodeSamples : List PyObj → Except IndexError (List DHTInfohashSample)
  | [] => .ok []
  | sample_data :: samples_list => do
    let sample ← decodeSample float_bytes now sample_data
    let samples ← decodeSamples samples_list
    return sample.toList ++ samples

/-- The objects that a loop goes over; the items of octets and of a dictionary are no dictionaries. -/
def iterated : PyObj → Except IndexError (List PyObj)
  | .list items => .ok items
  | .bytes _ => .ok []
  | .str _ => .ok []
  | .dict _ => .ok []
  | _ => .error .typeError

def decodeIndexEntry (lib : Option Cryptography) (m : DHTMutableData) :
    Except IndexError DHTIndexEntry := do
  if ← verifyItem lib m then
    match m.data with
    | .bytes data =>
      match (decode data (fuelFor data) ⟨0, false⟩).1 with
      | .error e => .error (.decode e)
      | .ok (.dict entry_data) =>
        let samples_list ← iterated ((getField entry_data "samples").getD (.list []))
        let samples ← decodeSamples float_bytes now samples_list
        match getField entry_data "updated" with
        | none => return { samples, updated_time := now }
        | some updated =>
          match toFloat float_bytes updated with
          | none => .error .float
          | some updated_time => return { samples, updated_time }
      | .ok _ => .error .attributeError
    | _ => .error .typeError
  else .error (.valueError "Invalid signature in index entry")

end Decoding

/-- A sample with fields of the declared types. -/
structure DeclaredSample where
  info_hash : Bytes
  name : Str
  size : Int
  created_time : Time

def DeclaredSample.sample (s : DeclaredSample) : DHTInfohashSample :=
  ⟨.bytes s.info_hash, s.name, .int s.size, s.created_time⟩

def DeclaredSample.whole (s : DeclaredSample) : DeclaredSample :=
  { s with created_time := cutOff s.created_time }

section RoundTrip

variable {float_bytes : Bytes → Option Time} {now : Time}

theorem stored_sample (s : DeclaredSample) : Stored s.sample.fields where
  octets e he := by
    simp only [DHTInfohashSample.fields, List.mem_cons, List.not_mem_nil, or_false] at he
    rcases he with rfl | rfl | rfl | rfl <;> exact ⟨_, rfl⟩
  nodup := by
    show [Key.bytes (ascii "h"), .bytes (ascii "n"), .bytes (ascii "s"), .bytes (ascii "t")].Nodup
    decide
  values e he := by
    simp only [DHTInfohashSample.fields, List.mem_cons, List.not_mem_nil, or_false] at he
    rcases he with rfl | rfl | rfl | rfl <;> trivial

theorem stored_entry (samples : List DeclaredSample) (updated_time : Time) :
    Stored (DHTIndexEntry.fields ⟨samples.map (·.sample), updated_time⟩) where
  octets e he := by
    simp only [DHTIndexEntry.fields, List.mem_cons, List.not_mem_nil, or_false] at he
    rcases he with rfl | rfl <;> exact ⟨_, rfl⟩
  nodup := by
    show [Key.bytes (ascii "samples"), .bytes (ascii "updated")].Nodup
    decide
  values e he := by
    simp only [DHTIndexEntry.fields, List.mem_cons, List.not_mem_nil, or_false] at he
    rcases he with rfl | rfl
    · show BencodableItems _
      rw [bencodableItems_iff]
      simp only [List.map_map, List.forall_mem_map]
      exact fun s _ => (stored_sample s).bencodable
    · trivial

theorem normalItems_eq_map (xs : List PyObj) : normalItems xs = xs.map normal := by
  induction xs with
  | nil => rfl
  | cons x xs ih => rw [normalItems, ih, List.map_cons]

/-- A sample as it is read back; one whose hash is not of 20 octets is passed over. -/
theorem decodeSample_read (s : DeclaredSample) :
    decodeSample float_bytes now (.dict (normalDict s.sample.fields)) =
      .ok (if s.info_hash.length = 20 then some s.whole.sample else none) := by
  have hread := getField_normalDict (stored_sample s)
  have hh : getField (normalDict s.sample.fields) "h" = some (.bytes s.info_hash) := hread "h"
  have hn : getField (normalDict s.sample.fields) "n" = some (.bytes (utf8Encode s.name)) := hread "n"
  have hs : getField (normalDict s.sample.fields) "s" = some (.int s.size) := hread "s"
  have ht : getField (normalDict s.sample.fields) "t" = some (.int (cutOff s.created_time)) := hread "t"
  rw [decodeSample, hh, Option.filter_some]
  by_cases hempty : truthy (.bytes s.info_hash)
  · rw [if_pos hempty]
    show (if s.info_hash.length = 20 then _ else _) = _
    split
    · rw [hn, hs, ht]
      simp [sampleName, toFloat, utf8Decode_utf8Encode, DeclaredSample.sample, DeclaredSample.whole]
    · rfl
  · rw [if_neg hempty]
    have hlength : s.info_hash.length ≠ 20 := by
      rintro h20
      cases hhash : s.info_hash with
      | nil => simp [hhash] at h20
      | cons b rest => simp [hhash, truthy] at hempty
    rw [if_neg hlength]

theorem decodeSamples_read (samples : List DeclaredSample) :
    decodeSamples float_bytes now (samples.map fun s => .dict (normalDict s.sample.fields)) =
      .ok ((samples.filter fun s => s.info_hash.length = 20).map (·.whole.sample)) := by
  induction samples with
  | nil => rfl
  | cons s samples ih =>
    rw [List.map_cons, decodeSamples, decodeSample_read, ih, List.filter_cons]
    by_cases h20 : s.info_hash.length = 20
    · simp only [h20, if_true, decide_true]
      rfl
    · simp only [h20, if_false, decide_false]
      rfl

variable {lib : Cryptography} {public_key private_key : Bytes}

/-- Of the signed items with one salt and one number only the published one is verified. -/
theorem verifyItem_signed (hed25519 : lib.ed25519.Unforgeable) (hrsa : lib.rsa.Unforgeable)
    (hpair : lib.IsKeyPair public_key private_key) (t : SignedFields) :
    ∃ signature, signMutableData (some lib) t.data public_key private_key t.seq t.salt = .ok signature ∧
      ∀ data, verifyItem (some lib)
        ⟨.bytes data, .bytes public_key, .int t.seq, .bytes signature, .bytes t.salt⟩ =
          .ok (decide (data = t.data)) := by
  obtain ⟨S, hS, key, hscheme⟩ := scheme_of_isKeyPair hpair
  have hunforgeable : S.Unforgeable := by
    rcases hS with rfl | rfl
    · exact hed25519
    · exact hrsa
  refine ⟨_, (hscheme t).1, fun data => ?_⟩
  let t' : SignedFields := { t with data }
  have hverify : verifyItem (some lib) ⟨.bytes data, .bytes public_key, .int t.seq,
      .bytes (S.sign key t.message), .bytes t.salt⟩ =
        .ok (S.verify (S.public_key key) (S.sign key t.message) t'.message) := by
    show (verifyMutableDataSignature (some lib) t'.data public_key _ t'.seq t'.salt).mapError
      IndexError.storage = _
    rw [(hscheme t').2]
    rfl
  rw [hverify]
  by_cases hdata : data = t.data
  · subst hdata
    rw [S.verify_sign key t.message, decide_eq_true rfl]
  · rw [decide_eq_false hdata]
    refine congrArg _ (Bool.eq_false_iff.mpr fun hv => hdata ?_)
    have hmessage : t'.message = t.message := hunforgeable _ _ _ hv
    have hsame : t' = t := SignedFields.message_inj rfl hmessage
    exact congrArg SignedFields.data hsame

/-- What is published as an index entry is an item of the declared types. It is decoded to the
samples whose hashes have 20 octets, in their order, with whole seconds for times; and with any other
data under the same signature it is refused. -/
theorem index_entry_comes_back (hed25519 : lib.ed25519.Unforgeable) (hrsa : lib.rsa.Unforgeable)
    (hpair : lib.IsKeyPair public_key private_key) (samples : List DeclaredSample)
    (updated_time : Time) (seq : Int) (hseq : 0 ≤ seq ∧ seq < 2 ^ 64) (salt : Bytes)
    (float_bytes : Bytes → Option Time) (now : Time) :
    ∃ m, encodeIndexEntry (some lib) ⟨samples.map (·.sample), updated_time⟩ public_key private_key seq
        salt = .ok m ∧ (DHTData.mutable m).Declared ∧
      decodeIndexEntry float_bytes now (some lib) m = .ok
        ⟨(samples.filter fun s => s.info_hash.length = 20).map (·.whole.sample), cutOff updated_time⟩ ∧
      ∀ data, .bytes data ≠ m.data → decodeIndexEntry float_bytes now (some lib)
        { m with data := .bytes data } = .error (.valueError "Invalid signature in index entry") := by
  have hstored := stored_entry samples updated_time
  obtain ⟨data_bytes, hwritten⟩ := written hstored.bencodable
  have hencoded := hwritten.encoded
  let t : SignedFields := ⟨salt, seq, data_bytes, hseq.1, hseq.2⟩
  obtain ⟨signature, hsigned, hverified⟩ := verifyItem_signed hed25519 hrsa hpair t
  refine ⟨⟨.bytes data_bytes, .bytes public_key, .int seq, .bytes signature, .bytes salt⟩, ?_,
    ⟨_, _, _, _, _, rfl⟩, ?_, fun data hdata => ?_⟩
  · rw [encodeIndexEntry, hencoded]
    show (do
      let signature ← (signMutableData (some lib) data_bytes public_key private_key seq salt).mapError
        IndexError.storage
      return _) = _
    rw [hsigned]
    rfl
  · have hread := getField_normalDict hstored
    have hsamples : getField (normalDict _) "samples" = some (normal (.list _)) := hread "samples"
    have hupdated : getField (normalDict _) "updated" = some (.int (cutOff updated_time)) :=
      hread "updated"
    rw [decodeIndexEntry, hverified data_bytes, decide_eq_true rfl]
    simp only [bind, Except.bind, if_true, hstored.decode_written hencoded, hsamples, hupdated,
      Option.getD_some, normal, iterated, normalItems_eq_map, List.map_map]
    have hnormal : (normal ∘ (fun sample : DHTInfohashSample => .dict sample.fields) ∘
        fun s : DeclaredSample => s.sample) = fun s => .dict (normalDict s.sample.fields) := by
      funext s
      exact normal_dict _
    rw [hnormal, decodeSamples_read]
    rfl
  · have hne : data ≠ t.data := fun h => hdata (congrArg PyObj.bytes h)
    rw [decodeIndexEntry, hverified data, decide_eq_false hne]
    rfl

def sampleEntry : List DeclaredSample :=
  [⟨[1], ['a'], 5, 3 / 2⟩, ⟨List.replicate 20 7, ['b'], 6, 5 / 2⟩]

theorem sampleEntry_comes_back :
    plainLibrary.ed25519.Unforgeable ∧ plainLibrary.rsa.Unforgeable ∧
      plainLibrary.IsKeyPair sampleKey sampleKey ∧ (0 ≤ (7 : Int) ∧ (7 : Int) < 2 ^ 64) ∧
    ∃ m, encodeIndexEntry (some plainLibrary) ⟨sampleEntry.map (·.sample), 9⟩ sampleKey sampleKey 7 [] =
        .ok m ∧ (DHTData.mutable m).Declared ∧
      decodeIndexEntry (fun _ => none) 0 (some plainLibrary) m = .ok
        ⟨(sampleEntry.filter fun s => s.info_hash.length = 20).map (·.whole.sample), cutOff 9⟩ ∧
      ∀ data, .bytes data ≠ m.data → decodeIndexEntry (fun _ => none) 0 (some plainLibrary)
        { m with data := .bytes data } = .error (.valueError "Invalid signature in index entry") :=
  ⟨plainScheme_unforgeable, plainScheme_unforgeable, isKeyPair_sampleKey, by decide,
    index_entry_comes_back plainScheme_unforgeable plainScheme_unforgeable isKeyPair_sampleKey
      sampleEntry 9 7 (by decide) [] (fun _ => none) 0⟩

end RoundTrip

end Index

end Discovery

end Ccbt

import Ccbt.Core.Bencode.Canonical
import Ccbt.Core.Torrent

/-!
# The info hash of a parsed torrent

The parser hashes a new encoding of the decoded info dictionary. `infoSpan` is
where the decoder has read that dictionary; the hash is the hash of those octets
if they are canonical, and otherwise only by a collision.
-/

namespace Ccbt

open Python Bencode

namespace Bencode

variable {α β : Type}

theorem DecodeM.bind_eq_ok {m : DecodeM α} {f : α → DecodeM β} {c c' : Cursor} {b : β}
    (h : (m >>= f) c = (.ok b, c')) : ∃ a c₁, m c = (.ok a, c₁) ∧ f a c₁ = (.ok b, c') := by
  rw [bind_apply, DecodeM.bind] at h
  revert h
  rcases m c with ⟨x | a, c₁⟩
  · intro h
    cases h
  · exact fun h => ⟨a, c₁, rfl, h⟩

theorem tracked_eq_ok {m : DecodeM α} {c c' : Cursor} {a : α}
    (h : tracked m c = (.ok a, c')) : ∃ c₁, m c = (.ok a, c₁) ∧ c'.pos = c₁.pos := by
  unfold tracked at h
  revert h
  rcases m c with ⟨x | b, c₁⟩
  · intro h
    cases h
  · intro h
    cases h
    exact ⟨c₁, rfl, rfl⟩

/-- A run that returns has not taken a branch that raises. -/
theorem ite_raise_eq_ok {p : Prop} [Decidable p] {e : DecodeError} {m : Unit → DecodeM α}
    {c c' : Cursor} {a : α} (h : (if p then raise e >>= m else m ()) c = (.ok a, c')) :
    m () c = (.ok a, c') := by
  split at h
  · cases h
  · exact h

end Bencode

namespace Torrent

/-- A key of a dictionary with the positions between which its value is read. -/
structure Span where
  key : Bytes
  start : Int
  stop : Int

/-- The loop of `_decode_dict` with the positions of the values for its result. -/
def entrySpans (data : Bytes) : Nat → DecodeM (List Span)
  | 0 => outOfFuel
  | n + 1 => do
    if ← moreItems data then
      let key ← decodeString data
      let start ← getPos
      let _ ← decode data n
      let stop ← getPos
      let rest ← entrySpans data n
      return ⟨key, start, stop⟩ :: rest
    else
      return []

/-- The value that a dictionary keeps for a key is the last one. -/
def lastSpan (key : Bytes) (spans : List Span) : Option Span :=
  spans.reverse.find? (fun e => e.key = key)

/-- Where the value of `info` is read by `decode` with fuel `n`. -/
def infoSpan (torrentData : Bytes) : Nat → Option Span
  | n + 2 =>
    match (entrySpans torrentData n ⟨1, false⟩).1 with
    | .ok spans => lastSpan (ascii "info") spans
    | .error _ => none
  | _ => none

theorem lastSpan_cons (key : Bytes) (e : Span) (spans : List Span) :
    lastSpan key (e :: spans) =
      (lastSpan key spans).or (if e.key = key then some e else none) := by
  rw [lastSpan, List.reverse_cons, List.find?_append, lastSpan]
  by_cases h : e.key = key <;> simp [h]

/-- A value that the loop has stored was read at the last span of its key, or was
there before. -/
theorem decodeEntries_spans {data : Bytes} {n : Nat} {acc d : PyDict} {c c' : Cursor}
    (h : decodeEntries data n acc c = (.ok d, c')) :
    ∃ spans, entrySpans data n c = (.ok spans, c') ∧
      ∀ key w, d.lookup (.bytes key) = some w →
        (∃ e k m m', lastSpan key spans = some e ∧
          decode data k ⟨e.start, m⟩ = (.ok w, ⟨e.stop, m'⟩)) ∨
        (lastSpan key spans = none ∧ acc.lookup (.bytes key) = some w) := by
  induction n generalizing acc c with
  | zero => cases h
  | succ n ih =>
    rw [decodeEntries] at h
    obtain ⟨more, c₁, hmore, h⟩ := DecodeM.bind_eq_ok h
    cases more with
    | false =>
      cases h
      refine ⟨[], ?_, fun key w hw => Or.inr ⟨rfl, hw⟩⟩
      rw [entrySpans, bind_ok hmore]
      rfl
    | true =>
      obtain ⟨key, c₂, hkey, h⟩ := DecodeM.bind_eq_ok h
      obtain ⟨v, c₃, hv, h⟩ := DecodeM.bind_eq_ok h
      obtain ⟨spans, hspans, hlast⟩ := ih h
      refine ⟨⟨key, c₂.pos, c₃.pos⟩ :: spans, ?_, ?_⟩
      · rw [entrySpans, bind_ok hmore, if_pos rfl, bind_ok hkey, getPos_bind, bind_ok hv,
          getPos_bind, bind_ok hspans]
        rfl
      · intro key' w hw
        rw [lastSpan_cons]
        rcases hlast key' w hw with ⟨e, k, m, m', he, hrun⟩ | ⟨hnone, hacc⟩
        · exact Or.inl ⟨e, k, m, m', by rw [he]; rfl, hrun⟩
        · rw [hnone]
          by_cases hk : key = key'
          · subst hk
            rw [lookup_setEntry_self] at hacc
            cases hacc
            exact Or.inl ⟨_, n, c₂.movedBack, c₃.movedBack, by rw [if_pos rfl]; rfl, hv⟩
          · rw [lookup_setEntry_ne (fun h => hk (Key.bytes.inj h).symm)] at hacc
            exact Or.inr ⟨by rw [if_neg hk]; rfl, hacc⟩

/-- A torrent that decodes as a dictionary has run the loop of `_decode_dict` from
position 1. -/
theorem decode_dict_entries {data : Bytes} {n : Nat} {d : PyDict} {c' : Cursor}
    (h : decode data n ⟨0, false⟩ = (.ok (.dict d), c')) :
    ∃ k c₁, n = k + 2 ∧ decodeEntries data k [] ⟨1, false⟩ = (.ok d, c₁) := by
  cases n with
  | zero => cases h
  | succ n =>
    rw [decode] at h
    obtain ⟨c₁, h, -⟩ := tracked_eq_ok h
    rw [getPos_bind] at h
    have h := ite_raise_eq_ok h
    obtain ⟨char, c₂, hpeek, h⟩ := DecodeM.bind_eq_ok h
    have hc₂ : c₂ = ⟨0, false⟩ := by
      unfold peek at hpeek
      revert hpeek
      cases item data (⟨0, false⟩ : Cursor).pos with
      | none =>
        intro hpeek
        cases hpeek
      | some b =>
        intro hpeek
        cases hpeek
        rfl
    subst hc₂
    split at h
    · obtain ⟨k, c₃, -, h⟩ := DecodeM.bind_eq_ok h
      cases h
    · split at h
      · obtain ⟨xs, c₃, -, h⟩ := DecodeM.bind_eq_ok h
        cases h
      · split at h
        · obtain ⟨es, c₃, hdict, h⟩ := DecodeM.bind_eq_ok h
          cases h
          cases n with
          | zero => cases hdict
          | succ n =>
            rw [decodeDict] at hdict
            obtain ⟨c₄, hdict, -⟩ := tracked_eq_ok hdict
            rw [advance_bind] at hdict
            obtain ⟨es, c₅, hes, hdict⟩ := DecodeM.bind_eq_ok hdict
            obtain ⟨u, c₆, -, hdict⟩ := DecodeM.bind_eq_ok hdict
            cases hdict
            exact ⟨n, c₅, rfl, hes⟩
        · split at h
          · obtain ⟨b, c₃, -, h⟩ := DecodeM.bind_eq_ok h
            cases h
          · cases h

/-- The info value was read at the info span. -/
theorem infoSpan_spec {data : Bytes} {n : Nat} {d : PyDict} {w : PyObj} {c' : Cursor}
    (h : decode data n ⟨0, false⟩ = (.ok (.dict d), c')) (hinfo : getKey d "info" = some w) :
    ∃ e k m m', infoSpan data n = some e ∧ decode data k ⟨e.start, m⟩ = (.ok w, ⟨e.stop, m'⟩) := by
  obtain ⟨k, c₁, rfl, hentries⟩ := decode_dict_entries h
  obtain ⟨spans, hspans, hlast⟩ := decodeEntries_spans hentries
  rcases hlast (ascii "info") w hinfo with ⟨e, k', m, m', he, hrun⟩ | ⟨-, hnil⟩
  · exact ⟨e, k', m, m', by rw [infoSpan, hspans]; exact he, hrun⟩
  · cases hnil

-- What the parser returns

section Parser

variable {coerceInt : Bytes → Option Int} {parseV2 : Int → PyDict → PyDict → Result TorrentInfo}

theorem getItem_eq_ok {d : PyDict} {key : String} {w : PyObj} (h : getItem d key = .ok w) :
    getKey d key = some w := by
  unfold getItem at h
  split at h
  · next hkey =>
    cases h
    exact hkey
  · cases h

theorem isV2_eq_ok {v : Option PyObj} {version : Int} (h : isV2 v = .ok (some version)) :
    version = 2 ∨ version = 3 := by
  unfold isV2 at h
  split at h
  · split at h
    · next hn =>
      cases h
      exact hn
    · cases h
  · cases h
  · cases h
  · cases h

theorem validateTorrent_eq_ok {decoded : PyObj} {data info : PyDict}
    (h : validateTorrent decoded = .ok (data, info)) :
    decoded = .dict data ∧ getKey data "info" = some (.dict info) := by
  obtain ⟨_, -, h⟩ := bind_eq_ok h
  obtain ⟨_, -, h⟩ := bind_eq_ok h
  obtain ⟨d, hd, h⟩ := bind_eq_ok h
  obtain ⟨v, hv, h⟩ := bind_eq_ok h
  have hdecoded : decoded = .dict d := by
    cases decoded <;> cases hd
    rfl
  have hkey := getItem_eq_ok hv
  -- every branch that accepts returns the two dictionaries
  split at h
  · obtain ⟨version, -, h⟩ := bind_eq_ok h
    split at h
    · split at h
      · cases h
      · split at h
        · cases h
        · split at h
          · cases h
          · cases h
            exact ⟨hdecoded, hkey⟩
    · split at h
      · cases h
      · split at h
        · cases h
        · split at h
          · cases h
          · cases h
            exact ⟨hdecoded, hkey⟩
  · cases h

theorem extractV1Data_infoHash {info data : PyDict} {t : TorrentInfo}
    (h : extractV1Data coerceInt info data = .ok t) :
    t.metaVersion = 1 ∧ ∃ b, encode (.dict info) = .ok b ∧ t.infoHash = sha1 b := by
  unfold extractV1Data at h
  obtain ⟨_, -, h⟩ := bind_eq_ok h
  obtain ⟨_, -, h⟩ := bind_eq_ok h
  obtain ⟨b, hb, h⟩ := bind_eq_ok h
  obtain ⟨_, -, h⟩ := bind_eq_ok h
  obtain ⟨_, -, h⟩ := bind_eq_ok h
  obtain ⟨_, -, h⟩ := bind_eq_ok h
  obtain ⟨_, -, h⟩ := bind_eq_ok h
  obtain ⟨_, -, h⟩ := bind_eq_ok h
  obtain ⟨_, -, h⟩ := bind_eq_ok h
  obtain ⟨_, -, h⟩ := bind_eq_ok h
  obtain ⟨_, -, h⟩ := bind_eq_ok h
  obtain ⟨_, -, h⟩ := bind_eq_ok h
  obtain ⟨_, -, h⟩ := bind_eq_ok h
  have hencode : encode (.dict info) = .ok b := by
    revert hb
    cases encode (.dict info) with
    | error e =>
      intro hb
      cases hb
    | ok b' =>
      intro hb
      cases hb
      rfl
  split at h
  · cases h
    exact ⟨rfl, b, hencode, rfl⟩
  · cases h

theorem extractTorrentData_v1 {info data : PyDict} {t : TorrentInfo}
    (h : extractTorrentData coerceInt parseV2 info data = .ok t) (hv1 : t.metaVersion = 1) :
    extractV1Data coerceInt info data = .ok t := by
  obtain ⟨version, hversion, h⟩ := bind_eq_ok h
  cases version with
  | none => exact h
  | some version =>
    obtain ⟨t', -, h⟩ := bind_eq_ok h
    cases h
    have hv : version = 1 := hv1
    rcases isV2_eq_ok hversion with h | h <;> omega

/-- The new encoding that the parser makes of the decoded info dictionary. -/
def infoReencoded (torrentData : Bytes) (n : Nat) : Option Bytes :=
  match (decode torrentData n ⟨0, false⟩).1 with
  | .ok (.dict d) => (getKey d "info").bind (fun w => (encode w).toOption)
  | _ => none

/-- The parser has read the info dictionary at a span and hashed its encoding of
what it has read. -/
theorem parse_v1 {n : Nat} {torrentData : Bytes} {t : TorrentInfo}
    (h : parse coerceInt parseV2 n torrentData = .ok t) (hv1 : t.metaVersion = 1) :
    ∃ e k m m' w b, infoSpan torrentData n = some e ∧
      decode torrentData k ⟨e.start, m⟩ = (.ok w, ⟨e.stop, m'⟩) ∧
      encode w = .ok b ∧ infoReencoded torrentData n = some b ∧ t.infoHash = sha1 b := by
  unfold parse at h
  cases hrun : decode torrentData n ⟨0, false⟩ with
  | mk result c =>
    rw [hrun] at h
    cases result with
    | error stop => cases stop <;> cases h
    | ok decoded =>
      obtain ⟨⟨data, info⟩, hvalid, hextract⟩ := bind_eq_ok h
      obtain ⟨rfl, hinfo⟩ := validateTorrent_eq_ok hvalid
      obtain ⟨-, b, hb, hhash⟩ := extractV1Data_infoHash (extractTorrentData_v1 hextract hv1)
      obtain ⟨e, k, m, m', he, hdecode⟩ := infoSpan_spec hrun hinfo
      refine ⟨e, k, m, m', .dict info, b, he, hdecode, hb, ?_, hhash⟩
      rw [infoReencoded, hrun]
      show (getKey data "info").bind (fun w => (encode w).toOption) = some b
      rw [hinfo, Option.bind_some, hb]
      rfl

end Parser

/-- The hash is that of the octets between which the info value stands. -/
def HashesInput (torrentData : Bytes) (n : Nat) (infoHash : Bytes) : Prop :=
  ∃ e, infoSpan torrentData n = some e ∧ 0 ≤ e.start ∧
    infoHash = sha1 (slice torrentData e.start e.stop)

/-- The info value stands in the torrent in canonical form. -/
def CanonicalInfo (torrentData : Bytes) (n : Nat) : Prop :=
  ∃ e, infoSpan torrentData n = some e ∧ 0 ≤ e.start ∧
    Canonical (slice torrentData e.start e.stop)

/-- The new encoding of the info value is another text with the same digest. -/
def InfoCollision (torrentData : Bytes) (n : Nat) : Prop :=
  ∃ e b, infoSpan torrentData n = some e ∧ 0 ≤ e.start ∧ infoReencoded torrentData n = some b ∧
    b ≠ slice torrentData e.start e.stop ∧ sha1 b = sha1 (slice torrentData e.start e.stop)

section Parser

variable {coerceInt : Bytes → Option Int} {parseV2 : Int → PyDict → PyDict → Result TorrentInfo}

/-- The info hash of an accepted v1 torrent is that of its own octets exactly if
the info value is canonical, collisions apart. -/
theorem infoHash_iff_canonical {n : Nat} {torrentData : Bytes} {t : TorrentInfo}
    (h : parse coerceInt parseV2 n torrentData = .ok t) (hv1 : t.metaVersion = 1) :
    HashesInput torrentData n t.infoHash ↔
      CanonicalInfo torrentData n ∨ InfoCollision torrentData n := by
  obtain ⟨e, k, m, m', w, b, he, hdecode, hencode, hreencoded, hhash⟩ := parse_v1 h hv1
  have hsame : ∀ e', infoSpan torrentData n = some e' → e' = e :=
    fun e' he' => Option.some.inj (he'.symm.trans he)
  have hiff : 0 ≤ e.start → (b = slice torrentData e.start e.stop ↔
      Canonical (slice torrentData e.start e.stop)) := by
    intro hstart
    obtain ⟨i, hi⟩ : ∃ i : Nat, e.start = i := ⟨e.start.toNat, by omega⟩
    rw [hi] at hdecode ⊢
    rw [← encode_slice_iff hdecode, hencode, Except.ok.injEq]
  constructor
  · rintro ⟨e', he', hstart, hinput⟩
    obtain rfl := hsame e' he'
    by_cases hb : b = slice torrentData e'.start e'.stop
    · exact Or.inl ⟨e', he, hstart, (hiff hstart).mp hb⟩
    · exact Or.inr ⟨e', b, he, hstart, hreencoded, hb, hhash.symm.trans hinput⟩
  · rintro (⟨e', he', hstart, hcanon⟩ | ⟨e', b', he', hstart, hb', -, hcollide⟩)
    · obtain rfl := hsame e' he'
      refine ⟨e', he, hstart, ?_⟩
      rw [hhash, (hiff hstart).mpr hcanon]
    · obtain rfl := hsame e' he'
      obtain rfl : b' = b := Option.some.inj (hb'.symm.trans hreencoded)
      exact ⟨e', he, hstart, hhash.trans hcollide⟩

end Parser

/-- A small torrent whose info value has the given text. -/
def sampleTorrent (info : String) : Bytes := ascii ("d8:announce1:a4:info" ++ info ++ "e")

/-- The parser accepts the torrent as version 1, and whether it hashes `raw`. -/
def acceptsV1 (torrentData raw : Bytes) : Option Bool :=
  match parse (fun _ => none) (fun _ _ _ => .error .failed) 20 torrentData with
  | .ok t => if t.metaVersion = 1 then some (t.infoHash == sha1 raw) else none
  | .error _ => none

theorem acceptsV1_eq_some {torrentData raw : Bytes} {b : Bool}
    (h : acceptsV1 torrentData raw = some b) :
    ∃ t, parse (fun _ => none) (fun _ _ _ => .error .failed) 20 torrentData = .ok t ∧
      t.metaVersion = 1 ∧ (t.infoHash == sha1 raw) = b := by
  unfold acceptsV1 at h
  split at h
  · next t ht =>
    split at h
    · next hv1 => exact ⟨t, ht, hv1, Option.some.inj h⟩
    · cases h
  · cases h

/-- A canonical info value is hashed as it stands. -/
theorem infoHash_iff_canonical_sorted : ∃ t,
    parse (fun _ => none) (fun _ _ _ => .error .failed) 20
      (sampleTorrent "d6:lengthi0e4:name1:x12:piece lengthi1e6:pieces0:e") = .ok t ∧
    (HashesInput (sampleTorrent "d6:lengthi0e4:name1:x12:piece lengthi1e6:pieces0:e") 20
        t.infoHash ↔
      CanonicalInfo (sampleTorrent "d6:lengthi0e4:name1:x12:piece lengthi1e6:pieces0:e") 20 ∨
        InfoCollision
          (sampleTorrent "d6:lengthi0e4:name1:x12:piece lengthi1e6:pieces0:e") 20) := by
  have haccepts : acceptsV1 (sampleTorrent "d6:lengthi0e4:name1:x12:piece lengthi1e6:pieces0:e")
      (ascii "d6:lengthi0e4:name1:x12:piece lengthi1e6:pieces0:e") = some true := by
    decide +kernel
  obtain ⟨t, ht, hv1, -⟩ := acceptsV1_eq_some haccepts
  exact ⟨t, ht, infoHash_iff_canonical ht hv1⟩

/-- With `name` in front of `length` the parser hashes a text that is not in the
torrent. -/
theorem infoHash_ne_unsorted : ∃ t,
    parse (fun _ => none) (fun _ _ _ => .error .failed) 20
      (sampleTorrent "d4:name1:x6:lengthi0e12:piece lengthi1e6:pieces0:e") = .ok t ∧
    t.metaVersion = 1 ∧
    ¬HashesInput (sampleTorrent "d4:name1:x6:lengthi0e12:piece lengthi1e6:pieces0:e") 20
      t.infoHash := by
  have haccepts : acceptsV1 (sampleTorrent "d4:name1:x6:lengthi0e12:piece lengthi1e6:pieces0:e")
      (ascii "d4:name1:x6:lengthi0e12:piece lengthi1e6:pieces0:e") = some false := by
    decide +kernel
  have hspan : (infoSpan (sampleTorrent "d4:name1:x6:lengthi0e12:piece lengthi1e6:pieces0:e")
      20).map (fun e => slice (sampleTorrent "d4:name1:x6:lengthi0e12:piece lengthi1e6:pieces0:e")
        e.start e.stop) = some (ascii "d4:name1:x6:lengthi0e12:piece lengthi1e6:pieces0:e") := by
    decide +kernel
  obtain ⟨t, ht, hv1, hne⟩ := acceptsV1_eq_some haccepts
  refine ⟨t, ht, hv1, ?_⟩
  rintro ⟨e, he, -, hinput⟩
  rw [he, Option.map_some, Option.some.injEq] at hspan
  rw [hspan] at hinput
  simp [hinput] at hne

end Torrent

end Ccbt

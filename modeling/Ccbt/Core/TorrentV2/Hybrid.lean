import Ccbt.Core.TorrentV2.Parser

/-!
# Hybrid torrents: `parse_hybrid` and `_extract_torrent_data`

The two parsers call each other on one torrent dictionary. Its info dictionary is an
object that both refer to and that `parse_hybrid` rewrites for a time, so it is passed
along as a state. The other entries of the torrent dictionary do not change.

A call with the number `n` may nest `n` calls of the two functions. An `Interpreter`
says what happens when that is not enough: it raises a `RecursionError`, which a handler
can catch, or it has no such limit, and then a result is only there for a recursion that
ends.
-/

namespace Ccbt

open Python Torrent

namespace TorrentV2

/-- The parts of the two functions that run inside one call, apart from the nested call. -/
inductive Step
  | parse_v2
  | fallback
  | convert
  deriving DecidableEq

structure Interpreter where
  /-- A call that finds no stack left raises a `RecursionError`. -/
  hasLimit : Bool
  /-- The stack is enough for a step, where that many nested calls are left. -/
  fits : Step → Nat → Bool

/-- No call ever lacks stack. -/
def Interpreter.unlimited : Interpreter := ⟨false, fun _ _ => true⟩

/-- The result of a step; a `RecursionError` in the middle of it is an exception. -/
def Interpreter.eval {α : Type} (interp : Interpreter) (step : Step) (n : Nat) (r : Result α) :
    Result α :=
  if interp.fits step n then r else .error .failed

/-- What a call comes to, with the info dictionary afterwards. -/
abbrev Outcome (α : Type) := Option (Result α × PyDict)

def setKey (info : PyDict) (key : String) (value : PyObj) : PyDict :=
  setEntry (.bytes (ascii key)) value info

/-- The info dictionary that `parse_hybrid` hands to `parse_v2`. -/
def asV2 (info : PyDict) : PyDict := setKey info "meta version" (.int 2)

section Parser

variable (coerceInt : Bytes → Option Int)

/-- The value of an integer field that can be `None`. -/
def toOptionalInt : Option PyObj → Result (Option Int)
  | none => .ok none
  | some v => (toInt coerceInt v).map some

/-- `TorrentInfo(...)` for the fields of a `TorrentV2Info`, with its validators. -/
def makeTorrentInfo (v2 : TorrentV2Info) (name : Str) (infoHash : Bytes)
    (infoHash_length : infoHash.length = 20) (numPieces : Nat) (metaVersion : Int) :
    Result TorrentInfo := do
  let creationDate ← toOptionalInt coerceInt v2.creationDate
  if pieceLength_pos : 0 < v2.pieceLength then
    return {
      name, infoHash, infoHash_length, creationDate, numPieces, metaVersion, pieceLength_pos
      announce := v2.announce
      announceList := v2.announceList
      comment := v2.comment
      createdBy := v2.createdBy
      encoding := v2.encoding
      isPrivate := v2.isPrivate
      files := v2.files
      totalLength := v2.totalLength
      pieceLength := v2.pieceLength
      pieces := [] }
  else .error .failed

theorem take_infoHashV2_length (v2 : TorrentV2Info) : (v2.infoHashV2.take 20).length = 20 := by
  rw [List.length_take, v2.infoHashV2_length]
  rfl

/-- The result of `_extract_torrent_data` for a v2 or a hybrid torrent. -/
def convert (version : Int) (v1 : Option TorrentInfo) (v2 : TorrentV2Info) : Result TorrentInfo :=
  match v1 with
  | some v1 =>
    makeTorrentInfo coerceInt v2 v2.name v1.infoHash v1.infoHash_length v2.numPieces version
  | none =>
    makeTorrentInfo coerceInt v2 v2.name (v2.infoHashV2.take 20) (take_infoHashV2_length v2)
      v2.numPieces version

/-- The v1 hash that the handler of `parse_hybrid` uses. -/
def fallbackHash (info : PyDict) (v2 : TorrentV2Info) :
    Result { o : Option Bytes // ∀ b, o = some b → b.length = 20 } :=
  if v2.infoHashV1.isSome then .ok ⟨v2.infoHashV1, v2.infoHashV1_length⟩
  else calculateInfoHashV1 info

/-- The handler of `parse_hybrid` for an exception of `_extract_torrent_data`. -/
def fallback (info : PyDict) (v2 : TorrentV2Info) : Result TorrentInfo := do
  let name ← textOf ((getKey info "name").getD (.bytes []))
  let ⟨infoHashV1, infoHashV1_length⟩ ← fallbackHash info v2
  match infoHashV1, infoHashV1_length with
  | none, _ => torrentError "Hybrid torrent missing v1 pieces data"
  | some infoHash, hlen => makeTorrentInfo coerceInt v2 name infoHash (hlen infoHash rfl) 0 1

variable (interp : Interpreter)

def noStack {α : Type} (info : PyDict) : Outcome α :=
  if interp.hasLimit then some (.error .failed, info) else none

mutual

def extractTorrentData : Nat → PyDict → PyDict → Outcome TorrentInfo
  | 0, _, info => noStack interp info
  | n + 1, data, info =>
    match isV2 (getKey info "meta version") with
    | .error e => some (.error e, info)
    | .ok none => some (extractV1Data coerceInt info data, info)
    | .ok (some version) =>
      if version = 3 then
        match parseHybrid n data info with
        | none => none
        | some (.error e, info) => some (.error e, info)
        | some (.ok (v1, v2), info) =>
          some (interp.eval .convert n (convert coerceInt version (some v1) v2), info)
      else
        match interp.eval .parse_v2 n (parseV2 info data) with
        | .error e => some (.error e, info)
        | .ok v2 => some (interp.eval .convert n (convert coerceInt version none v2), info)

def parseHybrid : Nat → PyDict → PyDict → Outcome (TorrentInfo × TorrentV2Info)
  | 0, _, info => noStack interp info
  | n + 1, data, info =>
    match getKey info "meta version" with
    | some (.int 3) =>
      let v2Info := interp.eval .parse_v2 n (parseV2 (asV2 info) data)
      -- the version is restored whether or not `parse_v2` has raised
      let info := setKey (asV2 info) "meta version" (.int 3)
      match v2Info with
      | .error e => some (.error e, info)
      | .ok v2 =>
        match extractTorrentData n data info with
        | none => none
        | some (.ok v1, info) => some (.ok (v1, v2), info)
        | some (.error _, info) =>
          some ((interp.eval .fallback n (fallback coerceInt info v2)).map (·, v2), info)
    | metaVersion =>
      let got := String.ofList (PyObj.getStr metaVersion)
      some (torrentError s!"Invalid meta version for hybrid: expected 3, got {got}", info)

end

/-- `_extract_torrent_data` on a torrent dictionary: it takes the info dictionary out. -/
def parseTorrentData (n : Nat) (data : PyDict) : Option (Result TorrentInfo) :=
  match getKey data "info" with
  | some (.dict info) => (extractTorrentData coerceInt interp n data info).map Prod.fst
  | _ => some (.error .failed)

end Parser

/-! ### The info dictionary -/

/-- `finally` puts the info dictionary back as it was, in its order too. -/
theorem setKey_asV2 {info : PyDict} (h : getKey info "meta version" = some (.int 3)) :
    setKey (asV2 info) "meta version" (.int 3) = info :=
  setEntry_setEntry h

theorem getKey_asV2 {info : PyDict} {key : String} (h : ascii key ≠ ascii "meta version") :
    getKey (asV2 info) key = getKey info key :=
  lookup_setEntry_ne (by simpa using h) _ _

/-- The v1 part does not see the version. -/
theorem v1InfoDict_asV2 (info : PyDict) : v1InfoDict (asV2 info) = v1InfoDict info := by
  rw [v1InfoDict, v1InfoDict]
  apply List.filterMap_congr
  intro key hkey
  rw [getKey_asV2]
  revert key
  decide

section Runs

variable {coerceInt : Bytes → Option Int} {interp : Interpreter} {n : Nat} {data info : PyDict}

/-- `parse_hybrid` on an info dictionary of its version. -/
theorem parseHybrid_succ (h : getKey info "meta version" = some (.int 3)) :
    parseHybrid coerceInt interp (n + 1) data info =
      match interp.eval .parse_v2 n (parseV2 (asV2 info) data) with
      | .error e => some (.error e, info)
      | .ok v2 =>
        match extractTorrentData coerceInt interp n data info with
        | none => none
        | some (.ok v1, info) => some (.ok (v1, v2), info)
        | some (.error _, info) =>
          some ((interp.eval .fallback n (fallback coerceInt info v2)).map (·, v2), info) := by
  rw [parseHybrid]
  simp only [h, setKey_asV2 h]

theorem parseHybrid_succ_of_ne (coerceInt : Bytes → Option Int) (interp : Interpreter) (n : Nat)
    (data : PyDict) (h : getKey info "meta version" ≠ some (.int 3)) :
    ∃ e, parseHybrid coerceInt interp (n + 1) data info = some (.error e, info) := by
  rw [parseHybrid]
  split
  · next h3 => exact absurd h3 h
  · exact ⟨_, rfl⟩

/-- `_extract_torrent_data` on a hybrid torrent. -/
theorem extractTorrentData_succ (h : getKey info "meta version" = some (.int 3)) :
    extractTorrentData coerceInt interp (n + 1) data info =
      match parseHybrid coerceInt interp n data info with
      | none => none
      | some (.error e, info) => some (.error e, info)
      | some (.ok (v1, v2), info) =>
        some (interp.eval .convert n (convert coerceInt 3 (some v1) v2), info) := by
  have hv2 : isV2 (getKey info "meta version") = .ok (some 3) := by
    rw [h]
    rfl
  rw [extractTorrentData, hv2]
  simp only [if_true]

theorem isV2_eq_three {o : Option PyObj} (h : isV2 o = .ok (some 3)) : o = some (.int 3) := by
  rw [isV2.eq_def] at h
  split at h
  · next n =>
    split at h
    · cases h
      rfl
    · cases h
  all_goals cases h

/-- On other torrents it does not call `parse_hybrid`. -/
theorem extractTorrentData_succ_of_ne (coerceInt : Bytes → Option Int) (interp : Interpreter)
    (n : Nat) (data : PyDict) (h : getKey info "meta version" ≠ some (.int 3)) :
    ∃ r, extractTorrentData coerceInt interp (n + 1) data info = some (r, info) := by
  rw [extractTorrentData]
  split
  · exact ⟨_, rfl⟩
  · exact ⟨_, rfl⟩
  · next version hv2 =>
    split
    · next h3 =>
      rw [h3] at hv2
      exact absurd (isV2_eq_three hv2) h
    · split
      · exact ⟨_, rfl⟩
      · exact ⟨_, rfl⟩

theorem noStack_snd {α : Type} {r : Result α} {info' : PyDict}
    (h : noStack interp info = some (r, info')) : info' = info := by
  rw [noStack] at h
  split at h
  · cases h
    rfl
  · cases h

/-- Both functions leave the info dictionary as it was, whether they return or raise. -/
theorem info_eq (coerceInt : Bytes → Option Int) (interp : Interpreter) (n : Nat)
    (data info : PyDict) :
    (∀ r info', extractTorrentData coerceInt interp n data info = some (r, info') →
      info' = info) ∧
    (∀ r info', parseHybrid coerceInt interp n data info = some (r, info') → info' = info) := by
  induction n with
  | zero =>
    constructor
    · intro r info' h
      exact noStack_snd h
    · intro r info' h
      exact noStack_snd h
  | succ n ih =>
    by_cases h3 : getKey info "meta version" = some (.int 3)
    · constructor
      · intro r info' h
        rw [extractTorrentData_succ h3] at h
        split at h
        · cases h
        · next hcall =>
          cases h
          exact ih.2 _ _ hcall
        · next hcall =>
          cases h
          exact ih.2 _ _ hcall
      · intro r info' h
        rw [parseHybrid_succ h3] at h
        split at h
        · cases h
          rfl
        · split at h
          · cases h
          · next hcall =>
            cases h
            exact ih.1 _ _ hcall
          · next hcall =>
            cases h
            exact ih.1 _ _ hcall
    · constructor
      · intro r info' h
        obtain ⟨_, hother⟩ := extractTorrentData_succ_of_ne coerceInt interp n data h3
        rw [hother] at h
        cases h
        rfl
      · intro r info' h
        obtain ⟨_, hother⟩ := parseHybrid_succ_of_ne coerceInt interp n data h3
        rw [hother] at h
        cases h
        rfl

theorem parseHybrid_version {r : TorrentInfo × TorrentV2Info} {info' : PyDict}
    (h : parseHybrid coerceInt interp n data info = some (.ok r, info')) :
    getKey info "meta version" = some (.int 3) := by
  cases n with
  | zero =>
    rw [parseHybrid, noStack] at h
    split at h <;> cases h
  | succ n =>
    by_contra h3
    obtain ⟨e, he⟩ := parseHybrid_succ_of_ne coerceInt interp n data h3
    rw [he] at h
    cases h

/-! ### What the v1 part is made from -/

theorem calculateInfoHashV1_asV2 (info : PyDict) :
    calculateInfoHashV1 (asV2 info) = calculateInfoHashV1 info := by
  have hpieces : hasKey (asV2 info) "pieces" = hasKey info "pieces" := by
    rw [hasKey, hasKey, getKey_asV2 (by decide)]
  rw [calculateInfoHashV1, calculateInfoHashV1, hpieces, v1InfoDict_asV2]

/-- The v1 result has the files and the piece length of the v2 part, no piece hashes, and the
hash of the v1 fields, as the v2 result has it too. -/
structure FromV2 (info : PyDict) (v2 : TorrentV2Info) (v1 : TorrentInfo) : Prop where
  files : v1.files = v2.files
  totalLength : v1.totalLength = v2.totalLength
  pieceLength : v1.pieceLength = v2.pieceLength
  pieces : v1.pieces = []
  infoHash : ∃ b, Bencode.encode (.dict (v1InfoDict info)) = .ok b ∧ v1.infoHash = sha1 b ∧
    v2.infoHashV1 = some (sha1 b)

theorem makeTorrentInfo_spec {v2 : TorrentV2Info} {name : Str} {infoHash : Bytes}
    {hlen : infoHash.length = 20} {numPieces : Nat} {metaVersion : Int} {t : TorrentInfo}
    (h : makeTorrentInfo coerceInt v2 name infoHash hlen numPieces metaVersion = .ok t)
    (hhash : ∃ b, Bencode.encode (.dict (v1InfoDict info)) = .ok b ∧ infoHash = sha1 b ∧
      v2.infoHashV1 = some (sha1 b)) : FromV2 info v2 t := by
  obtain ⟨_, -, h⟩ := bind_eq_ok h
  split at h
  · cases h
    exact ⟨rfl, rfl, rfl, rfl, hhash⟩
  · cases h

theorem Interpreter.eval_eq_ok {α : Type} {step : Step} {r : Result α} {a : α}
    (h : interp.eval step n r = .ok a) : r = .ok a := by
  rw [Interpreter.eval] at h
  split at h
  · exact h
  · cases h

/-- The hash that `parse_v2` finds is the one of the info dictionary as it is restored. -/
theorem infoHashV1_of_parseV2 {v2 : TorrentV2Info} (h : parseV2 (asV2 info) data = .ok v2) :
    ∃ hlen, calculateInfoHashV1 info = .ok ⟨v2.infoHashV1, hlen⟩ := by
  rw [← calculateInfoHashV1_asV2]
  exact (parseV2_parts h).2.2

theorem fallback_spec {v2 : TorrentV2Info} {t : TorrentInfo}
    (hv2 : parseV2 (asV2 info) data = .ok v2) (h : fallback coerceInt info v2 = .ok t) :
    FromV2 info v2 t := by
  obtain ⟨hlen, hcalc⟩ := infoHashV1_of_parseV2 hv2
  obtain ⟨_, -, h⟩ := bind_eq_ok h
  obtain ⟨⟨o, ho⟩, hsome, h⟩ := bind_eq_ok h
  have heq : o = v2.infoHashV1 := by
    rw [fallbackHash] at hsome
    split at hsome
    · cases hsome
      rfl
    · rw [hcalc] at hsome
      cases hsome
      rfl
  cases o with
  | none => cases h
  | some infoHash =>
    obtain ⟨b, hb, hsha⟩ := calculateInfoHashV1_eq_some hcalc heq.symm
    exact makeTorrentInfo_spec h ⟨b, hb, hsha, hsha ▸ heq.symm⟩

theorem convert_spec {v2 : TorrentV2Info} {v1 t : TorrentInfo} (hv1 : FromV2 info v2 v1)
    (h : convert coerceInt 3 (some v1) v2 = .ok t) : FromV2 info v2 t :=
  makeTorrentInfo_spec h hv1.infoHash

/-- Whatever interpreter runs them, the two functions only return what comes from the v2 part,
and hashes of the v1 fields: the v1 rules are not reached. -/
theorem hybrid_spec (h3 : getKey info "meta version" = some (.int 3)) :
    (∀ t info', extractTorrentData coerceInt interp n data info = some (.ok t, info') →
      ∃ v2, parseV2 (asV2 info) data = .ok v2 ∧ FromV2 info v2 t) ∧
    (∀ v1 v2 info', parseHybrid coerceInt interp n data info = some (.ok (v1, v2), info') →
      parseV2 (asV2 info) data = .ok v2 ∧ FromV2 info v2 v1) := by
  induction n with
  | zero =>
    constructor
    · intro t info' h
      rw [extractTorrentData, noStack] at h
      split at h <;> cases h
    · intro v1 v2 info' h
      rw [parseHybrid, noStack] at h
      split at h <;> cases h
  | succ n ih =>
    constructor
    · intro t info' h
      rw [extractTorrentData_succ h3] at h
      split at h
      · cases h
      · cases h
      · next v1 v2 _ hcall =>
        obtain ⟨hv2, hv1⟩ := ih.2 v1 v2 _ hcall
        have hconvert : interp.eval .convert n (convert coerceInt 3 (some v1) v2) = .ok t :=
          congrArg Prod.fst (Option.some.inj h)
        exact ⟨v2, hv2, convert_spec hv1 (Interpreter.eval_eq_ok hconvert)⟩
    · intro v1 v2 info' h
      rw [parseHybrid_succ h3] at h
      split at h
      · cases h
      · next v2' hparse =>
        have hv2 := Interpreter.eval_eq_ok hparse
        split at h
        · cases h
        · next hcall =>
          cases h
          obtain ⟨v2'', hv2'', hv1⟩ := ih.1 v1 _ hcall
          rw [hv2] at hv2''
          cases hv2''
          exact ⟨hv2, hv1⟩
        · next hcall =>
          have hinfo := (info_eq coerceInt interp n data info).1 _ _ hcall
          rw [hinfo] at h
          have hmap : (interp.eval .fallback n (fallback coerceInt info v2')).map (·, v2') =
              .ok (v1, v2) := congrArg Prod.fst (Option.some.inj h)
          cases hfallback : interp.eval .fallback n (fallback coerceInt info v2') with
          | error e =>
            rw [hfallback] at hmap
            cases hmap
          | ok t =>
            rw [hfallback] at hmap
            cases hmap
            exact ⟨hv2, fallback_spec hv2 (Interpreter.eval_eq_ok hfallback)⟩

end Runs

/-!
## The recursion of the hybrid parser

`_extract_torrent_data` calls `parse_hybrid` for a hybrid torrent, and `parse_hybrid`
calls `_extract_torrent_data` on the same dictionary once the version has been restored.
Only an exception of `parse_v2` ends that.
-/

variable {coerceInt : Bytes → Option Int} {interp : Interpreter} {data info : PyDict}

/-- `_extract_torrent_data` comes to an end by itself: some number of nested calls is enough. -/
def Ends (coerceInt : Bytes → Option Int) (data : PyDict) : Prop :=
  ∃ n r, parseTorrentData coerceInt .unlimited n data = some r

/-- The v1 result has what the v1 rules make of the info dictionary. -/
structure CarriesV1 (coerceInt : Bytes → Option Int) (info : PyDict) (v1 : TorrentInfo) :
    Prop where
  files : extractFileInfo coerceInt info = .ok v1.files
  totalLength : v1.totalLength = (v1.files.map FileInfo.length).sum
  pieces : ∃ pieceLength, extractPiecesInfo info = .ok (pieceLength, v1.pieces) ∧
    toInt coerceInt pieceLength = .ok v1.pieceLength
  numPieces : v1.numPieces = v1.pieces.length

/-- `parse_hybrid` keeps the v1 part of every torrent with valid v1 fields. -/
def KeepsV1 (coerceInt : Bytes → Option Int) (data : PyDict) : Prop :=
  ∀ interp n info t v1 v2 info', getKey data "info" = some (.dict info) →
    extractV1Data coerceInt info data = .ok t →
    parseHybrid coerceInt interp n data info = some (.ok (v1, v2), info') →
    CarriesV1 coerceInt info v1

/-- The torrent is a hybrid one, and `parse_v2` accepts its v2 fields. -/
def HybridAccepted (data : PyDict) : Prop :=
  ∃ info v2, getKey data "info" = some (.dict info) ∧
    getKey info "meta version" = some (.int 3) ∧ parseV2 (asV2 info) data = .ok v2

/-- The v1 parser carries the v1 fields over. -/
theorem carriesV1_of_extractV1Data {t : TorrentInfo}
    (h : extractV1Data coerceInt info data = .ok t) : CarriesV1 coerceInt info t := by
  -- the announce URL and the hash
  obtain ⟨_, -, h⟩ := bind_eq_ok h
  obtain ⟨_, -, h⟩ := bind_eq_ok h
  obtain ⟨_, -, h⟩ := bind_eq_ok h
  obtain ⟨files, hfiles, h⟩ := bind_eq_ok h
  obtain ⟨⟨pieceLength, pieceHashes⟩, hpieces, h⟩ := bind_eq_ok h
  -- the optional fields and the name
  obtain ⟨_, -, h⟩ := bind_eq_ok h
  obtain ⟨_, -, h⟩ := bind_eq_ok h
  obtain ⟨_, -, h⟩ := bind_eq_ok h
  obtain ⟨_, -, h⟩ := bind_eq_ok h
  obtain ⟨_, -, h⟩ := bind_eq_ok h
  obtain ⟨_, -, h⟩ := bind_eq_ok h
  obtain ⟨_, -, h⟩ := bind_eq_ok h
  obtain ⟨p, hp, h⟩ := bind_eq_ok h
  split at h
  · cases h
    exact ⟨hfiles, rfl, ⟨pieceLength, hpieces, hp⟩, rfl⟩
  · cases h

/-- Every call of the one function leads to a call of the other. -/
theorem recursion_of_accepted {v2 : TorrentV2Info}
    (h3 : getKey info "meta version" = some (.int 3))
    (haccept : parseV2 (asV2 info) data = .ok v2) (n : Nat) :
    extractTorrentData coerceInt .unlimited n data info = none ∧
      parseHybrid coerceInt .unlimited n data info = none := by
  induction n with
  | zero => exact ⟨rfl, rfl⟩
  | succ n ih =>
    have heval : Interpreter.unlimited.eval .parse_v2 n (parseV2 (asV2 info) data) = .ok v2 := by
      rw [haccept]
      rfl
    constructor
    · rw [extractTorrentData_succ h3, ih.2]
    · rw [parseHybrid_succ h3, heval]
      simp only [ih.1]

/-- A torrent whose v2 fields are not accepted takes two calls. -/
theorem ends_of_rejected (coerceInt : Bytes → Option Int)
    (hreject : getKey info "meta version" = some (.int 3) →
      ∀ v2, parseV2 (asV2 info) data ≠ .ok v2) :
    ∃ r, extractTorrentData coerceInt .unlimited 2 data info = some r := by
  by_cases h3 : getKey info "meta version" = some (.int 3)
  · rw [extractTorrentData_succ h3, parseHybrid_succ h3]
    cases heval : Interpreter.unlimited.eval .parse_v2 0 (parseV2 (asV2 info) data) with
    | error e => exact ⟨_, rfl⟩
    | ok v2 => exact absurd (Interpreter.eval_eq_ok heval) (hreject h3 v2)
  · obtain ⟨r, hr⟩ := extractTorrentData_succ_of_ne coerceInt .unlimited 1 data h3
    exact ⟨_, hr⟩

theorem ends_iff (coerceInt : Bytes → Option Int) (data : PyDict) :
    Ends coerceInt data ↔ ¬HybridAccepted data := by
  constructor
  · rintro ⟨n, r, hr⟩ ⟨info, v2, hinfo, h3, haccept⟩
    simp only [parseTorrentData, hinfo] at hr
    rw [(recursion_of_accepted h3 haccept n).1] at hr
    cases hr
  · intro hnot
    refine ⟨2, ?_⟩
    rw [parseTorrentData]
    split
    · next info hinfo =>
      have hreject : getKey info "meta version" = some (.int 3) →
          ∀ v2, parseV2 (asV2 info) data ≠ .ok v2 :=
        fun h3 v2 hv2 => hnot ⟨info, v2, hinfo, h3, hv2⟩
      obtain ⟨r, hr⟩ := ends_of_rejected coerceInt hreject
      exact ⟨_, by rw [hr]; rfl⟩
    · exact ⟨_, rfl⟩

/-- The recursion ends and the v1 part is kept exactly where `parse_hybrid` does not come to
its call of the v1 parser. -/
theorem hybridSound_iff (coerceInt : Bytes → Option Int) (data : PyDict) :
    (Ends coerceInt data ∧ KeepsV1 coerceInt data) ↔ ¬HybridAccepted data := by
  rw [ends_iff]
  constructor
  · exact fun h => h.1
  · intro hnot
    refine ⟨hnot, ?_⟩
    intro interp n info t v1 v2 info' hinfo _ hcall
    have h3 := parseHybrid_version hcall
    exact absurd ⟨info, v2, hinfo, h3, ((hybrid_spec h3).2 v1 v2 info' hcall).1⟩ hnot

def textEntry (key : String) (value : PyObj) : Key × PyObj := (.bytes (ascii key), value)

/-- The info dictionary of a hybrid torrent with one file of one octet. -/
def smallHybridInfo : PyDict :=
  [textEntry "file tree" (.dict [textEntry "a" (.dict [textEntry "" (.dict
      [textEntry "length" (.int 1),
        textEntry "pieces root" (.bytes (List.replicate 32 0))])])]),
    textEntry "length" (.int 1),
    textEntry "meta version" (.int 3),
    textEntry "name" (.bytes (ascii "a")),
    textEntry "piece length" (.int 16384),
    textEntry "piece layers" (.dict []),
    textEntry "pieces" (.bytes (List.replicate 20 0))]

def smallHybrid : PyDict :=
  [textEntry "announce" (.bytes (ascii "http://t")), textEntry "info" (.dict smallHybridInfo)]

theorem smallHybrid_accepted : HybridAccepted smallHybrid := by
  have hok : (parseV2 (asV2 smallHybridInfo) smallHybrid).isOk = true := by decide +kernel
  cases hparse : parseV2 (asV2 smallHybridInfo) smallHybrid with
  | error e =>
    rw [hparse] at hok
    cases hok
  | ok v2 => exact ⟨smallHybridInfo, v2, by rfl, by rfl, hparse⟩

/-- The parser recurses on a small hybrid torrent without end. -/
theorem not_hybridSound_smallHybrid :
    ¬∀ (coerceInt : Bytes → Option Int) (data : PyDict),
      Ends coerceInt data ∧ KeepsV1 coerceInt data := by
  intro h
  have hends := (h (fun _ => none) smallHybrid).1
  exact (ends_iff _ _).mp hends smallHybrid_accepted

end TorrentV2

end Ccbt

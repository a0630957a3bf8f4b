import Ccbt.Core.Bencode.Canonical
import Ccbt.Core.Bencode.Equality
import Ccbt.Protocols.BittorrentV2
import Ccbt.Transition.Run

/-!
# Version 2 messages about the metadata (`peer/async_peer_connection.py`)

`handle_v2_message` with its four handlers, on the entries of `torrent_data` that they read
and write, and when these entries outlast what the peers send.
-/

namespace Ccbt

open Python BittorrentV2 Bencode

namespace Peer

def truth : PyObj → Bool
  | .bytes b => b ≠ []
  | .str s => s ≠ []
  | .int n => n ≠ 0
  | .bool b => b
  | .list items => !items.isEmpty
  | .dict entries => !entries.isEmpty
  | .other _ => true

/-- The entries of the dictionary `torrent_data` that are about version 2. -/
structure TorrentData where
  file_tree : Option PyObj
  piece_layers : Option (Dict Bytes (List Bytes))
  piece_hashes : Option (List Bytes)

/-- What a handler does besides. -/
inductive Effect
  | send_v2_message (message : V2Message)
  | update_peer_availability (piece_indices : List Nat)
  deriving DecidableEq

/-- A message from a peer. Calls may be nested `stack` deep while its octets are decoded. -/
structure Received where
  message : V2Message
  stack : Nat

namespace TorrentData

variable (torrent_data : TorrentData)

def handlePieceLayerRequest (pieces_root : Bytes) : Option Effect := do
  let piece_layers ← torrent_data.piece_layers
  let piece_hashes ← piece_layers.get? pieces_root
  let response ← (PieceLayerResponse.new pieces_root piece_hashes).toOption
  return .send_v2_message response

/-- The pieces of the torrent that a piece layer of a known file shows. -/
def pieceIndices (pieces_root : Bytes) (piece_hashes : List Bytes) : List Nat :=
  match torrent_data.piece_layers, torrent_data.piece_hashes with
  | some piece_layers, some torrent_piece_hashes =>
    if piece_layers.contains pieces_root then
      (torrent_piece_hashes.zipIdx.filter fun (torrent_hash, _) =>
        torrent_hash ∈ piece_hashes).map Prod.snd
    else []
  | _, _ => []

def handlePieceLayerResponse (pieces_root : Bytes) (piece_hashes : List Bytes) : Option Effect :=
  let piece_indices := torrent_data.pieceIndices pieces_root piece_hashes
  if piece_indices = [] then none else some (.update_peer_availability piece_indices)

def handleFileTreeRequest : Option Effect :=
  match torrent_data.file_tree.filter truth with
  | none => none
  | some file_tree =>
    match encode file_tree with
    | .ok file_tree_bytes =>
      if h : file_tree_bytes ≠ [] then
        some (.send_v2_message (.FileTreeResponse file_tree_bytes h))
      else none
    | .error _ => none

/-- What is stored when a file tree comes from a peer: it, and the entries of the old one that
it does not have. -/
def mergeFileTree (old_file_tree : Option PyObj) (file_tree : List (Key × PyObj)) :
    List (Key × PyObj) :=
  match old_file_tree with
  | some (.dict entries) => setMissing file_tree entries
  | _ => file_tree

def handleFileTreeResponse (message : Bytes) (stack : Nat) : TorrentData :=
  match (decode message stack ⟨0, false⟩).1 with
  | .ok (.dict file_tree) => { torrent_data with
      file_tree := some (.dict (mergeFileTree torrent_data.file_tree file_tree)) }
  | _ => torrent_data

def handleV2Message (e : Received) : Option Effect × TorrentData :=
  match e.message with
  | .PieceLayerRequest pieces_root _ =>
    (torrent_data.handlePieceLayerRequest pieces_root, torrent_data)
  | .PieceLayerResponse pieces_root piece_hashes _ _ =>
    (torrent_data.handlePieceLayerResponse pieces_root piece_hashes, torrent_data)
  | .FileTreeRequest => (torrent_data.handleFileTreeRequest, torrent_data)
  | .FileTreeResponse file_tree _ =>
    (none, torrent_data.handleFileTreeResponse file_tree e.stack)

/-- What a message leaves of the metadata. -/
def step (torrent_data : TorrentData) (e : Received) : TorrentData :=
  (torrent_data.handleV2Message e).2

end TorrentData

structure VerifiedTree where
  entries : List (Key × PyObj)
  distinct : Distinct (.dict entries)

namespace VerifiedTree

variable (T : VerifiedTree)

theorem nodup_keys : (T.entries.map Prod.fst).Nodup := by
  have h := T.distinct
  rw [Distinct] at h
  exact h.1

def torrentData (piece_layers : Option (Dict Bytes (List Bytes)))
    (piece_hashes : Option (List Bytes)) : TorrentData :=
  ⟨some (.dict T.entries), piece_layers, piece_hashes⟩

/-- The file tree and the piece layers are the verified ones. -/
structure Keeps (piece_layers : Option (Dict Bytes (List Bytes))) (torrent_data : TorrentData) :
    Prop where
  tree : ∃ file_tree, torrent_data.file_tree = some file_tree ∧ Same (.dict T.entries) file_tree
  layers : torrent_data.piece_layers = piece_layers

/-- Every entry is an entry of the verified tree. -/
def Agrees (file_tree : List (Key × PyObj)) : Prop :=
  ∀ e ∈ file_tree, ∃ v, T.entries.lookup e.1 = some v ∧ Same v e.2

/-- The message is no file tree, or one that cannot be decoded, is no dictionary, or has only
entries of the verified tree. -/
def Harmless (e : Received) : Prop :=
  match e.message with
  | .FileTreeResponse message _ => ∀ file_tree,
      (decode message e.stack ⟨0, false⟩).1 = .ok (.dict file_tree) → T.Agrees file_tree
  | _ => True

variable {T}

theorem lookup_of_mem {e : Key × PyObj} (he : e ∈ T.entries) :
    T.entries.lookup e.1 = some e.2 :=
  (lookup_eq_some_iff T.nodup_keys).mpr he

/-- An entry of the verified tree is found in the merged tree as the peer has it, if it has it. -/
theorem lookup_merge {es file_tree : List (Key × PyObj)} (hes : (es.map Prod.fst).Nodup)
    (k : Key) : (TorrentData.mergeFileTree (some (.dict es)) file_tree).lookup k =
      (file_tree.lookup k).or (es.lookup k) :=
  lookup_setMissing hes k

/-- The merged tree is still the verified one exactly if the peer's tree agrees with it. -/
theorem same_merge_iff {old : PyObj} {file_tree : List (Key × PyObj)}
    (hold : Same (.dict T.entries) old) (hnodup : (file_tree.map Prod.fst).Nodup) :
    Same (.dict T.entries) (.dict (TorrentData.mergeFileTree (some old) file_tree)) ↔
      T.Agrees file_tree := by
  obtain ⟨es, rfl, hlength, hlookup⟩ := same_dict_iff.mp hold
  have hkeys : (T.entries.map Prod.fst).Perm (es.map Prod.fst) := hold.keys_perm T.nodup_keys
  have hes : (es.map Prod.fst).Nodup := hkeys.nodup_iff.mp T.nodup_keys
  constructor
  · intro h e he
    obtain ⟨_, ⟨⟩, hlength', hmerged⟩ := same_dict_iff.mp h
    -- a key of the peer alone would make the tree longer
    have hmem : e.1 ∈ T.entries.map Prod.fst := by
      refine hkeys.mem_iff.mpr ((length_setMissing_iff hnodup hes).mp ?_ e he)
      exact hlength'.trans hlength.symm
    obtain ⟨verified, hverified, hkey⟩ := List.mem_map.mp hmem
    obtain ⟨v', hv', hsame⟩ := hmerged verified hverified
    have hpeer : file_tree.lookup e.1 = some e.2 := (lookup_eq_some_iff hnodup).mpr he
    rw [lookup_merge hes, hkey, hpeer, Option.some_or] at hv'
    cases hv'
    exact ⟨verified.2, hkey ▸ lookup_of_mem hverified, hsame⟩
  · intro h
    refine same_dict_iff.mpr ⟨_, rfl, ?_, ?_⟩
    · rw [← hlength]
      refine (length_setMissing_iff hnodup hes).mpr fun e he => ?_
      obtain ⟨v, hv, -⟩ := h e he
      have hmem : (e.1, v) ∈ T.entries := (lookup_eq_some_iff T.nodup_keys).mp hv
      exact hkeys.mem_iff.mp (List.mem_map.mpr ⟨_, hmem, rfl⟩)
    · intro verified hverified
      rw [lookup_merge hes]
      cases hpeer : file_tree.lookup verified.1 with
      | none => exact hlookup verified hverified
      | some w =>
        obtain ⟨v, hv, hsame⟩ := h _ ((lookup_eq_some_iff hnodup).mp hpeer)
        rw [lookup_of_mem hverified] at hv
        cases hv
        exact ⟨w, rfl, hsame⟩

/-- A decoded dictionary has no key twice. -/
theorem nodup_of_decode {message : Bytes} {stack : Nat} {file_tree : List (Key × PyObj)}
    (h : (decode message stack ⟨0, false⟩).1 = .ok (.dict file_tree)) :
    (file_tree.map Prod.fst).Nodup := by
  have hbencodable : Bencodable (.dict file_tree) :=
    (builds message stack).item ⟨0, false⟩ _ _ (Prod.ext h rfl)
  rw [Bencodable] at hbencodable
  refine List.Nodup.of_map Key.sortKey ?_
  rw [List.map_map]
  exact hbencodable.2.1

variable {piece_layers : Option (Dict Bytes (List Bytes))} {torrent_data : TorrentData}

/-- A message keeps the metadata exactly if it is harmless. -/
theorem keeps_step_iff (h : T.Keeps piece_layers torrent_data) (e : Received) :
    T.Keeps piece_layers (torrent_data.step e) ↔ T.Harmless e := by
  obtain ⟨old, hold, hsame⟩ := h.tree
  unfold TorrentData.step TorrentData.handleV2Message Harmless
  cases e.message with
  | PieceLayerRequest => exact iff_of_true h trivial
  | PieceLayerResponse => exact iff_of_true h trivial
  | FileTreeRequest => exact iff_of_true h trivial
  | FileTreeResponse message =>
    simp only [TorrentData.handleFileTreeResponse]
    split
    · next file_tree hdecode =>
      have hmerge := same_merge_iff hsame (nodup_of_decode hdecode)
      constructor
      · intro hkeeps
        obtain ⟨new, hnew, hsame'⟩ := hkeeps.tree
        cases hnew
        intro _ heq
        cases hdecode.symm.trans heq
        rw [hold] at hsame'
        exact hmerge.mp hsame'
      · intro hagrees
        refine ⟨⟨_, rfl, ?_⟩, h.layers⟩
        rw [hold]
        exact hmerge.mpr (hagrees file_tree hdecode)
    · next hdecode => exact iff_of_true h fun file_tree heq => absurd heq (hdecode file_tree)

/-- The verified metadata outlasts the messages of the peers exactly if each of them is
harmless. -/
theorem always_keeps_iff (T : VerifiedTree) (piece_layers : Option (Dict Bytes (List Bytes)))
    (piece_hashes : Option (List Bytes)) (es : List Received) :
    Transition.Always TorrentData.step (T.Keeps piece_layers)
      (T.torrentData piece_layers piece_hashes) es ↔ ∀ e ∈ es, T.Harmless e := by
  have hstart : T.Keeps piece_layers (T.torrentData piece_layers piece_hashes) :=
    ⟨⟨_, rfl, same_refl T.distinct⟩, rfl⟩
  have hstep : ∀ torrent_data e, T.Keeps piece_layers torrent_data →
      (T.Keeps piece_layers (TorrentData.step torrent_data e) ↔ T.Harmless e) :=
    fun _ e h => keeps_step_iff h e
  rw [Transition.always_iff_stepsMeet hstep hstart, Transition.stepsMeet_event]

/-- The tree of a torrent with one file. -/
def oneFile : VerifiedTree where
  entries := [(.bytes [0x61], .dict [(.bytes [], .dict [(.bytes (ascii "length"), .int 1)])])]
  distinct := by simp [Distinct, DistinctEntries]

/-- A peer that sends the tree `{b"x": 0}` adds a file to it. -/
theorem not_always_keeps_oneFile :
    ¬Transition.Always TorrentData.step (oneFile.Keeps none) (oneFile.torrentData none none)
      [⟨.FileTreeResponse (ascii "d1:xi0ee") (by decide), 10⟩] := by
  rintro ⟨-, h⟩
  obtain ⟨file_tree, hstored, hsame⟩ := h.tree
  obtain ⟨es, rfl, hlength, -⟩ := same_dict_iff.mp hsame
  have hfiles : (match (TorrentData.step (oneFile.torrentData none none)
      ⟨.FileTreeResponse (ascii "d1:xi0ee") (by decide), 10⟩).file_tree with
      | some (.dict es) => es.length
      | _ => 0) = 2 := by decide +kernel
  rw [hstored] at hfiles
  cases hlength.symm.trans hfiles

end VerifiedTree

end Peer

end Ccbt

import Ccbt.Core.Bencode.Canonical
import Ccbt.Piece.Metadata.Exchange
import Ccbt.Piece.Metadata.SharedTable

/-!
# Metadata from an honest peer

The peer announces an id for the messages that are sent to it, and the client one for those that are
sent to the client. The client looks for its own messages under the id of the peer, and it looks for
an info dictionary inside of the info dictionary.
-/

namespace Ccbt

open Python Bencode Transition

namespace Metadata

/-- An info dictionary and its canonical bencoding. -/
structure InfoDict where
  metadata : Bytes
  canonical : Canonical metadata
  entries : Torrent.PyDict
  decoded : (decode metadata (fuelFor metadata) ⟨0, false⟩).1 = .ok (.dict entries)

def frames (payloads : List Bytes) : Bytes := payloads.flatMap frame

/-- A message that is not extended, or a keep-alive. -/
def Ordinary (payload : Bytes) : Prop := msgId payload ≠ 20 ∧ payload.length < 2 ^ 32

/-- A message that is not for an extension: one that is not extended, or a further extended
handshake. -/
def ForNoExtension (payload : Bytes) : Prop :=
  (msgId payload = 20 → extId payload = 0) ∧ payload.length < 2 ^ 32

/-- A peer that has the metadata and follows the protocol: it sends its handshake, then its extended
handshake, which may have other messages around it, and answers the request for each piece, which
carries the id of the peer, by a data message with the id of the client. -/
structure HonestPeer (info : InfoDict) extends Peer where
  ut_metadata_id : Nat
  id_range : 1 ≤ ut_metadata_id ∧ ut_metadata_id ≤ 255
  reserved : Bytes
  reserved_length : reserved.length = 8
  peer_id : Bytes
  /-- What it sends behind its handshake, before it has the extended handshake of the client. -/
  early : Bytes
  greets : greeting =
    (19 :: ascii "BitTorrent protocol" ++ reserved ++ sha1 info.metadata ++ peer_id) ++ early
  peer_id_length : peer_id.length = 20
  before : List Bytes
  before_ordinary : ∀ payload ∈ before, Ordinary payload
  extensions : Torrent.PyDict
  extensions_stored : Stored extensions
  announces_id : Torrent.getKey extensions "ut_metadata" = some (.int ut_metadata_id)
  handshake : Torrent.PyDict
  handshake_stored : Stored handshake
  announces_extensions : Torrent.getKey handshake "m" = some (.dict extensions)
  announces_size : Torrent.getKey handshake "metadata_size" = some (.int info.metadata.length)
  handshake_text : Bytes
  handshake_encoded : encode (.dict handshake) = .ok handshake_text
  handshake_length : handshake_text.length + 2 < 2 ^ 32
  after : List Bytes
  after_ordinary : ∀ payload ∈ after, ForNoExtension payload
  negotiates : early ++ answer extendedHandshake =
    frames before ++ (extended 0 handshake_text ++ frames after)
  others : Nat → List Bytes
  others_ordinary : ∀ i, ∀ payload ∈ others i, ForNoExtension payload
  header : Nat → Torrent.PyDict
  header_stored : ∀ i, Stored (header i)
  header_msg_type : ∀ i, Torrent.getKey (header i) "msg_type" = some (.int 1)
  header_piece : ∀ i, Torrent.getKey (header i) "piece" = some (.int i)
  header_total_size : ∀ i, Torrent.getKey (header i) "total_size" = some (.int info.metadata.length)
  header_text : Nat → Bytes
  header_encoded : ∀ i, encode (.dict (header i)) = .ok (header_text i)
  header_length : ∀ i < (pieces 16384 info.metadata).length,
    (header_text i).length + 16386 < 2 ^ 32
  answers : ∀ (i : Nat) (piece req_msg : Bytes), (pieces 16384 info.metadata)[i]? = some piece →
    requestMessage (some (.int ut_metadata_id)) i = some req_msg →
    answer req_msg = frames (others i) ++ extended advertisedId (header_text i ++ piece)

section Messages

variable {payload stream rest : Bytes} {payloads : List Bytes} {fuel i : Nat}

theorem readexactly_append {n : Nat} (h : payload.length = n) (rest : Bytes) :
    readexactly n (payload ++ rest) = some (payload, rest) := by
  have hle : n ≤ (payload ++ rest).length := by
    rw [List.length_append]
    omega
  rw [readexactly, if_pos hle, List.take_left' h, List.drop_left' h]

/-- A message is read as it has been framed. -/
theorem readMessage_frame (h : payload.length < 2 ^ 32) (rest : Bytes) :
    readMessage (frame payload ++ rest) = some (payload, rest) := by
  rw [readMessage, frame, List.append_assoc, readexactly_append (bigEndian_length 4 _)]
  show readexactly (ofBigEndian (bigEndian 4 payload.length)) (payload ++ rest) = _
  rw [ofBigEndian_bigEndian h, readexactly_append rfl]

theorem readMessage_nil : readMessage [] = none := rfl

theorem frames_cons : frames (payload :: payloads) = frame payload ++ frames payloads := rfl

theorem length_frames_le (payloads : List Bytes) : payloads.length ≤ (frames payloads).length := by
  induction payloads with
  | nil => exact le_rfl
  | cons payload payloads ih =>
    rw [frames_cons, frame, List.length_append, List.length_append, bigEndian_length,
      List.length_cons]
    omega

/-- What is written for a dictionary is decoded whatever follows. -/
theorem decode_stored {d : Torrent.PyDict} (h : Stored d) {b : Bytes}
    (hb : encode (.dict d) = .ok b) (rest : Bytes) (hfuel : fuelFor (b ++ rest) ≤ fuel) :
    decode (b ++ rest) fuel ⟨0, false⟩ = (.ok (.dict (normalDict d)), ⟨b.length, false⟩) := by
  obtain ⟨b', hw⟩ := written h.bencodable
  obtain rfl : b = b' := Except.ok.inj (hb.symm.trans hw.encoded)
  have hrun := (hw.reads rest).decode [] hfuel
  rw [normal_dict] at hrun
  simpa using hrun

theorem getKey_normalDict {d : Torrent.PyDict} (h : Stored d) (key : String) :
    Torrent.getKey (normalDict d) key = (Torrent.getKey d key).map normal :=
  h.lookup_normalDict _

theorem isNumber_self (n : Int) : isNumber n (some (.int n)) = true := decide_eq_true rfl

/-- Messages that are not extended take their rounds. -/
theorem receiveExtendedHandshake_frames (h : ∀ payload ∈ payloads, Ordinary payload) (rounds : Nat)
    (stream : Bytes) :
    receiveExtendedHandshake fuel (payloads.length + rounds) (frames payloads ++ stream) =
      receiveExtendedHandshake fuel rounds stream := by
  induction payloads with
  | nil =>
    rw [List.length_nil, Nat.zero_add]
    rfl
  | cons payload payloads ih =>
    have hordinary := h payload List.mem_cons_self
    rw [List.length_cons, Nat.add_right_comm, receiveExtendedHandshake, frames_cons,
      List.append_assoc, readMessage_frame hordinary.2]
    dsimp only
    rw [if_neg fun hext => hordinary.1 hext.1]
    exact ih fun payload hp => h payload (List.mem_cons_of_mem _ hp)

/-- A wait is not ended by messages that are not for an extension. -/
theorem pieceResponse_of_forNoExtension (h : ForNoExtension payload) {id : Nat} (hid : id ≠ 0) :
    pieceResponse fuel (some (.int id)) i payload = .other := by
  rw [pieceResponse, if_neg]
  rintro ⟨hmsg, hext⟩
  rw [h.1 hmsg, isNumber, decide_eq_true_eq] at hext
  exact hid (Int.ofNat.inj hext)

theorem waitForPieceResponse_frames {id : Nat} (h : ∀ payload ∈ payloads, payload.length < 2 ^ 32 ∧
    pieceResponse fuel (some (.int id)) i payload = .other) (n : Nat) (stream : Bytes) :
    waitForPieceResponse fuel (some (.int id)) i (payloads.length + n) (frames payloads ++ stream) =
      waitForPieceResponse fuel (some (.int id)) i n stream := by
  induction payloads with
  | nil =>
    rw [List.length_nil, Nat.zero_add]
    rfl
  | cons payload payloads ih =>
    obtain ⟨hlength, hother⟩ := h payload List.mem_cons_self
    rw [List.length_cons, Nat.add_right_comm, waitForPieceResponse, frames_cons, List.append_assoc,
      readMessage_frame hlength]
    dsimp only
    rw [hother]
    exact ih fun payload hp => h payload (List.mem_cons_of_mem _ hp)

/-- When only such messages are there, the wait ends without a piece. -/
theorem waitForPieceResponse_frames_end {id : Nat} (h : ∀ payload ∈ payloads,
    payload.length < 2 ^ 32 ∧ pieceResponse fuel (some (.int id)) i payload = .other) {n : Nat}
    (hn : payloads.length ≤ n) :
    waitForPieceResponse fuel (some (.int id)) i n (frames payloads) = (none, []) := by
  obtain ⟨k, rfl⟩ := Nat.exists_eq_add_of_le hn
  have hskip := waitForPieceResponse_frames h k []
  rw [List.append_nil] at hskip
  rw [hskip]
  cases k with
  | zero => rfl
  | succ k => rw [waitForPieceResponse, readMessage_nil]

end Messages

namespace InfoDict

variable {info : InfoDict} {fuel : Nat}

theorem decode_eq (info : InfoDict) (hfuel : fuelFor info.metadata ≤ fuel) :
    DecodesTo fuel info.metadata (.dict info.entries) := by
  obtain ⟨v, hv⟩ := encode_of_canonical info.canonical
  obtain ⟨b, hb⟩ := written hv.bencodable
  obtain rfl : b = info.metadata := Except.ok.inj (hb.encoded.symm.trans hv.encoded)
  have hreads := hb.reads []
  rw [List.append_nil] at hreads
  have hdecoded := (congrArg Prod.fst (hreads.decode [] le_rfl)).symm.trans info.decoded
  rw [DecodesTo, ← hdecoded]
  exact congrArg Prod.fst (hreads.decode [] hfuel)

/-- The metadata passes the check of what has been assembled. -/
theorem checkMetadata_eq (info : InfoDict) (hfuel : fuelFor info.metadata ≤ fuel) :
    checkMetadata fuel (sha1 info.metadata) info.metadata = some (.dict info.entries) := by
  have hdecodes := info.decode_eq hfuel
  rw [hdecodes.checkMetadata_eq (hdecodes.encode_eq_iff.mpr info.canonical), if_pos rfl]

theorem metadata_ne_nil (info : InfoDict) : info.metadata ≠ [] := by
  intro h
  have hdecoded := info.decoded
  rw [h] at hdecoded
  cases hdecoded

theorem ceilPieces_length (info : InfoDict) :
    (ceilPieces info.metadata.length).toNat = (pieces 16384 info.metadata).length := by
  rw [length_pieces (by decide), ceilPieces]
  omega

end InfoDict

section Filling

variable {m piece : Bytes} {t : PieceTable} {x : AsyncMetadataExchange} {k : Nat}

/-- The only session has stored the first pieces of the metadata and waits for the next one. -/
structure PieceTable.Filled (m : Bytes) (k : Nat) (t : PieceTable) : Prop where
  session : ∃ s, t.sessions = [s] ∧ s.next = k ∧ s.num_pieces = (pieces 16384 m).length ∧
    s.ut_metadata_id.any isOctet = true
  table : t.metadata_pieces = ((pieces 16384 m).take k).map some ++
    List.replicate ((pieces 16384 m).length - k) none

namespace PieceTable

theorem Filled.awaited (h : t.Filled m k) (hk : k < (pieces 16384 m).length) :
    t.awaited 0 = some k := by
  obtain ⟨s, hsessions, rfl, hnum, hid⟩ := h.session
  rw [PieceTable.awaited, hsessions]
  have hlt : (s.next : Int) < s.num_pieces := by
    rw [hnum]
    exact Int.ofNat_lt.mpr hk
  exact if_pos ⟨hlt, hid⟩

theorem Filled.storePiece (h : t.Filled m k) (hpiece : (pieces 16384 m)[k]? = some piece) :
    (t.storePiece 0 k piece).Filled m (k + 1) := by
  obtain ⟨s, hsessions, hnext, hnum, hid⟩ := h.session
  have hk : k < (pieces 16384 m).length := (List.getElem?_eq_some_iff.mp hpiece).1
  constructor
  · refine ⟨{ s with
        pieces_received := s.pieces_received.set k piece
        next := s.next + 1 }, ?_, congrArg (· + 1) hnext, hnum, hid⟩
    rw [PieceTable.storePiece, hsessions]
    rfl
  · have hlength : (((pieces 16384 m).take k).map some).length = k := by
      rw [List.length_map, List.length_take, Nat.min_eq_left hk.le]
    have hrest : (pieces 16384 m).length - k = (pieces 16384 m).length - (k + 1) + 1 := by omega
    rw [PieceTable.storePiece, h.table, List.set_append_right _ _ hlength.le, hlength, Nat.sub_self,
      hrest, List.replicate_succ, List.set_cons_zero, List.take_add_one, hpiece, Option.toList_some,
      List.map_append, List.append_assoc]
    rfl

/-- A table that is filled is put together to the metadata. -/
theorem Filled.assembled (h : t.Filled m (pieces 16384 m).length) (hm : m ≠ []) :
    t.isMetadataComplete = true ∧ t.assembled = m := by
  have htable : t.metadata_pieces = (pieces 16384 m).map some := by
    rw [h.table, List.take_length, Nat.sub_self, List.replicate_zero, List.append_nil]
  constructor
  · rw [isMetadataComplete, htable, pieces_of_ne_nil (by decide) hm, List.map_cons,
      Bool.and_eq_true, List.all_eq_true]
    refine ⟨rfl, ?_⟩
    rintro _ hp
    obtain ⟨p, -, rfl⟩ := List.mem_map.mp (List.map_cons ▸ hp)
    rfl
  · rw [PieceTable.assembled, htable, List.flatMap_map]
    show (pieces 16384 m).flatMap id = m
    rw [List.flatMap_id, flatten_pieces (by decide)]

theorem filled_request (hm : m ≠ []) {id : Nat} (hid : isOctet (.int id) = true) (hne : id ≠ 0)
    (hpieces : (ceilPieces m.length).toNat = (pieces 16384 m).length) :
    (step {} (.request (some (.int id)) (some (.int m.length)))).Filled m 0 := by
  have htrue : Torrent.truth (.int id) = true ∧ Torrent.truth (.int m.length) = true := by
    have hlength : m.length ≠ 0 := fun h => hm (List.length_eq_zero_iff.mp h)
    rw [Torrent.truth, Torrent.truth, decide_eq_true_eq, decide_eq_true_eq]
    omega
  rw [step, requestMetadataPieces]
  dsimp only
  rw [if_pos htrue]
  constructor
  · refine ⟨_, List.nil_append _, rfl, ?_, ?_⟩
    · rw [← hpieces, Int.toNat_of_nonneg]
      unfold ceilPieces
      omega
    · rw [Option.any_some, hid]
  · rw [← hpieces]
    rfl

end PieceTable

/-- The last piece completes the exchange. -/
theorem step_last {fuel : Nat} {d : PyObj} (h : x.toPieceTable.Filled m k)
    (hpiece : (pieces 16384 m)[k]? = some piece) (hlast : k + 1 = (pieces 16384 m).length)
    (hm : m ≠ []) (hcheck : checkMetadata fuel x.info_hash m = some d) :
    (x.step fuel (.piece 0 piece)).completed = true ∧
      (x.step fuel (.piece 0 piece)).metadata_dict = some d := by
  have hfilled := h.storePiece hpiece
  rw [hlast] at hfilled
  obtain ⟨hcomplete, hassembled⟩ := hfilled.assembled hm
  have hby : x.assembledBy (.piece 0 piece) = some m := by
    rw [PieceTable.assembledBy, h.awaited (by omega)]
    dsimp only
    rw [if_pos hcomplete, hassembled]
  rw [AsyncMetadataExchange.step_eq, hby]
  dsimp only
  rw [hcheck]
  exact ⟨rfl, rfl⟩

end Filling

namespace HonestPeer

variable {info : InfoDict} {peer : HonestPeer info} {fuel i : Nat} {piece : Bytes}

/-- What the client takes from the extended handshake. -/
theorem negotiate_eq (peer : HonestPeer info) : negotiate (normalDict peer.handshake) =
    { ut_metadata_id := some (.int peer.ut_metadata_id)
      metadata_size := some (.int info.metadata.length) } := by
  have hm := getKey_normalDict peer.handshake_stored "m"
  rw [peer.announces_extensions, Option.map_some, normal_dict] at hm
  have hid := getKey_normalDict peer.extensions_stored "ut_metadata"
  rw [peer.announces_id, Option.map_some, normal] at hid
  have hsize := getKey_normalDict peer.handshake_stored "metadata_size"
  rw [peer.announces_size, Option.map_some, normal] at hsize
  rw [negotiate, hm]
  dsimp only
  rw [hid, hsize]

theorem receiveExtendedHandshake_eq (peer : HonestPeer info) (hbefore : peer.before.length < 10)
    (hfuel : fuelFor peer.handshake_text ≤ fuel) :
    receiveExtendedHandshake fuel 10 (peer.early ++ peer.answer extendedHandshake) =
      ({ ut_metadata_id := some (.int peer.ut_metadata_id)
         metadata_size := some (.int info.metadata.length) }, frames peer.after) := by
  obtain ⟨rounds, hrounds⟩ := Nat.exists_eq_add_of_lt hbefore
  have hlength : (20 :: 0 :: peer.handshake_text).length < 2 ^ 32 := peer.handshake_length
  have hfuel' : fuelFor (peer.handshake_text ++ []) ≤ fuel := by rwa [List.append_nil]
  have hdecode := decode_stored peer.handshake_stored peer.handshake_encoded [] hfuel'
  rw [List.append_nil] at hdecode
  rw [peer.negotiates, hrounds, Nat.add_assoc, receiveExtendedHandshake_frames peer.before_ordinary,
    receiveExtendedHandshake, extended, readMessage_frame hlength]
  dsimp only
  rw [if_pos ⟨rfl, rfl⟩, List.drop_succ_cons, List.drop_succ_cons, List.drop_zero, hdecode]
  dsimp only
  rw [peer.negotiate_eq]

/-- Behind ten other messages the extended handshake is not looked for any more. -/
theorem receiveExtendedHandshake_late (peer : HonestPeer info) (hbefore : 10 ≤ peer.before.length) :
    (receiveExtendedHandshake fuel 10 (peer.early ++ peer.answer extendedHandshake)).1 =
      { ut_metadata_id := none, metadata_size := none } := by
  have hlength : (peer.before.take 10).length = 10 := by
    rw [List.length_take, Nat.min_eq_left hbefore]
  have hordinary : ∀ payload ∈ peer.before.take 10, Ordinary payload :=
    fun payload hp => peer.before_ordinary payload (List.mem_of_mem_take hp)
  have hsplit : frames peer.before =
      frames (peer.before.take 10) ++ frames (peer.before.drop 10) := by
    rw [frames, frames, frames, ← List.flatMap_append, List.take_append_drop]
  have hskip : receiveExtendedHandshake fuel ((peer.before.take 10).length + 0)
      (frames (peer.before.take 10) ++ (frames (peer.before.drop 10) ++
        (extended 0 peer.handshake_text ++ frames peer.after))) =
      receiveExtendedHandshake fuel 0 (frames (peer.before.drop 10) ++
        (extended 0 peer.handshake_text ++ frames peer.after)) :=
    receiveExtendedHandshake_frames hordinary 0 _
  rw [hlength] at hskip
  rw [peer.negotiates, hsplit, List.append_assoc, hskip]
  rfl

theorem length_piece_le (hpiece : (pieces 16384 info.metadata)[i]? = some piece) :
    piece.length ≤ 16384 := by
  rw [getElem?_pieces (by decide)] at hpiece
  split at hpiece
  · obtain rfl := Option.some.inj hpiece
    exact List.length_take_le _ _
  · cases hpiece

theorem length_data_lt (peer : HonestPeer info)
    (hpiece : (pieces 16384 info.metadata)[i]? = some piece) :
    (20 :: advertisedId :: (peer.header_text i ++ piece)).length < 2 ^ 32 := by
  have hle := length_piece_le hpiece
  have hheader := peer.header_length i (List.getElem?_eq_some_iff.mp hpiece).1
  simp only [List.length_cons, List.length_append]
  omega

/-- The data message is taken by a client that knows the peer under the id of the client. -/
theorem pieceResponse_data (peer : HonestPeer info) (hid : peer.ut_metadata_id = 1)
    (hfuel : fuelFor (peer.header_text i ++ piece) ≤ fuel) :
    pieceResponse fuel (some (.int peer.ut_metadata_id)) i
      (20 :: advertisedId :: (peer.header_text i ++ piece)) = .data piece := by
  have hdecode := decode_stored (peer.header_stored i) (peer.header_encoded i) piece hfuel
  have htype := getKey_normalDict (peer.header_stored i) "msg_type"
  rw [peer.header_msg_type, Option.map_some, normal] at htype
  have hindex := getKey_normalDict (peer.header_stored i) "piece"
  rw [peer.header_piece, Option.map_some, normal] at hindex
  have hslice := slice_append (20 :: advertisedId :: peer.header_text i) piece []
  rw [pieceResponse, hid, if_pos ⟨rfl, rfl⟩, List.drop_succ_cons, List.drop_succ_cons,
    List.drop_zero, hdecode]
  dsimp only
  rw [htype, hindex, if_pos ⟨isNumber_self 1, isNumber_self i⟩]
  congr 1
  rw [List.append_nil, List.cons_append, List.cons_append] at hslice
  convert hslice using 2
  · simp only [List.length_cons]
    omega
  · simp only [List.length_cons, List.length_append]
    omega

/-- Every other client does not know it as such. -/
theorem pieceResponse_other (peer : HonestPeer info) (hid : peer.ut_metadata_id ≠ 1)
    (payload : Bytes) :
    pieceResponse fuel (some (.int peer.ut_metadata_id)) i (20 :: advertisedId :: payload) =
      .other := by
  rw [pieceResponse, if_neg]
  rintro ⟨-, hext⟩
  rw [isNumber, decide_eq_true_eq] at hext
  exact hid (Int.ofNat.inj hext)

theorem exists_requestMessage (peer : HonestPeer info) (i : Nat) :
    ∃ req_msg, requestMessage (some (.int peer.ut_metadata_id)) i = some req_msg := by
  have hoctet : isOctet (.int peer.ut_metadata_id) = true := by
    have hrange := peer.id_range
    rw [isOctet, decide_eq_true_eq]
    omega
  unfold requestMessage
  dsimp only
  rw [if_pos hoctet]
  exact ⟨_, rfl⟩

/-- What a request for a piece comes to, with messages that are not for an extension in the
stream. -/
theorem requestMetadataPiece_eq (peer : HonestPeer info)
    (hpiece : (pieces 16384 info.metadata)[i]? = some piece)
    (hfuel : fuelFor (peer.header_text i ++ piece) ≤ fuel) {pending : List Bytes}
    (hpending : ∀ payload ∈ pending, ForNoExtension payload) :
    requestMetadataPiece fuel peer.toPeer (some (.int peer.ut_metadata_id)) i (frames pending) =
      (if peer.ut_metadata_id = 1 then .piece 0 piece else .failed 0, []) := by
  obtain ⟨req_msg, hreq⟩ := peer.exists_requestMessage i
  have hid : peer.ut_metadata_id ≠ 0 := Nat.ne_of_gt peer.id_range.1
  have hskipped : ∀ payload ∈ pending ++ peer.others i, payload.length < 2 ^ 32 ∧
      pieceResponse fuel (some (.int peer.ut_metadata_id)) i payload = .other := by
    intro payload hp
    have hno : ForNoExtension payload :=
      (List.mem_append.mp hp).elim (hpending payload) (peer.others_ordinary i payload)
    exact ⟨hno.2, pieceResponse_of_forNoExtension hno hid⟩
  have hdata := peer.length_data_lt hpiece
  have hstream : frames pending ++ peer.answer req_msg = frames (pending ++ peer.others i) ++
      frames [20 :: advertisedId :: (peer.header_text i ++ piece)] := by
    rw [peer.answers i piece req_msg hpiece hreq, frames, frames, frames, frames,
      List.flatMap_append, List.flatMap_singleton, List.append_assoc, extended]
  rw [requestMetadataPiece, hreq]
  dsimp only
  rw [hstream]
  generalize hn : (frames (pending ++ peer.others i) ++
    frames [20 :: advertisedId :: (peer.header_text i ++ piece)]).length = n
  have hle : (pending ++ peer.others i).length + 1 ≤ n := by
    have hfirst := length_frames_le (pending ++ peer.others i)
    have hlast := length_frames_le [20 :: advertisedId :: (peer.header_text i ++ piece)]
    refine (Nat.add_le_add hfirst hlast).trans (le_of_eq ?_)
    rw [← hn]
    exact List.length_append.symm
  obtain ⟨k, rfl⟩ := Nat.exists_eq_add_of_le hle
  rw [Nat.add_assoc, waitForPieceResponse_frames hskipped, Nat.add_comm 1 k]
  by_cases hone : peer.ut_metadata_id = 1
  · rw [waitForPieceResponse, frames, List.flatMap_singleton, ← List.append_nil (frame _),
      readMessage_frame hdata]
    dsimp only
    rw [peer.pieceResponse_data hone hfuel, if_pos hone]
  · rw [waitForPieceResponse_frames_end (fun payload hp => ?_) (by simp), if_neg hone]
    obtain rfl := List.mem_singleton.mp hp
    exact ⟨hdata, peer.pieceResponse_other hone _⟩

/-- Fuel for every message and for the metadata. -/
def enough (info : InfoDict) : Nat := fuelFor info.metadata + (3 * 2 ^ 32 + 1)

theorem fuelFor_le {b : Bytes} (hb : b.length < 2 ^ 32) (hfuel : enough info ≤ fuel) :
    fuelFor b ≤ fuel := by
  unfold enough at hfuel
  have hfuel' : 3 * 2 ^ 32 + 1 ≤ fuel := by omega
  rw [fuelFor]
  omega

/-- A round of the loop. -/
theorem requestLoop_succ (peer : HonestPeer info) (hfuel : enough info ≤ fuel)
    (hpiece : (pieces 16384 info.metadata)[i]? = some piece) {pending : List Bytes}
    (hpending : ∀ payload ∈ pending, ForNoExtension payload) (left : Nat)
    (x : AsyncMetadataExchange) :
    requestLoop fuel peer.toPeer (some (.int peer.ut_metadata_id)) (left + 1) i (frames pending) x =
      requestLoop fuel peer.toPeer (some (.int peer.ut_metadata_id)) left (i + 1) (frames [])
        (x.step fuel (if peer.ut_metadata_id = 1 then .piece 0 piece else .failed 0)) := by
  have hlt := peer.length_data_lt hpiece
  have hdata : (peer.header_text i ++ piece).length < 2 ^ 32 := by
    simp only [List.length_cons] at hlt
    omega
  rw [requestLoop, peer.requestMetadataPiece_eq hpiece (fuelFor_le hdata hfuel) hpending]
  rfl

/-- A client that does not take the data messages gets nothing. -/
theorem completed_requestLoop (peer : HonestPeer info) (hone : peer.ut_metadata_id ≠ 1)
    (hfuel : enough info ≤ fuel) {left : Nat}
    (hleft : i + left = (pieces 16384 info.metadata).length) {pending : List Bytes}
    (hpending : ∀ payload ∈ pending, ForNoExtension payload)
    (x : AsyncMetadataExchange) :
    (requestLoop fuel peer.toPeer (some (.int peer.ut_metadata_id)) left i (frames pending)
      x).completed = x.completed := by
  induction left generalizing i pending x with
  | zero => rfl
  | succ left ih =>
    have hi : i < (pieces 16384 info.metadata).length := by omega
    rw [peer.requestLoop_succ hfuel (List.getElem?_eq_getElem hi) hpending, if_neg hone]
    exact ih (by omega) (List.forall_mem_nil _) _

/-- A client that takes them ends up with the info dictionary. -/
theorem requestLoop_eq (peer : HonestPeer info) (hone : peer.ut_metadata_id = 1)
    (hfuel : enough info ≤ fuel) {left : Nat}
    (hleft : i + (left + 1) = (pieces 16384 info.metadata).length)
    {pending : List Bytes} (hpending : ∀ payload ∈ pending, ForNoExtension payload)
    {x : AsyncMetadataExchange} (hfilled : x.toPieceTable.Filled info.metadata i)
    (hhash : x.info_hash = sha1 info.metadata) :
    let y := requestLoop fuel peer.toPeer (some (.int peer.ut_metadata_id)) (left + 1) i
      (frames pending) x
    y.completed = true ∧ y.metadata_dict = some (.dict info.entries) := by
  have henough : fuelFor info.metadata ≤ fuel := by
    unfold enough at hfuel
    omega
  have hcheck := info.checkMetadata_eq henough
  induction left generalizing i pending x with
  | zero =>
    have hpiece := List.getElem?_eq_getElem (by omega : i < (pieces 16384 info.metadata).length)
    rw [← hhash] at hcheck
    rw [peer.requestLoop_succ hfuel hpiece hpending, if_pos hone]
    exact step_last hfilled hpiece hleft info.metadata_ne_nil hcheck
  | succ left ih =>
    have hpiece := List.getElem?_eq_getElem (by omega : i < (pieces 16384 info.metadata).length)
    rw [peer.requestLoop_succ hfuel hpiece hpending, if_pos hone]
    refine ih (by omega) (List.forall_mem_nil _) ?_ ?_
    · rw [AsyncMetadataExchange.toPieceTable_step, PieceTable.step, hfilled.awaited (by omega)]
      exact hfilled.storePiece hpiece
    · rw [AsyncMetadataExchange.info_hash_step, hhash]

/-- The handshake of the peer has the right length and content. -/
theorem readexactly_greeting (peer : HonestPeer info) : ∃ handshake_data,
    readexactly 68 peer.greeting = some (handshake_data, peer.early) ∧
      validateHandshake (sha1 info.metadata) handshake_data = true := by
  refine ⟨19 :: ascii "BitTorrent protocol" ++ peer.reserved ++ sha1 info.metadata ++ peer.peer_id,
    ?_, ?_⟩
  · rw [peer.greets]
    refine readexactly_append ?_ _
    simp only [List.length_append, List.length_cons, peer.reserved_length, peer.peer_id_length,
      sha1_length]
    rfl
  · have hname : (19 :: ascii "BitTorrent protocol").length = 20 := rfl
    have hfront : (19 :: ascii "BitTorrent protocol" ++ peer.reserved).length = 28 := by
      rw [List.length_append, hname, peer.reserved_length]
    have hhash : (19 :: ascii "BitTorrent protocol" ++ peer.reserved ++
        sha1 info.metadata).length = 48 := by
      rw [List.length_append, hfront, sha1_length]
    rw [validateHandshake, decide_eq_true_eq]
    constructor
    · rw [List.append_assoc, List.append_assoc, List.take_left' hname]
      rfl
    · rw [List.take_left' hhash, List.drop_left' hfront]

/-- With the extended handshake among the first ten messages the client asks for the pieces. -/
theorem connectAndFetch_eq (peer : HonestPeer info) (hbefore : peer.before.length < 10)
    (hfuel : enough info ≤ fuel) :
    connectAndFetch fuel (sha1 info.metadata) peer.toPeer =
      requestLoop fuel peer.toPeer (some (.int peer.ut_metadata_id))
        (pieces 16384 info.metadata).length 0 (frames peer.after)
        ((AsyncMetadataExchange.new (sha1 info.metadata)).step fuel
          (.request (some (.int peer.ut_metadata_id)) (some (.int info.metadata.length)))) := by
  obtain ⟨handshake_data, hread, hvalid⟩ := peer.readexactly_greeting
  have hlength := peer.handshake_length
  have htext : fuelFor peer.handshake_text ≤ fuel := fuelFor_le (by omega) hfuel
  have htrue : Torrent.truth (.int peer.ut_metadata_id) = true ∧
      Torrent.truth (.int info.metadata.length) = true := by
    have hrange := peer.id_range
    have hpos := List.length_pos_iff.mpr info.metadata_ne_nil
    rw [Torrent.truth, Torrent.truth, decide_eq_true_eq, decide_eq_true_eq]
    omega
  rw [connectAndFetch, hread]
  dsimp only
  rw [if_pos hvalid, peer.receiveExtendedHandshake_eq hbefore htext]
  dsimp only
  rw [Option.any_some, Option.any_some, if_pos htrue, numPieces]
  dsimp only
  rw [info.ceilPieces_length]

theorem connectAndFetch_late (peer : HonestPeer info) (hbefore : 10 ≤ peer.before.length) :
    connectAndFetch fuel (sha1 info.metadata) peer.toPeer = .new (sha1 info.metadata) := by
  obtain ⟨handshake_data, hread, hvalid⟩ := peer.readexactly_greeting
  rw [connectAndFetch, hread]
  dsimp only
  rw [if_pos hvalid, peer.receiveExtendedHandshake_late hbefore]
  rfl

/-- A client that takes the data messages completes the exchange. -/
theorem connectAndFetch_completed (peer : HonestPeer info) (hone : peer.ut_metadata_id = 1)
    (hbefore : peer.before.length < 10) (hfuel : enough info ≤ fuel) :
    (connectAndFetch fuel (sha1 info.metadata) peer.toPeer).completed = true ∧
      (connectAndFetch fuel (sha1 info.metadata) peer.toPeer).metadata_dict =
        some (.dict info.entries) := by
  have hoctet : isOctet (.int peer.ut_metadata_id) = true := by
    rw [hone]
    decide
  have hfilled := PieceTable.filled_request info.metadata_ne_nil hoctet (by omega)
    info.ceilPieces_length
  have hpos : (pieces 16384 info.metadata).length ≠ 0 := by
    rw [pieces_of_ne_nil (by decide) info.metadata_ne_nil]
    exact Nat.succ_ne_zero _
  obtain ⟨left, hleft⟩ := Nat.exists_eq_succ_of_ne_zero hpos
  rw [peer.connectAndFetch_eq hbefore hfuel, hleft]
  refine peer.requestLoop_eq hone hfuel (by omega) peer.after_ordinary ?_
    AsyncMetadataExchange.info_hash_step
  rw [AsyncMetadataExchange.toPieceTable_step]
  exact hfilled

/-- What the client returns. -/
theorem fetchMetadata_eq (peer : HonestPeer info) (hfuel : enough info ≤ fuel) :
    fetchMetadata fuel (sha1 info.metadata) peer.toPeer =
      if peer.ut_metadata_id = 1 ∧ peer.before.length < 10 then
        validateMetadata (sha1 info.metadata) (.dict info.entries)
      else none := by
  rw [fetchMetadata]
  by_cases hbefore : peer.before.length < 10
  · by_cases hone : peer.ut_metadata_id = 1
    · obtain ⟨hcompleted, hdict⟩ := peer.connectAndFetch_completed hone hbefore hfuel
      rw [if_pos hcompleted, hdict, if_pos ⟨hone, hbefore⟩, Option.bind_some]
    · have hcompleted :
          (connectAndFetch fuel (sha1 info.metadata) peer.toPeer).completed = false := by
        rw [peer.connectAndFetch_eq hbefore hfuel,
          peer.completed_requestLoop hone hfuel (by omega) peer.after_ordinary]
        rfl
      rw [hcompleted, if_neg Bool.false_ne_true, if_neg fun h => hone h.1]
  · have hcond : ¬(peer.ut_metadata_id = 1 ∧ peer.before.length < 10) := fun h => hbefore h.2
    rw [peer.connectAndFetch_late (Nat.le_of_not_lt hbefore), if_neg hcond]
    rfl

end HonestPeer

/-- The encoding of an `info` entry within the info dictionary has the hash of the metadata. -/
def InfoDict.HashedInside (info : InfoDict) : Prop := ∃ info_dict encoded,
  Torrent.getKey info.entries "info" = some info_dict ∧ encode info_dict = .ok encoded ∧
    sha1 encoded = sha1 info.metadata

/-- The client obtains the info dictionary from the peer. -/
def Fetches (info : InfoDict) (peer : HonestPeer info) : Prop :=
  ∃ enough, ∀ fuel, enough ≤ fuel →
    fetchMetadata fuel (sha1 info.metadata) peer.toPeer = some (.dict info.entries)

/-- The validation at the end lets only the empty dictionary through, and one that has its own hash
inside. -/
theorem validateMetadata_eq_some (info : InfoDict) :
    validateMetadata (sha1 info.metadata) (.dict info.entries) = some (.dict info.entries) ↔
      info.entries = [] ∨ info.HashedInside := by
  have hhash : (sha1 info.metadata).isEmpty = false := by
    rw [List.isEmpty_eq_false_iff, ← List.length_pos_iff, sha1_length]
    decide
  by_cases hentries : info.entries = []
  · rw [hentries]
    exact iff_of_true rfl (.inl rfl)
  have htrue : Torrent.truth (.dict info.entries) = true := by
    rw [Torrent.truth, List.isEmpty_eq_false_iff.mpr hentries]
    rfl
  rw [validateMetadata, if_pos htrue, hhash]
  constructor
  · intro h
    split at h
    · cases h
    · next info_dict hinfo =>
      split at h
      · next encoded hencoded =>
        split at h
        · next hsame =>
          exact .inr ⟨info_dict, encoded, hinfo, hencoded, hsame.resolve_left Bool.false_ne_true⟩
        · cases h
      · cases h
  · intro h
    obtain ⟨info_dict, encoded, hinfo, hencoded, hsame⟩ := h.resolve_left hentries
    rw [hinfo]
    dsimp only
    rw [hencoded]
    exact if_pos (.inr hsame)

theorem fetches_iff_validate {info : InfoDict} {peer : HonestPeer info} : Fetches info peer ↔
    (peer.ut_metadata_id = 1 ∧ peer.before.length < 10) ∧
      validateMetadata (sha1 info.metadata) (.dict info.entries) = some (.dict info.entries) := by
  constructor
  · rintro ⟨enough, h⟩
    have hfetch := h (max enough (HonestPeer.enough info)) (Nat.le_max_left _ _)
    rw [peer.fetchMetadata_eq (Nat.le_max_right _ _)] at hfetch
    split at hfetch
    · next hcond => exact ⟨hcond, hfetch⟩
    · cases hfetch
  · rintro ⟨hcond, hvalid⟩
    refine ⟨HonestPeer.enough info, fun fuel hfuel => ?_⟩
    rw [peer.fetchMetadata_eq hfuel, if_pos hcond, hvalid]

/-- The client obtains the info dictionary if and only if the peer has chosen the same id as the
client, sends its extended handshake in time, and the dictionary is empty or has its own hash
inside. -/
theorem fetches_iff {info : InfoDict} {peer : HonestPeer info} : Fetches info peer ↔
    peer.ut_metadata_id = 1 ∧ peer.before.length < 10 ∧
      (info.entries = [] ∨ info.HashedInside) := by
  rw [fetches_iff_validate, validateMetadata_eq_some, and_assoc]

theorem stored_cons {d : Torrent.PyDict} (h : Stored d) {key : Bytes} {v : PyObj}
    (hv : Bencodable v) (hkey : Key.bytes key ∉ d.map Prod.fst) :
    Stored ((.bytes key, v) :: d) where
  octets := List.forall_mem_cons.mpr ⟨⟨key, rfl⟩, h.octets⟩
  nodup := List.nodup_cons.mpr ⟨hkey, h.nodup⟩
  values := List.forall_mem_cons.mpr ⟨hv, h.values⟩

theorem stored_smallInfo : Stored [(.bytes (ascii "a"), .int 1)] :=
  stored_cons stored_nil trivial List.not_mem_nil

theorem encode_smallInfo : encode (.dict [(.bytes (ascii "a"), .int 1)]) = .ok smallInfo := rfl

/-- The info dictionary `{b"a": 1}`. -/
def smallInfoDict : InfoDict where
  metadata := smallInfo
  canonical := canonical_of_encode stored_smallInfo.bencodable encode_smallInfo
  entries := [(.bytes (ascii "a"), .int 1)]
  decoded := stored_smallInfo.decode_written encode_smallInfo

namespace SmallPeer

def extensions (n : Nat) : Torrent.PyDict := [(.bytes (ascii "ut_metadata"), .int n)]

def handshake (n : Nat) : Torrent.PyDict :=
  [(.bytes (ascii "m"), .dict (extensions n)), (.bytes (ascii "metadata_size"), .int 8)]

def handshakeText (n : Nat) : Bytes :=
  ascii "d" ++ (encodeString (ascii "m") ++ (ascii "d" ++
    (encodeString (ascii "ut_metadata") ++ encodeInteger n ++ []) ++ ascii "e") ++
    (encodeString (ascii "metadata_size") ++ encodeInteger 8 ++ [])) ++ ascii "e"

def header (i : Nat) : Torrent.PyDict :=
  [(.bytes (ascii "msg_type"), .int 1), (.bytes (ascii "piece"), .int i),
    (.bytes (ascii "total_size"), .int 8)]

def headerText (i : Nat) : Bytes :=
  ascii "d" ++ (encodeString (ascii "msg_type") ++ encodeInteger 1 ++
    (encodeString (ascii "piece") ++ encodeInteger i ++
      (encodeString (ascii "total_size") ++ encodeInteger 8 ++ []))) ++ ascii "e"

/-- It sends its extended handshake at once and answers every request with the only piece. -/
def peer (n : Nat) : Peer where
  greeting := (19 :: ascii "BitTorrent protocol" ++ List.replicate 8 0 ++ sha1 smallInfo ++
    List.replicate 20 0) ++ extended 0 (handshakeText n)
  answer req_msg := if extId (req_msg.drop 4) = 0 then []
    else extended advertisedId (headerText 0 ++ smallInfo)

theorem stored_extensions (n : Nat) : Stored (extensions n) :=
  stored_cons stored_nil trivial List.not_mem_nil

theorem stored_handshake (n : Nat) : Stored (handshake n) := by
  have hsize : Stored [(.bytes (ascii "metadata_size"), .int 8)] :=
    stored_cons stored_nil trivial List.not_mem_nil
  exact stored_cons hsize (stored_extensions n).bencodable (by decide)

theorem stored_header (i : Nat) : Stored (header i) := by
  have htotal : Stored [(.bytes (ascii "total_size"), .int 8)] :=
    stored_cons stored_nil trivial List.not_mem_nil
  have hpiece : Stored [(.bytes (ascii "piece"), .int i), (.bytes (ascii "total_size"), .int 8)] :=
    stored_cons htotal trivial (by decide)
  exact stored_cons hpiece trivial
    (show Key.bytes (ascii "msg_type") ∉
      [Key.bytes (ascii "piece"), Key.bytes (ascii "total_size")] by decide)

theorem encode_handshake (n : Nat) : encode (.dict (handshake n)) = .ok (handshakeText n) := rfl

theorem encode_header (i : Nat) : encode (.dict (header i)) = .ok (headerText i) := rfl

theorem extId_extended (ext_id : UInt8) (payload : Bytes) :
    extId ((extended ext_id payload).drop 4) = ext_id := by
  rw [extended, frame, List.drop_left' (bigEndian_length 4 _)]
  rfl

theorem extId_requestMessage {n i : Nat} (hn : n = 1 ∨ n = 3) {req_msg : Bytes}
    (h : requestMessage (some (.int n)) i = some req_msg) : extId (req_msg.drop 4) ≠ 0 := by
  unfold requestMessage at h
  dsimp only at h
  split at h
  · obtain rfl := Option.some.inj h
    rw [extId_extended]
    obtain rfl | rfl := hn <;> decide
  · cases h

theorem index_eq_zero {i : Nat} {piece : Bytes} (h : (pieces 16384 smallInfo)[i]? = some piece) :
    i = 0 ∧ piece = smallInfo := by
  rw [pieces_of_length_le (by decide) (by decide)] at h
  cases i with
  | zero => exact ⟨rfl, (Option.some.inj h).symm⟩
  | succ i => cases h

theorem answers {n i : Nat} (hn : n = 1 ∨ n = 3) {piece req_msg : Bytes}
    (hpiece : (pieces 16384 smallInfo)[i]? = some piece)
    (hreq : requestMessage (some (.int n)) i = some req_msg) :
    (peer n).answer req_msg = frames [] ++ extended advertisedId (headerText i ++ piece) := by
  obtain ⟨rfl, rfl⟩ := index_eq_zero hpiece
  exact if_neg (extId_requestMessage hn hreq)

theorem length_headerText {i : Nat} (hi : i < (pieces 16384 smallInfo).length) :
    (headerText i).length + 16386 < 2 ^ 32 := by
  obtain ⟨rfl, -⟩ := index_eq_zero (List.getElem?_eq_getElem hi)
  decide

theorem id_range {n : Nat} (hn : n = 1 ∨ n = 3) : 1 ≤ n ∧ n ≤ 255 := by
  omega

theorem length_handshakeText {n : Nat} (hn : n = 1 ∨ n = 3) :
    (handshakeText n).length + 2 < 2 ^ 32 := by
  obtain rfl | rfl := hn <;> decide

theorem negotiates (n : Nat) : extended 0 (handshakeText n) ++ (peer n).answer extendedHandshake =
    frames [] ++ (extended 0 (handshakeText n) ++ frames []) := by
  have hid : extId (extendedHandshake.drop 4) = 0 := extId_extended 0 _
  have hanswer : (peer n).answer extendedHandshake = [] := by
    rw [peer]
    dsimp only
    rw [if_pos hid]
  rw [hanswer]
  rfl

end SmallPeer

/-- A peer that has only this dictionary. -/
def smallPeer (n : Nat) (hn : n = 1 ∨ n = 3) : HonestPeer smallInfoDict where
  toPeer := SmallPeer.peer n
  ut_metadata_id := n
  id_range := SmallPeer.id_range hn
  reserved := List.replicate 8 0
  reserved_length := List.length_replicate
  peer_id := List.replicate 20 0
  early := extended 0 (SmallPeer.handshakeText n)
  greets := rfl
  peer_id_length := List.length_replicate
  before := []
  before_ordinary := List.forall_mem_nil _
  extensions := SmallPeer.extensions n
  extensions_stored := SmallPeer.stored_extensions n
  announces_id := rfl
  handshake := SmallPeer.handshake n
  handshake_stored := SmallPeer.stored_handshake n
  announces_extensions := rfl
  announces_size := rfl
  handshake_text := SmallPeer.handshakeText n
  handshake_encoded := SmallPeer.encode_handshake n
  handshake_length := SmallPeer.length_handshakeText hn
  after := []
  after_ordinary := List.forall_mem_nil _
  negotiates := SmallPeer.negotiates n
  others _ := []
  others_ordinary _ := List.forall_mem_nil _
  header := SmallPeer.header
  header_stored := SmallPeer.stored_header
  header_msg_type _ := rfl
  header_piece _ := rfl
  header_total_size _ := rfl
  header_text := SmallPeer.headerText
  header_encoded := SmallPeer.encode_header
  header_length _ := SmallPeer.length_headerText
  answers _ _ _ := SmallPeer.answers hn

/-- The dictionary is not obtained from the peer that has chosen the id 3, and neither from the one
with the id of the client. -/
theorem not_fetches_smallPeer : ¬Fetches smallInfoDict (smallPeer 3 (.inr rfl)) ∧
    ¬Fetches smallInfoDict (smallPeer 1 (.inl rfl)) := by
  constructor
  · intro h
    have hone : (smallPeer 3 (.inr rfl)).ut_metadata_id = 1 := (fetches_iff_validate.mp h).1.1
    exact absurd hone (by decide)
  · intro h
    have hvalid := (fetches_iff_validate.mp h).2
    cases hvalid

end Metadata

end Ccbt

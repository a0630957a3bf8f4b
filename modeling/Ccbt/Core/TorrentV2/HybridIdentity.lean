import Ccbt.Core.TorrentV2.Hybrid
import Ccbt.Core.TorrentV2.HybridPieces
import Ccbt.Core.TorrentV2.Written

/-!
# The v1 identity of a hybrid torrent

The v1 info hash of a hybrid torrent is the hash of its v1 fields, for the parser as for
the generator, and the parser gives the info dictionary back as it was.
-/

namespace Ccbt

open Python Torrent Bencode

namespace TorrentV2

/-! ### The torrents of the generator -/

/-- What `generate_hybrid_torrent` writes is read back. -/
theorem generateHybridTorrent_decode {s : Source} {o : Options} {g : Generated}
    (h : generateHybridTorrent s o = .ok g) :
    Stored g.info ∧ ∃ data,
      (decode g.torrent (fuelFor g.torrent) ⟨0, false⟩).1 = .ok (.dict data) ∧
        getKey data "info" = some (.dict (normalDict g.info)) := by
  obtain ⟨w, hw, hinfo, htorrent, -⟩ := generateHybridTorrent_spec h
  obtain ⟨-, -, tree, -, htree⟩ := prepare_spec hw
  have hstored : Stored g.info := by
    rw [hinfo]
    exact stored_hybridInfoDict (stored_childrenToDict stored_nil htree)
  have htorrentDict := stored_torrentDict o hstored
  refine ⟨hstored, normalDict (torrentDict o g.info), htorrentDict.decode_written htorrent, ?_⟩
  have hlookup : (torrentDict o g.info).lookup (textName "info") = some (.dict g.info) := rfl
  have hread := htorrentDict.lookup_normalDict (textName "info")
  rw [hlookup, Option.map_some, normal_dict] at hread
  exact hread

/-! ### The v1 fields of what has been read back -/

theorem fields_filterMap {info : PyDict} (hinfo : Stored info) (names : List String) :
    Fields names (names.filterMap fun key => (getKey info key).map fun v => (textName key, v)) := by
  induction names with
  | nil => exact Fields.nil []
  | cons name names ih =>
    rw [List.filterMap_cons]
    cases hvalue : getKey info name with
    | none => exact (Fields.nil [name]).append ih
    | some v =>
      have hmem := (lookup_eq_some_iff hinfo.nodup).mp hvalue
      exact ih.cons name (hinfo.values _ hmem)

theorem stored_v1InfoDict {info : PyDict} (hinfo : Stored info) : Stored (v1InfoDict info) :=
  (fields_filterMap hinfo v1Keys).stored (by decide)

theorem v1InfoDict_normalDict {info : PyDict} (hinfo : Stored info) :
    v1InfoDict (normalDict info) = normalEntries (v1InfoDict info) := by
  rw [(stored_v1InfoDict hinfo).normalEntries_eq, v1InfoDict, v1InfoDict, List.map_filterMap]
  apply List.filterMap_congr
  intro key _
  rw [getKey, hinfo.lookup_normalDict, Option.map_map, Option.map_map]
  rfl

/-- The v1 part is encoded alike before it is written and after it is read. -/
theorem encode_v1InfoDict_normalDict {info : PyDict} (hinfo : Stored info) :
    encode (.dict (v1InfoDict (normalDict info))) = encode (.dict (v1InfoDict info)) := by
  have hv1 := stored_v1InfoDict hinfo
  have htext : ∀ e ∈ normalEntries (v1InfoDict info), e.1.isText = true := by
    intro e he
    rw [normalEntries_eq_map] at he
    obtain ⟨_, -, rfl⟩ := List.mem_map.mp he
    rfl
  calc encode (.dict (v1InfoDict (normalDict info)))
      = encode (.dict (normalEntries (v1InfoDict info))) := by rw [v1InfoDict_normalDict hinfo]
    _ = encode (.dict (normalDict (v1InfoDict info))) := (encode_sortOn htext).symm
    _ = encode (.dict (v1InfoDict info)) := by
      rw [← normal_dict, encode_normal hv1.bencodable]

/-! ### The identity -/

/-- `parse_hybrid` puts the info dictionary back; the v1 hashes that it returns are the hash of
the v1 fields, which is the one that the generator reports for what it writes. -/
theorem hybridIdentity (coerceInt : Bytes → Option Int) (interp : Interpreter) (n : Nat)
    (data info : PyDict) :
    (∀ r info', parseHybrid coerceInt interp n data info = some (r, info') → info' = info) ∧
    (∀ v1 v2 info', parseHybrid coerceInt interp n data info = some (.ok (v1, v2), info') →
      ∃ b, encode (.dict (v1InfoDict info)) = .ok b ∧ v2.infoHashV1 = some (sha1 b) ∧
        v1.infoHash = sha1 b) ∧
    (∀ s o g, generateHybridTorrent s o = .ok g → ∃ data info,
      (decode g.torrent (fuelFor g.torrent) ⟨0, false⟩).1 = .ok (.dict data) ∧
        getKey data "info" = some (.dict info) ∧
        ∀ v1 v2 info', parseHybrid coerceInt interp n data info = some (.ok (v1, v2), info') →
          g.infoHashV1 = some v1.infoHash ∧ v2.infoHashV1 = g.infoHashV1) := by
  have hreturns : ∀ data info v1 v2 info',
      parseHybrid coerceInt interp n data info = some (.ok (v1, v2), info') →
      ∃ b, encode (.dict (v1InfoDict info)) = .ok b ∧ v2.infoHashV1 = some (sha1 b) ∧
        v1.infoHash = sha1 b := by
    intro data info v1 v2 info' h
    obtain ⟨b, hb, hv1, hv2⟩ := ((hybrid_spec (parseHybrid_version h)).2 v1 v2 info' h).2.infoHash
    exact ⟨b, hb, hv2, hv1⟩
  refine ⟨(info_eq coerceInt interp n data info).2, hreturns data info, ?_⟩
  intro s o g h
  obtain ⟨hstored, data, hdata, hinfo⟩ := generateHybridTorrent_decode h
  refine ⟨data, normalDict g.info, hdata, hinfo, ?_⟩
  intro v1 v2 info' hcall
  obtain ⟨b, hb, hv2, hv1⟩ := hreturns _ _ _ _ _ hcall
  obtain ⟨w, -, hg, -, hlen, hhash⟩ := generateHybridTorrent_spec h
  have hpieces : hasKey g.info "pieces" = true := by
    rw [hg]
    rfl
  rw [encode_v1InfoDict_normalDict hstored] at hb
  have hreported : g.infoHashV1 = some (sha1 b) := by
    simpa [calculateInfoHashV1, hb, hpieces] using hhash.symm
  rw [hreported, hv1, hv2]
  exact ⟨rfl, rfl⟩

/-! ### The whole info dictionary -/

/-- `parse_hybrid` on the small torrent where the nested call raises a `RecursionError`. -/
def smallHybridRun : Outcome (TorrentInfo × TorrentV2Info) :=
  parseHybrid (fun _ => none) ⟨true, fun _ _ => true⟩ 1 smallHybrid smallHybridInfo

theorem smallHybridRun_eq : ∃ v1 v2, smallHybridRun = some (.ok (v1, v2), smallHybridInfo) := by
  have hok : smallHybridRun.map (fun r => r.1.isOk) = some true := by decide +kernel
  have hinfo := (info_eq (fun _ => none) ⟨true, fun _ _ => true⟩ 1 smallHybrid smallHybridInfo).2
  rcases hrun : smallHybridRun with _ | ⟨_ | ⟨v1, v2⟩, info'⟩
  · rw [hrun] at hok
    cases hok
  · rw [hrun] at hok
    cases hok
  · rw [hinfo _ _ hrun]
    exact ⟨v1, v2, rfl⟩

/-- None of its hashes is the hash of its info dictionary. -/
theorem smallHybrid_hashes : getKey smallHybrid "info" = some (.dict smallHybridInfo) ∧
    ∃ v1 v2 b, smallHybridRun = some (.ok (v1, v2), smallHybridInfo) ∧
      encode (.dict smallHybridInfo) = .ok b ∧ v2.infoHashV2 ≠ sha256 b ∧
      v2.infoHashV1 ≠ some (sha1 b) ∧ v1.infoHash ≠ sha1 b := by
  obtain ⟨v1, v2, hrun⟩ := smallHybridRun_eq
  have hv2 : smallHybridRun.map (fun r => r.1.toOption.map fun t => t.2.infoHashV2) ≠
      some ((encode (.dict smallHybridInfo)).toOption.map sha256) := by decide +kernel
  have hv1 : smallHybridRun.map (fun r => r.1.toOption.map fun t => t.1.infoHash) ≠
      some ((encode (.dict smallHybridInfo)).toOption.map sha1) := by decide +kernel
  have hboth : smallHybridRun.map (fun r => r.1.toOption.map fun t => t.2.infoHashV1) ≠
      some ((encode (.dict smallHybridInfo)).toOption.map fun b => some (sha1 b)) := by
    decide +kernel
  cases hb : encode (.dict smallHybridInfo) with
  | error e =>
    have hok : (encode (.dict smallHybridInfo)).isOk = true := by decide +kernel
    rw [hb] at hok
    cases hok
  | ok b =>
    rw [hrun, hb] at hv2 hv1 hboth
    refine ⟨rfl, v1, v2, b, hrun, rfl, ?_, ?_, ?_⟩
    · exact fun h => hv2 (congrArg (fun x => some (some x)) h)
    · exact fun h => hboth (congrArg (fun x => some (some x)) h)
    · exact fun h => hv1 (congrArg (fun x => some (some x)) h)

end TorrentV2

end Ccbt

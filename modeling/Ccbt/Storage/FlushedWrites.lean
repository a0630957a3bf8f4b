import Ccbt.Storage.HarmlessWrites

/-!
# What a flush leaves in a file

`_flush_file_writes` against the requests done one after the other, for all contents of the file
and of the requests.
-/

namespace Ccbt.Storage

open Python PositionalWrite

section Sorted

variable {writes : List WriteRequest}

theorem not_shifted_first_iff :
    ¬Shifted (firstOffset writes) (sortOn WriteRequest.offset writes) ↔
      (writes.map WriteRequest.range).Pairwise Clear := by
  rw [not_shifted_iff (sortOn_offset_sorted writes), pairwise_clear_sortOn]
  exact and_iff_right fun req hreq _ => firstOffset_le hreq

theorem gapsOf_range : gapsOf (writes.map WriteRequest.range) =
    gaps (firstOffset writes) ((sortOn WriteRequest.offset writes).map WriteRequest.range) := by
  rw [gapsOf, ← range_sortOn, firstOffset]
  cases sortOn WriteRequest.offset writes with
  | nil => rfl
  | cons req rest => rfl

theorem endOf_write : endOf (writes.map WriteRequest.write) =
    rangesEnd (writes.map WriteRequest.range) := by
  rw [endOf, rangesEnd, List.foldr_map, List.foldr_map]
  refine congrArg (fun f => List.foldr f 0 writes) ?_
  funext req e
  show max (writeEnd req.offset req.data) e =
    max (if req.data.length = 0 then 0 else req.offset + req.data.length) e
  rw [writeEnd]
  simp only [length_eq_zero]

/-- Requests that are clear of each other may be done in ascending order. -/
theorem writeAll_sortOn (h : (writes.map WriteRequest.range).Pairwise Clear) (file : Bytes) :
    writeAll 0 file ((sortOn WriteRequest.offset writes).map WriteRequest.write) =
      writeAll 0 file (writes.map WriteRequest.write) := by
  have hclear := List.pairwise_map.mp h
  have hapart : (writes.map WriteRequest.write).Pairwise Apart :=
    List.pairwise_map.mpr (hclear.imp fun hreq => apart_of_clear hreq)
  exact (writeAll_perm ((sortOn_perm _ writes).symm.map _) hapart file).symm

/-- What is filled in is a gap of the ranges. -/
theorem mem_fills_first (h : (writes.map WriteRequest.range).Pairwise Clear) {threshold : Nat}
    {w : Nat × Bytes} :
    w ∈ fills threshold (firstOffset writes) (sortOn WriteRequest.offset writes) ↔
      ∃ gap ∈ gapsOf (writes.map WriteRequest.range), gap.2 ≤ gap.1 + threshold ∧
        w = (gap.1, List.replicate (gap.2 - gap.1) 0) := by
  rw [gapsOf_range]
  exact mem_fills (not_shifted_first_iff.mpr h)

/-- If the requests are clear of each other, then a flush fills the gaps and does them. -/
theorem flushFileWrites_of_clear (h : (writes.map WriteRequest.range).Pairwise Clear)
    {threshold size : Nat} {file : Option Bytes} (hne : writes ≠ []) :
    flushFileWrites threshold size file writes =
      some (writeAll 0 (writeAll 0 (createdFile threshold file writes)
        (fills threshold (firstOffset writes) (sortOn WriteRequest.offset writes)))
          (writes.map WriteRequest.write)) := by
  rw [flushFileWrites_eq hne, writeAll_place (not_shifted_first_iff.mpr h), writeAll_sortOn h]

end Sorted

section Created

theorem le_maxOffset_place (threshold e : Nat) {writes : List WriteRequest} {req : WriteRequest}
    (h : req ∈ writes) : req.offset ≤ maxOffset (place threshold e writes) := by
  induction writes generalizing e with
  | nil => simp at h
  | cons first writes ih =>
    rw [place]
    split
    · rw [maxOffset, List.foldr_cons]
      obtain rfl | h := List.mem_cons.mp h
      · dsimp only
        omega
      · exact Nat.le_trans (ih _ h) (Nat.le_max_right _ _)
    · split
      · rw [maxOffset, List.foldr_cons, List.foldr_cons]
        obtain rfl | h := List.mem_cons.mp h
        · dsimp only
          omega
        · exact Nat.le_trans (ih _ h) (Nat.le_trans (Nat.le_max_right _ _) (Nat.le_max_right _ _))
      · rw [maxOffset, List.foldr_cons]
        obtain rfl | h := List.mem_cons.mp h
        · dsimp only
          omega
        · exact Nat.le_trans (ih _ h) (Nat.le_max_right _ _)

theorem maxOffset_place_le (threshold : Nat) {e n : Nat} {writes : List WriteRequest}
    (h : ¬Shifted e writes) (hle : ∀ req ∈ writes, req.offset + req.data.length ≤ n) :
    maxOffset (place threshold e writes) ≤ max e n := by
  induction writes generalizing e with
  | nil => exact Nat.zero_le _
  | cons req writes ih =>
    obtain ⟨hhead, htail⟩ := not_or.mp h
    obtain ⟨hreq, hwrites⟩ := List.forall_mem_cons.mp hle
    have hrest := ih htail hwrites
    rw [place]
    split
    · next hbefore =>
      rw [if_pos hbefore] at hrest
      have hend : e + req.data.length ≤ max e n := by
        by_cases hnil : req.data = []
        · rw [hnil, List.length_nil]
          omega
        · have heq : ¬req.offset < e := fun hlt => hhead ⟨hlt, hnil⟩
          omega
      rw [maxOffset, List.foldr_cons]
      exact Nat.max_le.mpr ⟨hend, Nat.le_trans hrest (by omega)⟩
    · next hbefore =>
      rw [if_neg hbefore] at hrest
      have hrest' : maxOffset (place threshold (req.offset + req.data.length) writes) ≤ n := by
        omega
      split
      · rw [maxOffset, List.foldr_cons, List.foldr_cons, List.length_replicate]
        refine Nat.max_le.mpr ⟨?_, Nat.max_le.mpr ⟨?_, Nat.le_trans hrest' (by omega)⟩⟩
        · dsimp only
          omega
        · dsimp only
          omega
      · rw [maxOffset, List.foldr_cons]
        refine Nat.max_le.mpr ⟨?_, Nat.le_trans hrest' (by omega)⟩
        dsimp only
        omega

end Created

section Harmless

variable {threshold size : Nat} {file : Option Bytes} {writes : List WriteRequest}

/-- A file that is created has blanks only, as one that is not there. -/
theorem cell_createdFile (k : Nat) :
    cell 0 (createdFile threshold file writes) k = cell 0 (file.getD []) k := by
  cases file with
  | none => exact cell_replicate _ k
  | some file => rfl

/-- The gaps are filled behind the end of the file, so that no cell is changed. -/
theorem cell_fills (h : Harmless threshold (file.map List.length) (writes.map WriteRequest.range))
    (k : Nat) : cell 0 (writeAll 0 (createdFile threshold file writes)
      (fills threshold (firstOffset writes) (sortOn WriteRequest.offset writes))) k =
        cell 0 (file.getD []) k := by
  rcases cell_writeAll_cases 0 (createdFile threshold file writes)
    (fills threshold (firstOffset writes) (sortOn WriteRequest.offset writes)) k with
    hcell | ⟨w, hw, hcovers, hcell⟩
  · rw [hcell, cell_createdFile]
  · obtain ⟨gap, hgap, hsmall, rfl⟩ := (mem_fills_first h.clear).mp hw
    rw [hcell, cell_replicate]
    cases file with
    | none => rfl
    | some file =>
      have hend := (h.filled file.length rfl gap hgap hsmall).1
      have hle : gap.1 ≤ k := hcovers.1
      exact (cell_of_le (Nat.le_trans hend hle)).symm

/-- A gap that is filled is in front of something that is written. -/
theorem Harmless.gap_le {length : Option Nat} {ranges : List (Nat × Nat)}
    (h : Harmless threshold length ranges) {gap : Nat × Nat} (hgap : gap ∈ gapsOf ranges)
    (hsmall : gap.2 ≤ gap.1 + threshold) : gap.2 ≤ rangesEnd ranges := by
  cases length with
  | some n => exact (h.filled n rfl gap hgap hsmall).2
  | none =>
    have hstart : ∃ r ∈ ranges, gap.2 = r.1 := by
      rw [gapsOf] at hgap
      cases hsort : sortOn Prod.fst ranges with
      | nil => simp [hsort] at hgap
      | cons r rest =>
        rw [hsort] at hgap
        obtain ⟨r', hr', heq⟩ := exists_of_mem_gaps hgap
        exact ⟨r', (sortOn_perm Prod.fst ranges).subset (hsort ▸ hr'), heq⟩
    obtain ⟨r, hr, heq⟩ := hstart
    rw [heq]
    exact h.created rfl r hr

/-- If combining the requests does no harm, then a flush does them. -/
theorem flushFileWrites_of_harmless
    (h : Harmless threshold (file.map List.length) (writes.map WriteRequest.range)) :
    flushFileWrites threshold size file writes = sequentialWrites file writes := by
  by_cases hne : writes = []
  · rw [flushFileWrites, sequentialWrites, if_pos hne, if_pos hne]
  rw [flushFileWrites_of_clear h.clear hne, sequentialWrites, if_neg hne]
  refine congrArg some (writeAll_congr (cell_fills h) ?_)
  have hfills : endOf (fills threshold (firstOffset writes) (sortOn WriteRequest.offset writes)) ≤
      endOf (writes.map WriteRequest.write) := by
    refine endOf_le fun w hw => ?_
    obtain ⟨gap, hgap, hsmall, rfl⟩ := (mem_fills_first h.clear).mp hw
    have hle := h.gap_le hgap hsmall
    rw [endOf_write, writeEnd, List.length_replicate]
    split
    · exact Nat.zero_le _
    · next hsome =>
      rw [List.replicate_eq_nil_iff] at hsome
      omega
  rw [length_writeAll]
  cases file with
  | some file =>
    show max (max file.length _) _ = max file.length _
    omega
  | none =>
    have hcreated := h.created rfl
    have hbound : maxOffset (place threshold (firstOffset writes)
        (sortOn WriteRequest.offset writes)) ≤ endOf (writes.map WriteRequest.write) := by
      have hends : ∀ req ∈ writes, req.offset + req.data.length ≤
          endOf (writes.map WriteRequest.write) := by
        intro req hreq
        by_cases hnil : req.data = []
        · rw [hnil, endOf_write]
          exact hcreated req.range (List.mem_map_of_mem hreq)
        · have hle : writeEnd req.write.1 req.write.2 ≤ _ :=
            writeEnd_le_endOf (List.mem_map_of_mem (f := WriteRequest.write) hreq)
          rw [writeEnd, if_neg (show req.write.2 ≠ [] from hnil)] at hle
          exact hle
      have hsub := (sortOn_perm WriteRequest.offset writes).subset
      have hfirst : firstOffset writes ≤ endOf (writes.map WriteRequest.write) := by
        obtain ⟨req, hreq⟩ := List.exists_mem_of_ne_nil writes hne
        have hle := firstOffset_le ((sortOn_perm WriteRequest.offset writes).symm.subset hreq)
        have hle' := hends req hreq
        omega
      have hle := maxOffset_place_le threshold
        (not_shifted_first_iff.mpr h.clear) fun req hreq => hends req (hsub hreq)
      omega
    rw [createdFile, Option.getD_none, List.length_replicate]
    show max (max _ _) _ = max 0 _
    omega

end Harmless

section Contents

/-- A request for the range, with data told by where they belong in the file. -/
def filledWith (content : Nat → UInt8) (r : Nat × Nat) : WriteRequest :=
  ⟨r.1, (List.range r.2).map fun i => content (r.1 + i)⟩

variable {content : Nat → UInt8} {ranges : List (Nat × Nat)}

theorem length_filledWith (content : Nat → UInt8) (r : Nat × Nat) :
    (filledWith content r).data.length = r.2 := by
  rw [filledWith, List.length_map, List.length_range]

theorem range_filledWith (content : Nat → UInt8) (r : Nat × Nat) :
    (filledWith content r).range = r := by
  rw [WriteRequest.range, length_filledWith]
  rfl

theorem map_range_filledWith (content : Nat → UInt8) (ranges : List (Nat × Nat)) :
    (ranges.map (filledWith content)).map WriteRequest.range = ranges := by
  rw [List.map_map]
  exact (List.map_congr_left fun r _ => range_filledWith content r).trans (List.map_id ranges)

/-- What such a request puts into a cell is told by the cell. -/
theorem cell_filledWith {r : Nat × Nat} {k : Nat} (h : Covers (filledWith content r).write k) :
    cell 0 (filledWith content r).write.2 (k - (filledWith content r).write.1) = content k := by
  have hle : r.1 ≤ k := h.1
  have hlt : k < r.1 + (filledWith content r).data.length := h.2
  rw [length_filledWith] at hlt
  show cell 0 ((List.range r.2).map fun i => content (r.1 + i)) (k - r.1) = content k
  rw [cell, List.getElem?_map, List.getElem?_range (by omega), Option.map_some, Option.getD_some,
    Nat.add_sub_cancel' hle]

/-- Where such requests are done, every cell has what belongs there, or what has been there. -/
theorem cell_writeAll_filledWith (content : Nat → UInt8) (ranges : List (Nat × Nat))
    (file : Bytes) (k : Nat) :
    cell 0 (writeAll 0 file ((ranges.map (filledWith content)).map WriteRequest.write)) k =
        cell 0 file k ∨
      cell 0 (writeAll 0 file ((ranges.map (filledWith content)).map WriteRequest.write)) k =
        content k := by
  rcases cell_writeAll_cases 0 file
    ((ranges.map (filledWith content)).map WriteRequest.write) k with
    hcell | ⟨w, hw, hcovers, hcell⟩
  · exact .inl hcell
  · rw [List.map_map] at hw
    obtain ⟨r, -, rfl⟩ := List.mem_map.mp hw
    exact .inr (hcell.trans (cell_filledWith hcovers))

/-- A request that is put down behind its offset leaves something there that belongs elsewhere. -/
theorem cell_place_of_shifted (threshold : Nat) {e : Nat}
    (h : Shifted e (ranges.map (filledWith fun _ => 0))) : ∃ r ∈ ranges, ∃ k, r.1 < k ∧
      ∀ content file, cell 0 (writeAll 0 file
        (place threshold e (ranges.map (filledWith content)))) k = content r.1 := by
  induction ranges generalizing e with
  | nil => exact h.elim
  | cons r ranges ih =>
    rw [List.map_cons, Shifted] at h
    rcases h with ⟨hlt, hsome⟩ | htail
    · have hlt : r.1 < e := hlt
      have hpos : 0 < r.2 := by
        rw [Nat.pos_iff_ne_zero, ← length_filledWith (fun _ => 0) r]
        exact fun hzero => hsome (length_eq_zero.mp hzero)
      refine ⟨r, List.mem_cons_self, e, hlt, fun content file => ?_⟩
      have hdata : cell 0 (filledWith content r).data 0 = content r.1 := by
        have hcovers : Covers (filledWith content r).write r.1 :=
          ⟨Nat.le_refl _, by
            show r.1 < r.1 + (filledWith content r).data.length
            rw [length_filledWith]
            omega⟩
        have hcell := cell_filledWith hcovers
        rw [show r.1 - (filledWith content r).write.1 = 0 from Nat.sub_self r.1] at hcell
        exact hcell
      have hcovers : Covers (e, (filledWith content r).data) e :=
        ⟨Nat.le_refl e, by rw [length_filledWith]; omega⟩
      rw [List.map_cons, place, if_pos (show (filledWith content r).offset ≤ e from hlt.le),
        writeAll_cons, cell_writeAll_of_not_covers, cell_pwrite, if_pos hcovers, Nat.sub_self,
        hdata]
      intro w hw hcovers'
      have hle := le_of_mem_place hw
      have hle' : w.1 ≤ e := hcovers'.1
      rw [length_filledWith] at hle
      omega
    · obtain ⟨r', hr', k, hlt, hcell⟩ := ih htail
      refine ⟨r', List.mem_cons_of_mem r hr', k, hlt, fun content file => ?_⟩
      have hlength : (filledWith content r).data.length =
          (filledWith (fun _ => 0) r).data.length := by
        rw [length_filledWith, length_filledWith]
      have hoffset : (filledWith content r).offset = (filledWith (fun _ => 0) r).offset := rfl
      rw [List.map_cons, place, hlength, hoffset]
      split
      · next hle =>
        rw [if_pos hle] at hcell
        rw [writeAll_cons]
        exact hcell content _
      · next hle =>
        rw [if_neg hle] at hcell
        split
        · rw [writeAll_cons, writeAll_cons]
          exact hcell content _
        · rw [writeAll_cons]
          exact hcell content _

end Contents

section Exactness

/-- For a file of the length, or one that is not there, and requests for the ranges: a flush leaves
what the requests leave that are done one after the other, whatever their data and those in the
file. -/
def FlushesAsSubmitted (threshold size : Nat) (length : Option Nat) (ranges : List (Nat × Nat)) :
    Prop :=
  ∀ file writes, file.map List.length = length → writes.map WriteRequest.range = ranges →
    flushFileWrites threshold size file writes = sequentialWrites file writes

variable {threshold size : Nat} {length : Option Nat} {ranges : List (Nat × Nat)}

/-- A file of the length with the same octet everywhere, or none. -/
def uniformFile (length : Option Nat) (b : UInt8) : Option Bytes :=
  length.map fun n => List.replicate n b

theorem length_uniformFile (length : Option Nat) (b : UInt8) :
    (uniformFile length b).map List.length = length := by
  cases length with
  | none => rfl
  | some n => exact congrArg some (List.length_replicate (n := n) (a := b))

/-- What a flush of requests with such data puts down. -/
theorem FlushesAsSubmitted.file_eq (h : FlushesAsSubmitted threshold size length ranges)
    (hne : ranges ≠ []) (content : Nat → UInt8) (b : UInt8) :
    writeAll 0 (createdFile threshold (uniformFile length b) (ranges.map (filledWith content)))
        (place threshold (firstOffset (ranges.map (filledWith content)))
          (sortOn WriteRequest.offset (ranges.map (filledWith content)))) =
      writeAll 0 ((uniformFile length b).getD [])
        ((ranges.map (filledWith content)).map WriteRequest.write) := by
  have hne' : ranges.map (filledWith content) ≠ [] := by simpa using hne
  have heq := h _ _ (length_uniformFile length b) (map_range_filledWith content ranges)
  rw [flushFileWrites_eq hne', sequentialWrites, if_neg hne'] at heq
  exact Option.some.inj heq

/-- Where no contents are corrupted, the ranges are clear of each other. -/
theorem FlushesAsSubmitted.clear (h : FlushesAsSubmitted threshold size length ranges) :
    ranges.Pairwise Clear := by
  by_cases hne : ranges = []
  · rw [hne]
    exact List.Pairwise.nil
  rw [← map_range_filledWith (fun _ => 0) ranges, ← not_shifted_first_iff]
  intro hshifted
  have hsort : ∀ content, sortOn WriteRequest.offset (ranges.map (filledWith content)) =
      (sortOn Prod.fst ranges).map (filledWith content) :=
    fun content => sortOn_map (filledWith content) WriteRequest.offset ranges
  have hfirst : ∀ content, firstOffset (ranges.map (filledWith content)) =
      firstOffset (ranges.map (filledWith fun _ => 0)) := by
    intro content
    rw [firstOffset, firstOffset, hsort, hsort]
    cases sortOn Prod.fst ranges with
    | nil => rfl
    | cons r rest => rfl
  rw [hsort] at hshifted
  obtain ⟨r, -, k, hlt, hcell⟩ := cell_place_of_shifted threshold hshifted
  -- only the octet at the offset of the shifted request is not zero
  let content : Nat → UInt8 := fun p => if p = r.1 then 1 else 0
  have heq := congrArg (fun file => cell 0 file k) (h.file_eq hne content 0)
  have hflush := hcell content (createdFile threshold (uniformFile length 0)
    (ranges.map (filledWith content)))
  rw [← hsort, ← hfirst content] at hflush
  have hone : content r.1 = 1 := if_pos rfl
  have hzero : content k = 0 := if_neg (Nat.ne_of_gt hlt)
  have hblank : cell 0 ((uniformFile length 0).getD []) k = 0 := by
    cases length with
    | none => rfl
    | some n => exact cell_replicate n k
  have hwritten : cell 0 (writeAll 0 ((uniformFile length 0).getD [])
      ((ranges.map (filledWith content)).map WriteRequest.write)) k = 0 := by
    rcases cell_writeAll_filledWith content ranges ((uniformFile length 0).getD []) k with
      hcell | hcell
    · rw [hcell, hblank]
    · rw [hcell, hzero]
  rw [hflush, hwritten, hone] at heq
  exact absurd heq (by decide)

/-- Where no contents are corrupted, no gap in the file is filled. -/
theorem FlushesAsSubmitted.filled (h : FlushesAsSubmitted threshold size length ranges) {n : Nat}
    (hlength : length = some n) {gap : Nat × Nat} (hgap : gap ∈ gapsOf ranges)
    (hsmall : gap.2 ≤ gap.1 + threshold) : n ≤ gap.1 ∧ gap.2 ≤ rangesEnd ranges := by
  subst hlength
  have hne : ranges ≠ [] := by
    rintro rfl
    simp [gapsOf, sortOn] at hgap
  let writes := ranges.map (filledWith fun _ => 0)
  have hranges : writes.map WriteRequest.range = ranges := map_range_filledWith _ ranges
  have hclear : (writes.map WriteRequest.range).Pairwise Clear := by
    rw [hranges]
    exact h.clear
  have hshifted := not_shifted_first_iff.mpr hclear
  have hfill : (gap.1, List.replicate (gap.2 - gap.1) (0 : UInt8)) ∈
      fills threshold (firstOffset writes) (sortOn WriteRequest.offset writes) :=
    (mem_fills_first hclear).mpr ⟨gap, hranges.symm ▸ hgap, hsmall, rfl⟩
  rw [← hranges, gapsOf_range] at hgap
  have hlt := (le_of_mem_gaps hgap).2
  -- the file has ones only, and the requests write zeros
  have heq : writeAll 0 (writeAll 0 (List.replicate n 1)
      (fills threshold (firstOffset writes) (sortOn WriteRequest.offset writes)))
        ((sortOn WriteRequest.offset writes).map WriteRequest.write) =
      writeAll 0 (List.replicate n 1) (writes.map WriteRequest.write) := by
    rw [← writeAll_place hshifted]
    exact h.file_eq hne (fun _ => 0) 1
  rw [← writeAll_sortOn hclear (List.replicate n 1)] at heq
  have hnone : ∀ w ∈ (sortOn WriteRequest.offset writes).map WriteRequest.write,
      ¬Covers w gap.1 := by
    intro w hw
    obtain ⟨req, hreq, rfl⟩ := List.mem_map.mp hw
    exact not_covers_of_mem_gaps hshifted (sortOn_offset_sorted writes) hgap req hreq
  have hend : n ≤ gap.1 := by
    by_contra hinside
    have hcell := congrArg (fun file => cell 0 file gap.1) heq
    rw [cell_writeAll_of_not_covers hnone, cell_writeAll_of_not_covers hnone] at hcell
    have hcovers : Covers (gap.1, List.replicate (gap.2 - gap.1) (0 : UInt8)) gap.1 :=
      ⟨Nat.le_refl gap.1, by rw [List.length_replicate]; omega⟩
    obtain ⟨w, hw, -, hzero⟩ := cell_writeAll_of_covers 0 (List.replicate n (1 : UInt8))
      ⟨_, hfill, hcovers⟩
    obtain ⟨gap', -, -, rfl⟩ := (mem_fills_first hclear).mp hw
    rw [hzero, cell_replicate, cell, List.getElem?_replicate, if_pos (by omega)] at hcell
    exact absurd hcell (by decide)
  refine ⟨hend, ?_⟩
  have hlengths := congrArg List.length heq
  have hle := writeEnd_le_endOf hfill
  rw [writeEnd, if_neg (by rw [List.replicate_eq_nil_iff]; omega), List.length_replicate] at hle
  have hsorted := congrArg List.length (writeAll_sortOn hclear (List.replicate n 1))
  simp only [length_writeAll, List.length_replicate] at hlengths hsorted
  have hwritten : endOf (writes.map WriteRequest.write) = rangesEnd ranges :=
    endOf_write.trans (congrArg rangesEnd hranges)
  omega

/-- Where no contents are corrupted, a file is not created larger than it has to be. -/
theorem FlushesAsSubmitted.created (h : FlushesAsSubmitted threshold size length ranges)
    (hlength : length = none) {r : Nat × Nat} (hr : r ∈ ranges) : r.1 ≤ rangesEnd ranges := by
  subst hlength
  have heq := congrArg List.length
    (h.file_eq (List.ne_nil_of_mem hr) (fun _ => 0) 0)
  rw [length_writeAll, length_writeAll, endOf_write, map_range_filledWith, uniformFile,
    Option.map_none, createdFile, Option.getD_none, Option.getD_none, List.length_replicate,
    List.length_nil] at heq
  have hmem : filledWith (fun _ => 0) r ∈ sortOn WriteRequest.offset
      (ranges.map (filledWith fun _ => 0)) :=
    (sortOn_perm _ _).symm.subset (List.mem_map_of_mem hr)
  have hle : r.1 ≤ _ := le_maxOffset_place threshold
    (firstOffset (ranges.map (filledWith fun _ => 0))) hmem
  omega

/-- A flush leaves what the requests ask for, whatever the data, if and only if combining them does
no harm. -/
theorem flushFileWrites_eq_iff (threshold size : Nat) (length : Option Nat)
    (ranges : List (Nat × Nat)) :
    FlushesAsSubmitted threshold size length ranges ↔ Harmless threshold length ranges := by
  constructor
  · intro h
    exact ⟨h.clear, fun n hlength gap hgap hsmall => h.filled hlength hgap hsmall,
      fun hlength r hr => h.created hlength hr⟩
  · rintro h file writes rfl rfl
    exact flushFileWrites_of_harmless h

/-- Two requests that overlap: the second is put down behind the first, over an octet of the file
that nobody has asked to write. And two with a gap between them, where the file has its data: they
are overwritten with zeros. -/
theorem overlappingWrites_corrupt :
    flushFileWrites 0 65536 (some [9, 9, 9, 9]) [⟨0, [1, 1]⟩, ⟨1, [2, 2]⟩] = some [1, 1, 2, 2] ∧
      sequentialWrites (some [9, 9, 9, 9]) [⟨0, [1, 1]⟩, ⟨1, [2, 2]⟩] = some [1, 2, 2, 9] ∧
      flushFileWrites 1 65536 (some [9, 9, 9]) [⟨0, [1]⟩, ⟨2, [2]⟩] = some [1, 0, 2] ∧
      sequentialWrites (some [9, 9, 9]) [⟨0, [1]⟩, ⟨2, [2]⟩] = some [1, 9, 2] := by
  decide

end Exactness

end Ccbt.Storage

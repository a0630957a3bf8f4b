import Ccbt.Interval.Runs
import Ccbt.Transport.Utp.Acknowledgment

/-!
# The SACK blocks of an acknowledgment

`_generate_sack_blocks` cuts the received numbers into runs of consecutive ones. A block
cannot say that it ends behind `0xFFFF`: the run there loses its last number, and the run
of all numbers is mistaken for an empty one.
-/

namespace Ccbt

open Python Interval

namespace Utp

/-- A block names the number. -/
def Named (blocks : List SACKBlock) (seq : UInt16) : Prop :=
  ∃ b ∈ blocks, b.start_seq ≤ seq ∧ seq < b.end_seq

theorem named_cons {b : SACKBlock} {blocks : List SACKBlock} {seq : UInt16} :
    Named (b :: blocks) seq ↔ (b.start_seq ≤ seq ∧ seq < b.end_seq) ∨ Named blocks seq :=
  List.exists_mem_cons_iff _ _ _

theorem named_append {blocks blocks' : List SACKBlock} {seq : UInt16} :
    Named (blocks ++ blocks') seq ↔ Named blocks seq ∨ Named blocks' seq := by
  simp only [Named, List.mem_append, or_and_right, exists_or]

namespace UTPConnection

/-! ### The errors of the block constructor -/

/-- `closeBlock`, or `none` where `SACKBlock(..)` raises. -/
def tryCloseBlock (block_start block_end : UInt16) : Option (List SACKBlock) :=
  if block_start = block_end then some []
  else if block_end = 0 then
    if block_start < 0xFFFF then (SACKBlock.new block_start 0xFFFF).map ([·]) else some []
  else (SACKBlock.new block_start block_end).map ([·])

/-- `sackLoop`, or `none` where a block raises. -/
def trySackLoop (block_start block_end : UInt16) : List UInt16 → Option (List SACKBlock)
  | [] => tryCloseBlock block_start block_end
  | seq :: seqs =>
    if seq = block_end then trySackLoop block_start (seq + 1) seqs
    else do
      let blocks ← tryCloseBlock block_start block_end
      let later ← trySackLoop seq (seq + 1) seqs
      return blocks ++ later

/-- `_generate_sack_blocks`, or `none` where it raises. -/
def tryGenerateSackBlocks (c : UTPConnection) : Option (List SACKBlock) :=
  match sortOn UInt16.toNat c.received_seqs with
  | [] => some []
  | seq :: seqs => (trySackLoop seq (seq + 1) seqs).map (·.take 4)

theorem closeBlock_eq (block_start block_end : UInt16) :
    closeBlock block_start block_end = (tryCloseBlock block_start block_end).getD [] := by
  have hnew : ∀ x y, (SACKBlock.new x y).toList = ((SACKBlock.new x y).map ([·])).getD [] := by
    intro x y
    cases SACKBlock.new x y <;> rfl
  rw [closeBlock, tryCloseBlock]
  split
  · rfl
  · split
    · split
      · exact hnew _ _
      · rfl
    · exact hnew _ _

/-! ### A block for each run -/

/-- A run of 16-bit numbers. -/
def IsRun (r : ℕ × ℕ) : Prop := r.1 < r.2 ∧ r.2 ≤ 2 ^ 16

def closeRun (r : ℕ × ℕ) : List SACKBlock := closeBlock (UInt16.ofNat r.1) (UInt16.ofNat r.2)

theorem new_of_lt {x y : UInt16} (h : x < y) : SACKBlock.new x y = some ⟨x, y, h⟩ := dif_pos h

theorem toNat_ofNat_of_lt {n : ℕ} (h : n < 2 ^ 16) : (UInt16.ofNat n).toNat = n := by
  rw [UInt16.toNat_ofNat']
  exact Nat.mod_eq_of_lt h

/-- The run that ends behind `0xFFFF`. -/
theorem tryCloseBlock_last {x : ℕ} (h0 : x ≠ 0) (hx : x < 2 ^ 16) :
    (x = 0xFFFF ∧ tryCloseBlock (UInt16.ofNat x) 0 = some []) ∨
      ∃ b : SACKBlock, tryCloseBlock (UInt16.ofNat x) 0 = some [b] ∧
        b.start_seq.toNat = x ∧ b.end_seq.toNat = 0xFFFF := by
  have hxn : (UInt16.ofNat x).toNat = x := toNat_ofNat_of_lt hx
  have hne : UInt16.ofNat x ≠ 0 := by
    rw [Ne, ← UInt16.toNat_inj, hxn]
    exact h0
  rw [tryCloseBlock, if_neg hne, if_pos rfl]
  by_cases hlast : x = 0xFFFF
  · refine .inl ⟨hlast, if_neg ?_⟩
    rw [hlast]
    decide
  · have hlt : UInt16.ofNat x < 0xFFFF := by
      rw [UInt16.lt_iff_toNat_lt, hxn]
      exact lt_of_le_of_ne (Nat.le_of_lt_succ hx) hlast
    refine .inr ⟨⟨UInt16.ofNat x, 0xFFFF, hlt⟩, ?_, hxn, rfl⟩
    rw [if_pos hlt, new_of_lt hlt]
    rfl

theorem tryCloseBlock_inside {x y : ℕ} (hxy : x < y) (hy : y < 2 ^ 16) :
    ∃ b : SACKBlock, tryCloseBlock (UInt16.ofNat x) (UInt16.ofNat y) = some [b] ∧
      b.start_seq.toNat = x ∧ b.end_seq.toNat = y := by
  have hxn : (UInt16.ofNat x).toNat = x := toNat_ofNat_of_lt (hxy.trans hy)
  have hyn : (UInt16.ofNat y).toNat = y := toNat_ofNat_of_lt hy
  have hlt : UInt16.ofNat x < UInt16.ofNat y := by
    rw [UInt16.lt_iff_toNat_lt, hxn, hyn]
    exact hxy
  have hne : UInt16.ofNat x ≠ UInt16.ofNat y := by
    rw [Ne, ← UInt16.toNat_inj, hxn, hyn]
    exact hxy.ne
  have hy0 : UInt16.ofNat y ≠ 0 := by
    rw [Ne, ← UInt16.toNat_inj, hyn]
    exact ((Nat.zero_le x).trans_lt hxy).ne'
  refine ⟨⟨UInt16.ofNat x, UInt16.ofNat y, hlt⟩, ?_, hxn, hyn⟩
  rw [tryCloseBlock, if_neg hne, if_neg hy0, new_of_lt hlt]
  rfl

/-- No run raises. The run of all numbers has the block of an empty one, and of any other at
most the number `0xFFFF` is lost. -/
theorem tryCloseBlock_run {r : ℕ × ℕ} (h : IsRun r) :
    tryCloseBlock (UInt16.ofNat r.1) (UInt16.ofNat r.2) = some (closeRun r) ∧
      ((r = (0, 2 ^ 16) ∧ closeRun r = []) ∨ (r.1 = 0xFFFF ∧ closeRun r = []) ∨
        ∃ b : SACKBlock, closeRun r = [b] ∧ b.start_seq.toNat = r.1 ∧
          b.end_seq.toNat = min r.2 0xFFFF) := by
  obtain ⟨x, y⟩ := r
  obtain ⟨hlt, hle⟩ := h
  simp only at hlt hle ⊢
  rw [closeRun, closeBlock_eq]
  by_cases hy : y = 2 ^ 16
  · subst hy
    have hend : UInt16.ofNat (2 ^ 16) = 0 := rfl
    rw [hend]
    by_cases hx : x = 0
    · subst hx
      exact ⟨rfl, .inl ⟨rfl, rfl⟩⟩
    · obtain ⟨hlast, he⟩ | ⟨b, he, hb⟩ := tryCloseBlock_last hx hlt
      · rw [he]
        exact ⟨rfl, .inr (.inl ⟨hlast, rfl⟩)⟩
      · rw [he]
        exact ⟨rfl, .inr (.inr ⟨b, rfl, hb⟩)⟩
  · obtain ⟨b, he, hs, hb⟩ := tryCloseBlock_inside hlt (lt_of_le_of_ne hle hy)
    rw [he]
    refine ⟨rfl, .inr (.inr ⟨b, rfl, hs, ?_⟩)⟩
    rw [hb]
    omega

/-- What the block of a run names. -/
theorem named_closeRun {r : ℕ × ℕ} (h : IsRun r) (hfull : r ≠ (0, 2 ^ 16)) {seq : UInt16} :
    Named (closeRun r) seq ↔ (r.1 ≤ seq.toNat ∧ seq.toNat < r.2) ∧ seq ≠ 0xFFFF := by
  have hlt := seq.toNat_lt
  have hseq : seq ≠ 0xFFFF ↔ seq.toNat ≠ 0xFFFF := not_congr UInt16.toNat_inj.symm
  obtain ⟨-, ⟨he, -⟩ | ⟨hlast, he⟩ | ⟨b, he, hs, hb⟩⟩ := tryCloseBlock_run h
  · exact absurd he hfull
  · rw [he, hseq]
    have := h.2
    simp only [Named, List.not_mem_nil, false_and, exists_false, false_iff]
    omega
  · rw [he, named_cons, UInt16.le_iff_toNat_le, UInt16.lt_iff_toNat_lt, hs, hb, hseq]
    simp only [Named, List.not_mem_nil, false_and, exists_false, or_false]
    omega

theorem length_closeRun_le {r : ℕ × ℕ} (h : IsRun r) : (closeRun r).length ≤ 1 := by
  obtain ⟨-, ⟨-, he⟩ | ⟨-, he⟩ | ⟨b, he, -⟩⟩ := tryCloseBlock_run h <;> rw [he] <;> simp

theorem bounds_closeRun {r : ℕ × ℕ} (h : IsRun r) {b : SACKBlock} (hb : b ∈ closeRun r) :
    b.start_seq.toNat = r.1 ∧ b.end_seq.toNat ≤ r.2 := by
  obtain ⟨-, ⟨-, he⟩ | ⟨-, he⟩ | ⟨b', he, hs, hend⟩⟩ := tryCloseBlock_run h
  · simp [he] at hb
  · simp [he] at hb
  · obtain rfl := List.mem_singleton.mp (he ▸ hb)
    exact ⟨hs, hend ▸ min_le_left _ _⟩

/-! ### The loop -/

/-- The loop ends a block for each run, and none raises. -/
theorem sackLoop_eq {start stop : ℕ} {seqs : List UInt16}
    (h : Ahead start stop (seqs.map UInt16.toNat)) (hstop : stop ≤ 2 ^ 16) :
    let blocks := (runsFrom start stop (seqs.map UInt16.toNat)).flatMap closeRun
    sackLoop (UInt16.ofNat start) (UInt16.ofNat stop) seqs = blocks ∧
      trySackLoop (UInt16.ofNat start) (UInt16.ofNat stop) seqs = some blocks := by
  have hopen : ∀ {start stop : ℕ} {xs : List ℕ}, Ahead start stop xs → stop ≤ 2 ^ 16 →
      tryCloseBlock (UInt16.ofNat start) (UInt16.ofNat stop) = some (closeRun (start, stop)) :=
    fun h hstop => (tryCloseBlock_run (r := (_, _)) ⟨h.lt, hstop⟩).1
  induction seqs generalizing start stop with
  | nil =>
    simp only [List.map_nil, runsFrom, List.flatMap_singleton]
    exact ⟨rfl, hopen h hstop⟩
  | cons seq seqs ih =>
    have hlt : seq.toNat < 2 ^ 16 := seq.toNat_lt
    have hle : stop ≤ seq.toNat := h.le _ List.mem_cons_self
    have hnext : UInt16.ofNat (seq.toNat + 1) = seq + 1 := by
      rw [UInt16.ofNat_add, UInt16.ofNat_toNat]
      rfl
    have hhere : UInt16.ofNat seq.toNat = seq := UInt16.ofNat_toNat
    have hcontig : seq = UInt16.ofNat stop ↔ seq.toNat = stop := by
      rw [← UInt16.toNat_inj, toNat_ofNat_of_lt (hle.trans_lt hlt)]
    simp only [List.map_cons, runsFrom, sackLoop, trySackLoop]
    by_cases hc : seq.toNat = stop
    · simp only [if_pos hc, if_pos (hcontig.mpr hc)]
      rw [← hnext]
      exact ih h.extend hlt
    · simp only [if_neg hc, if_neg (mt hcontig.mp hc), List.flatMap_cons]
      obtain ⟨hloop, htry⟩ := ih (.of_cons h.sorted) hlt
      rw [hnext, hhere] at hloop htry
      rw [hloop, htry, hopen h hstop]
      exact ⟨rfl, rfl⟩

variable {c : UTPConnection}

/-- The runs of the received numbers. -/
def receivedRuns (c : UTPConnection) : List (ℕ × ℕ) :=
  runs ((sortOn UInt16.toNat c.received_seqs).map UInt16.toNat)

theorem receivedRuns_sorted (h : c.received_seqs.Nodup) :
    ((sortOn UInt16.toNat c.received_seqs).map UInt16.toNat).Pairwise (· < ·) :=
  List.pairwise_map.mpr (sortOn_pairwise_lt UInt16.toNat
    (h.map (fun _ _ he => UInt16.toNat_inj.mp he)))

theorem mem_map_toNat {l : List UInt16} {seq : UInt16} :
    seq.toNat ∈ (sortOn UInt16.toNat l).map UInt16.toNat ↔ seq ∈ l := by
  rw [List.mem_map_of_injective (fun _ _ he => UInt16.toNat_inj.mp he)]
  exact (sortOn_perm UInt16.toNat l).mem_iff

theorem within_receivedRuns (h : c.received_seqs.Nodup) {seq : UInt16} :
    Within c.receivedRuns seq.toNat ↔ seq ∈ c.received_seqs :=
  (within_runs (receivedRuns_sorted h)).trans mem_map_toNat

theorem isRun_of_mem (h : c.received_seqs.Nodup) : ∀ r ∈ c.receivedRuns, IsRun r := by
  intro r hr
  refine ⟨runs_lt (receivedRuns_sorted h) r hr, runs_le (receivedRuns_sorted h) ?_ r hr⟩
  intro x hx
  obtain ⟨seq, -, rfl⟩ := List.mem_map.mp hx
  exact seq.toNat_lt

/-- The first four blocks of the runs, without an error. -/
theorem generateSackBlocks_eq (h : c.received_seqs.Nodup) :
    c.generateSackBlocks = (c.receivedRuns.flatMap closeRun).take 4 ∧
      c.tryGenerateSackBlocks = some c.generateSackBlocks := by
  have hsorted := receivedRuns_sorted h
  rw [tryGenerateSackBlocks, generateSackBlocks, receivedRuns]
  cases hs : sortOn UInt16.toNat c.received_seqs with
  | nil => exact ⟨rfl, rfl⟩
  | cons seq seqs =>
    rw [hs] at hsorted
    obtain ⟨hloop, htry⟩ := sackLoop_eq (.of_cons hsorted) seq.toNat_lt
    have hnext : UInt16.ofNat (seq.toNat + 1) = seq + 1 := by
      rw [UInt16.ofNat_add, UInt16.ofNat_toNat]
      rfl
    have hhere : UInt16.ofNat seq.toNat = seq := UInt16.ofNat_toNat
    rw [hnext, hhere] at hloop htry
    simp only [hloop, htry]
    exact ⟨rfl, rfl⟩

/-- A number that starts a run: its predecessor has not been received. -/
def StartsRun (received_seqs : List UInt16) (seq : UInt16) : Prop :=
  seq = 0 ∨ seq - 1 ∉ received_seqs

instance (received_seqs : List UInt16) : DecidablePred (StartsRun received_seqs) := fun seq =>
  inferInstanceAs (Decidable (seq = 0 ∨ seq - 1 ∉ received_seqs))

/-- There are as many runs as numbers that start one. -/
theorem length_receivedRuns (h : c.received_seqs.Nodup) : c.receivedRuns.length =
    (c.received_seqs.filter (StartsRun c.received_seqs)).length := by
  have hfst := map_fst_runs (receivedRuns_sorted h)
  rw [← List.length_map Prod.fst, receivedRuns, hfst, List.filter_map, List.length_map,
    ((sortOn_perm UInt16.toNat c.received_seqs).filter _).length_eq]
  apply congrArg
  apply List.filter_congr
  intro seq _
  apply decide_eq_decide.mpr
  have h0 : seq.toNat = 0 ↔ seq = 0 := by
    rw [← UInt16.toNat_inj]
    exact Iff.rfl
  rw [StartsRun, h0]
  apply or_congr_right'
  intro hne
  have hpos : seq.toNat ≠ 0 := mt h0.mp hne
  have hpred : seq.toNat - 1 = (seq - 1).toNat := by
    have := seq.toNat_lt
    have h1 : (1 : UInt16).toNat = 1 := rfl
    rw [UInt16.toNat_sub, h1]
    omega
  rw [hpred, mem_map_toNat]

/-! ### What the blocks name -/

/-- All blocks but that of the run of all numbers are those of their runs. -/
theorem named_flatMap_closeRun (h : c.received_seqs.Nodup) (hmissing : ∃ seq, seq ∉ c.received_seqs)
    {seq : UInt16} :
    Named (c.receivedRuns.flatMap closeRun) seq ↔ seq ∈ c.received_seqs ∧ seq ≠ 0xFFFF := by
  obtain ⟨lost, hlost⟩ := hmissing
  have hfull : ∀ r ∈ c.receivedRuns, r ≠ (0, 2 ^ 16) := by
    rintro r hr rfl
    exact hlost ((within_receivedRuns h).mp ⟨_, hr, Nat.zero_le _, lost.toNat_lt⟩)
  rw [← within_receivedRuns h]
  constructor
  · rintro ⟨b, hb, hseq⟩
    obtain ⟨r, hr, hbr⟩ := List.mem_flatMap.mp hb
    obtain ⟨hin, hne⟩ := (named_closeRun (isRun_of_mem h r hr) (hfull r hr)).mp ⟨b, hbr, hseq⟩
    exact ⟨⟨r, hr, hin⟩, hne⟩
  · rintro ⟨⟨r, hr, hin⟩, hne⟩
    obtain ⟨b, hb, hseq⟩ := (named_closeRun (isRun_of_mem h r hr) (hfull r hr)).mpr ⟨hin, hne⟩
    exact ⟨b, List.mem_flatMap.mpr ⟨r, hr, hb⟩, hseq⟩

theorem length_flatMap_closeRun_le {rs : List (ℕ × ℕ)} (h : ∀ r ∈ rs, IsRun r) :
    (rs.flatMap closeRun).length ≤ rs.length := by
  induction rs with
  | nil => exact Nat.le_refl 0
  | cons r rs ih =>
    have hfirst := length_closeRun_le (h r List.mem_cons_self)
    have hrest := ih fun r' hr' => h r' (List.mem_cons_of_mem r hr')
    rw [List.flatMap_cons, List.length_append, List.length_cons]
    omega

theorem pairwise_flatMap_closeRun (h : c.received_seqs.Nodup) :
    (c.receivedRuns.flatMap closeRun).Pairwise (fun b b' => b.end_seq < b'.start_seq) := by
  rw [List.pairwise_flatMap]
  constructor
  · intro r hr
    obtain ⟨-, ⟨-, he⟩ | ⟨-, he⟩ | ⟨b, he, -⟩⟩ := tryCloseBlock_run (isRun_of_mem h r hr) <;>
      rw [he] <;> simp
  · refine (runs_apart (receivedRuns_sorted h)).imp_of_mem ?_
    intro r r' hr hr' hlt b hb b' hb'
    have hend := (bounds_closeRun (isRun_of_mem h r hr) hb).2
    have hstart := (bounds_closeRun (isRun_of_mem h r' hr') hb').1
    rw [UInt16.lt_iff_toNat_lt, hstart]
    exact hend.trans_lt hlt

/-- There is no block when all numbers have been received. -/
theorem flatMap_closeRun_of_full (h : c.received_seqs.Nodup)
    (hfull : ∀ seq, seq ∈ c.received_seqs) : c.receivedRuns.flatMap closeRun = [] := by
  have hmem : ∀ n, n < 2 ^ 16 → n ∈ (sortOn UInt16.toNat c.received_seqs).map UInt16.toNat := by
    intro n hn
    rw [← toNat_ofNat_of_lt hn, mem_map_toNat]
    exact hfull _
  rw [List.flatMap_eq_nil_iff]
  rintro ⟨start, stop⟩ hr
  have hrun := isRun_of_mem h _ hr
  have hlt : start < stop := hrun.1
  have hstop : stop = 2 ^ 16 := by
    by_contra hne
    exact runs_stop_notMem (receivedRuns_sorted h) hr (hmem stop (lt_of_le_of_ne hrun.2 hne))
  have hstart : start = 0 :=
    (runs_start (receivedRuns_sorted h) hr).resolve_right (not_not.mpr (hmem _ (by omega)))
  rw [hstart, hstop]
  decide

/-- The loop over a block takes out the numbers that it names. -/
theorem mem_blockRange_iff {b : SACKBlock} {seq : UInt16} :
    seq ∈ blockRange b ↔ b.start_seq ≤ seq ∧ seq < b.end_seq := by
  refine ⟨mem_blockRange, fun ⟨hs, he⟩ => ?_⟩
  rw [UInt16.le_iff_toNat_le] at hs
  rw [UInt16.lt_iff_toNat_lt] at he
  refine List.mem_map.mpr ⟨seq.toNat, ?_, UInt16.ofNat_toNat⟩
  rw [List.mem_range'_1]
  omega

theorem mem_keys_foldl_erase {ν : Type*} (seqs : List UInt16) (d : Dict UInt16 ν) (seq : UInt16) :
    seq ∈ (seqs.foldl Dict.erase d).keys ↔ seq ∈ d.keys ∧ seq ∉ seqs := by
  rw [Dict.mem_keys_iff, Dict.mem_keys_iff, Dict.get?_foldl_erase]
  split
  · next hm => simp [hm]
  · next hm => simp [hm]

/-- `_process_sack_blocks` takes what the blocks name out of the send buffer. -/
theorem mem_keys_processSackBlocks (c : UTPConnection) (blocks : List SACKBlock) (seq : UInt16) :
    seq ∈ (c.processSackBlocks blocks).send_buffer.keys ↔
      seq ∈ c.send_buffer.keys ∧ ¬Named blocks seq := by
  rw [processSackBlocks]
  simp only
  induction blocks generalizing c with
  | nil => simp [Named]
  | cons b blocks ih =>
    rw [List.foldl_cons]
    have hrest := ih { c with send_buffer := (blockRange b).foldl Dict.erase c.send_buffer }
    simp only at hrest
    rw [hrest, mem_keys_foldl_erase, mem_blockRange_iff, named_cons, not_or, and_assoc]

/-- The blocks of an acknowledgment are right, and so is what its receiver makes of them. -/
structure SacksExactly (c : UTPConnection) : Prop where
  raisesNothing : c.tryGenerateSackBlocks = some c.generateSackBlocks
  apart : c.generateSackBlocks.Pairwise (fun b b' => b.end_seq < b'.start_seq)
  sound : ∀ seq, Named c.generateSackBlocks seq → seq ∈ c.received_seqs
  complete : (c.received_seqs.filter (StartsRun c.received_seqs)).length ≤ 4 →
    ∀ seq, Named c.generateSackBlocks seq ↔ seq ∈ c.received_seqs ∧ seq ≠ 0xFFFF
  readBack : ∃ h : c.generateSackBlocks.length ≤ 4,
    UTPExtension.unpack UTPExtensionType.SACK.toByte
        (UTPExtension.newSack c.generateSackBlocks).pack =
      some (.sack c.generateSackBlocks h)
  removes : ∀ (peer : UTPConnection) (seq : UInt16),
    seq ∈ (peer.processSackBlocks c.generateSackBlocks).send_buffer.keys ↔
      seq ∈ peer.send_buffer.keys ∧ ¬Named c.generateSackBlocks seq

theorem newSack_eq {blocks : List SACKBlock} (h : blocks.length ≤ 4) :
    UTPExtension.newSack blocks = .sack blocks h := by
  simp only [UTPExtension.newSack, List.take_of_length_le h]

/-- Only the completeness of the blocks depends on what has been received. -/
theorem sacksExactly_of_complete (h : c.received_seqs.Nodup)
    (hcomplete : (c.received_seqs.filter (StartsRun c.received_seqs)).length ≤ 4 →
      ∀ seq, Named c.generateSackBlocks seq ↔ seq ∈ c.received_seqs ∧ seq ≠ 0xFFFF) :
    c.SacksExactly where
  raisesNothing := (generateSackBlocks_eq h).2
  apart := by
    rw [(generateSackBlocks_eq h).1]
    exact (pairwise_flatMap_closeRun h).sublist (List.take_sublist 4 _)
  sound := fun seq ⟨b, hb, hs, he⟩ => c.generateSackBlocks_sound hb hs he
  complete := hcomplete
  readBack := by
    have hlen : c.generateSackBlocks.length ≤ 4 := by
      rw [(generateSackBlocks_eq h).1]
      exact List.length_take_le 4 _
    refine ⟨hlen, ?_⟩
    rw [newSack_eq hlen]
    exact UTPExtension.unpack_pack (.sack c.generateSackBlocks hlen)
  removes := fun peer seq => peer.mem_keys_processSackBlocks c.generateSackBlocks seq

/-- Every run has its block in an acknowledgment for at most four. -/
theorem complete_of_missing (h : c.received_seqs.Nodup) (hmissing : ∃ seq, seq ∉ c.received_seqs)
    (hruns : (c.received_seqs.filter (StartsRun c.received_seqs)).length ≤ 4) (seq : UInt16) :
    Named c.generateSackBlocks seq ↔ seq ∈ c.received_seqs ∧ seq ≠ 0xFFFF := by
  have hlen : (c.receivedRuns.flatMap closeRun).length ≤ 4 :=
    (length_flatMap_closeRun_le (isRun_of_mem h)).trans (length_receivedRuns h ▸ hruns)
  rw [(generateSackBlocks_eq h).1, List.take_of_length_le hlen]
  exact named_flatMap_closeRun h hmissing

/-- The runs of all numbers are one. -/
theorem startsRun_of_full (hfull : ∀ seq, seq ∈ c.received_seqs) {seq : UInt16} :
    StartsRun c.received_seqs seq ↔ seq = 0 :=
  or_iff_left (not_not.mpr (hfull (seq - 1)))

theorem not_sacksExactly_of_full (h : c.received_seqs.Nodup)
    (hfull : ∀ seq, seq ∈ c.received_seqs) : ¬c.SacksExactly := by
  intro hs
  have hstart : c.received_seqs.filter (StartsRun c.received_seqs) =
      c.received_seqs.filter (· = 0) :=
    List.filter_congr fun seq _ => decide_eq_decide.mpr (startsRun_of_full hfull)
  have hone : (c.received_seqs.filter (StartsRun c.received_seqs)).length ≤ 4 := by
    rw [hstart, ← List.countP_eq_length_filter]
    have hcount : c.received_seqs.count 0 ≤ 1 := List.nodup_iff_count_le_one.mp h 0
    have hsame : c.received_seqs.countP (fun seq => decide (seq = 0)) =
        c.received_seqs.count 0 := by
      rw [List.count]
      apply List.countP_congr
      simp
    omega
  obtain ⟨b, hb, -⟩ := (hs.complete hone 0).mpr ⟨hfull 0, by decide⟩
  rw [(generateSackBlocks_eq h).1, flatMap_closeRun_of_full h hfull] at hb
  exact absurd hb List.not_mem_nil

/-- The blocks are right exactly as long as some number has not been received. -/
theorem sacksExactly_iff (h : c.received_seqs.Nodup) :
    c.SacksExactly ↔ ∃ seq, seq ∉ c.received_seqs := by
  constructor
  · intro hs
    by_contra hnone
    push Not at hnone
    exact not_sacksExactly_of_full h hnone hs
  · exact fun hmissing => sacksExactly_of_complete h (complete_of_missing h hmissing)

/-- A connection that has received the numbers. -/
def receiver (received_seqs : List UInt16) : UTPConnection :=
  { config := { mtu := 1400 }, remote_addr := ("10.0.0.2", 6881), connection_id := 1
    received_seqs }

theorem receiver_received_seqs (seqs : List UInt16) : (receiver seqs).received_seqs = seqs := rfl

theorem sacksExactly_receiver : (receiver [9, 6, 5]).SacksExactly :=
  (sacksExactly_iff (by decide : (receiver [9, 6, 5]).received_seqs.Nodup)).mpr ⟨0, by decide⟩

theorem nodup_map_ofNat {n : ℕ} (h : n ≤ 2 ^ 16) :
    ((List.range n).map UInt16.ofNat).Nodup := by
  refine (List.nodup_map_iff_inj_on List.nodup_range).mpr ?_
  intro x hx y hy he
  have hxn := (List.mem_range.mp hx).trans_le h
  have hyn := (List.mem_range.mp hy).trans_le h
  rwa [← UInt16.toNat_inj, toNat_ofNat_of_lt hxn, toNat_ofNat_of_lt hyn] at he

theorem mem_map_ofNat {n : ℕ} (h : 2 ^ 16 ≤ n) (seq : UInt16) :
    seq ∈ (List.range n).map UInt16.ofNat :=
  List.mem_map.mpr ⟨seq.toNat, List.mem_range.mpr (seq.toNat_lt.trans_le h), UInt16.ofNat_toNat⟩

def everyNumber : List UInt16 := (List.range (2 ^ 16)).map UInt16.ofNat

theorem nodup_everyNumber : everyNumber.Nodup := by
  rw [everyNumber]
  exact nodup_map_ofNat le_rfl

theorem mem_everyNumber (seq : UInt16) : seq ∈ everyNumber := by
  rw [everyNumber]
  exact mem_map_ofNat le_rfl seq

/-- Once every number has been received, acknowledgments name none. -/
theorem not_sacksExactly_everyNumber : (receiver everyNumber).received_seqs.Nodup ∧
    (receiver everyNumber).generateSackBlocks = [] ∧ ¬(receiver everyNumber).SacksExactly := by
  have hnodup : (receiver everyNumber).received_seqs.Nodup := by
    rw [receiver_received_seqs]
    exact nodup_everyNumber
  have hfull : ∀ seq, seq ∈ (receiver everyNumber).received_seqs := by
    rw [receiver_received_seqs]
    exact mem_everyNumber
  refine ⟨hnodup, ?_, not_sacksExactly_of_full hnodup hfull⟩
  rw [(generateSackBlocks_eq hnodup).1, flatMap_closeRun_of_full hnodup hfull, List.take_nil]

end UTPConnection

end Utp

end Ccbt

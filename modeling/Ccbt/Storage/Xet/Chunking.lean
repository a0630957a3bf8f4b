import Ccbt.Framing.Cutter
import Ccbt.Python.Bytes
import Mathlib.Data.List.Basic
import Mathlib.Data.List.GetD
import Mathlib.Data.Nat.Size

/-!
# Content-defined chunking

`GearhashChunker` of `ccbt/storage/xet_chunking.py`. A chunk ends where a rolling hash of the
octets meets a mask, once it has a minimum length, and at a maximum length at the latest. The hash
starts anew with every chunk, from the chunk's first octets, and so where a chunk ends depends on
the octets from its start alone (`findChunkBoundary_eq`).
-/

namespace Ccbt.Xet

open Python Framing

/-!
## The gear table

The 256 numbers that the rolling hash of the content-defined chunking is made of.
-/

/-- The numbers that `_init_gear_table` lists. -/
def gearTableValues : List Nat := [
  0xB088D3A9E840F559, 0x5652C7F739ED20D6, 0x45B28969898972AB, 0x6B0A89D5B68EC777,
  0x368F573E8B7A31B7, 0x1DC636DCE936D94B, 0x207A4C4E5554D5B6, 0xA474B34628239ACB,
  0x3B06A83E1CA3B912, 0x90E78D6C2F02BAF7, 0xE1C92DF7150D9A8A, 0x8E95053A1086D3AD,
  0x5A2EF4F1B83A0722, 0xA50FAC949F807FAE, 0x0E7303EB80D8D681, 0x99B07EDC1570AD0F,
  0x689D2FB555FD3076, 0x00005082119EA468, 0xC4B08306A88FCC28, 0x3EB0678AF6374AFD,
  0xF19F87AB86AD7436, 0xF2129FBFBE6BC736, 0x481149575C98A4ED, 0x0000010695477BC5,
  0x1FBA37801A9CEACC, 0x3BF06FD663A49B6D, 0x99687E9782E3874B, 0x79A10673AA50D8E3,
  0xE4ACCF9E6211F420, 0x2520E71F87579071, 0x2BD5D3FD781A8A9B, 0x00DE4DCDDD11C873,
  0xEAA9311C5A87392F, 0xDB748EB617BC40FF, 0xAF579A8DF620BF6F, 0x86A6E5DA1B09C2B1,
  0xCC2FC30AC322A12E, 0x355E2AFEC1F74267, 0x2D99C8F4C021A47B, 0xBADE4B4A9404CFC3,
  0xF7B518721D707D69, 0x3286B6587BF32C20, 0x0000B68886AF270C, 0xA115D6E4DB8A9079,
  0x484F7E9C97B2E199, 0xCCCA7BB75713E301, 0xBF2584A62BB0F160, 0xADE7E813625DBCC8,
  0x000070940D87955A, 0x8AE69108139E626F, 0xBD776AD72FDE38A2, 0xFB6B001FC2FCC0CF,
  0xC7A474B8E67BC427, 0xBAF6F11610EB5D58, 0x09CB1F5B6DE770D1, 0xB0B219E6977D4C47,
  0x00CCBC386EA7AD4A, 0xCC849D0ADF973F01, 0x73A3EF7D016AF770, 0xC807D2D386BDBDFE,
  0x7F2AC9966C791730, 0xD037A86BC6C504DA, 0xF3F17C661EAA609D, 0xACA626B04DAAE687,
  0x755A99374F4A5B07, 0x90837EE65B2CAEDE, 0x6EE8AD93FD560785, 0x0000D9E11053EDD8,
  0x9E063BB2D21CDBD7, 0x07AB77F12A01D2B2, 0xEC550255E6641B44, 0x78FB94A8449C14C6,
  0xC7510E1BC6C0F5F5, 0x0000320B36E4CAE3, 0x827C33262C8B1A2D, 0x14675F0B48EA4144,
  0x267BD3A6498DECEB, 0xF1916FF982F5035E, 0x86221B7FF434FB88, 0x9DBECEE7386F49D8,
  0xEA58F8CAC80F8F4A, 0x008D198692FC64D8, 0x6D38704FBABF9A36, 0xE032CB07D1E7BE4C,
  0x228D21F6AD450890, 0x635CB1BFC02589A5, 0x4620A1739CA2CE71, 0xA7E7DFE3AAE5FB58,
  0x0C10CA932B3C0DEB, 0x2727FEE884AFED7B, 0xA2DF1C6DF9E2AB1F, 0x4DCDD1AC0774F523,
  0x000070FFAD33E24E, 0xA2ACE87BC5977816, 0x9892275AB4286049, 0xC2861181DDF18959,
  0xBB9972A042483E19, 0xEF70CD3766513078, 0x00000513ABFC9864, 0xC058B61858C94083,
  0x09E850859725E0DE, 0x9197FB3BF83E7D94, 0x7E1E626D12B64BCE, 0x520C54507F7B57D1,
  0xBEE1797174E22416, 0x6FD9AC3222E95587, 0x0023957C9ADFBF3E, 0xA01C7D7E234BBE15,
  0xABA2C758B8A38CBB, 0x0D1FA0CEEC3E2B30, 0x0BB6A58B7E60B991, 0x4333DD5B9FA26635,
  0xC2FD3B7D4001C1A3, 0xFB41802454731127, 0x65A56185A50D18CB, 0xF67A02BD8784B54F,
  0x696F11DD67E65063, 0x00002022FCA814AB, 0x8CD6BE912DB9D852, 0x695189B6E9AE8A57,
  0xEE9453B50ADA0C28, 0xD8FC5EA91A78845E, 0xAB86BF191A4AA767, 0x0000C6B5C86415E5,
  0x267310178E08A22E, 0xED2D101B078BCA25, 0x3B41ED84B226A8FB, 0x13E622120F28DC06,
  0xA315F5EBFB706D26, 0x8816C34E3301BACE, 0xE9395B9CBB71FDAE, 0x002CE9202E721648,
  0x4283DB1D2BB3C91C, 0xD77D461AD2B1A6A5, 0xE2EC17E46EEB866B, 0xB8E0BE4039FBC47C,
  0xDEA160C4D5299D04, 0x7EEC86C8D28C3634, 0x2119AD129F98A399, 0xA6CCF46B61A283EF,
  0x2C52CEDEF658C617, 0x2DB4871169ACDD83, 0x0000F0D6F39ECBE9, 0x3DD5D8C98D2F9489,
  0x8A1872A22B01F584, 0xF282A4C40E7B3CF2, 0x8020EC2CCB1BA196, 0x6693B6E09E59E313,
  0x0000CE19CC7C83EB, 0x20CB5735F6479C3B, 0x762EBF3759D75A5B, 0x207BFE823D693975,
  0xD77DC112339CD9D5, 0x9BA7834284627D03, 0x217DC513E95F51E9, 0xB27B1A29FC5E7816,
  0x00D5CD9831BB662D, 0x71E39B806D75734C, 0x7E572AF006FB1A23, 0xA2734F2F6AE91F85,
  0xBF82C6B5022CDDF2, 0x5C3BEAC60761A0DE, 0xCDC893BB47416998, 0x6D1085615C187E01,
  0x77F8AE30AC277C5D, 0x917C6B81122A2C91, 0x5B75B699ADD16967, 0x0000CF6AE79A069B,
  0xF3C40AFA60DE1104, 0x2063127AA59167C3, 0x621DE62269D1894D, 0xD188AC1DE62B4726,
  0x107036E2154B673C, 0x0000B85F28553A1D, 0xF2EF4E4C18236F3D, 0xD9D6DE6611B9F602,
  0xA1FC7955FB47911C, 0xEB85FD032F298DBD, 0xBE27502FB3BEFAE1, 0xE3034251C4CD661E,
  0x441364D354071836, 0x0082B36C75F2983E, 0xB145910316FA66F0, 0x021C069C9847CAF7,
  0x2910DFC75A4B5221, 0x735B353E1C57A8B5, 0xCE44312CE98ED96C, 0xBC942E4506BDFA65,
  0xF05086A71257941B, 0xFEC3B215D351CEAD, 0x00AE1055E0144202, 0xF54B40846F42E454,
  0x00007FD9C8BCBCC8, 0xBFBD9EF317DE9BFE, 0xA804302FF2854E12, 0x39CE4957A5E5D8D4,
  0xFFB9E2A45637BA84, 0x55B9AD1D9EA0818B, 0x00008ACBF319178A, 0x48E2BFC8D0FBFB38,
  0x8BE39841E848B5E8, 0x0E2712160696A08B, 0xD51096E84B44242A, 0x1101BA176792E13A,
  0xC22E770F4531689D, 0x1689EFF272BBC56C, 0x00A92A197F5650EC, 0xBC765990BDA1784E,
  0xC61441E392FCB8AE, 0x07E13A2CED31E4A0, 0x92CBE984234E9D4D, 0x8F4FF572BB7D8AC5,
  0x0B9670C00B963BD0, 0x62955A581A03EB01, 0x645F83E5EA000254, 0x41FCE516CD88F299,
  0xBBDA9748DA7A98CF, 0x0000AAB2FE4845FA, 0x19761B069BF56555, 0x8B8F5E8343B6AD56,
  0x3E5D1CFD144821D9, 0xEC5C1E2CA2B0CD8F, 0xFAF7E0FEA7FBB57F, 0x000000D3BA12961B,
  0xDA3F90178401B18E, 0x70FF906DE33A5FEB, 0x0527D5A7C06970E7, 0x22D8E773607C13E9,
  0xC9AB70DF643C3BAC, 0xEDA4C6DC8ABE12E3, 0xECEF1F410033E78A, 0x0024C2B274AC72CB,
  0x06740D954FA900B4, 0x1D7A299B323D6304, 0xB3C37CB298CBEAD5, 0xC986E3C76178739B,
  0x9FABEA364B46F58A, 0x6DA214C5AF85CC56, 0x17A43ED8B7A38F84, 0x6ECCEC511D9ADBEB,
  0xF9CAB30913335AFB, 0x4A5E60C5F415EED2, 0x00006967503672B4, 0x9DA51D121454BB87,
  0x84321E13B9BBC816, 0xFB3D6FB6AB2FDD8D, 0x60305EED8E160A8D, 0xCBBF4B14E9946CE8,
  0x00004F63381B10C3, 0x07D5B7816FCC4E10, 0xE5A536726A6A8155, 0x57AFB23447A07FDD,
  0x18F346F7ABC9D394, 0x636DC655D61AD33D, 0xCC8BAB4939F7F3F6, 0x63C7A906C1DD187B]

/-- `gear_table.extend(gear_table[: 256 - len(gear_table)])` while the table is short, at most
`n` times. -/
def padGearTable : Nat → List Nat → List Nat
  | 0, gear_table => gear_table
  | n + 1, gear_table =>
    if gear_table.length < 256 then
      padGearTable n (gear_table ++ gear_table.take (256 - gear_table.length))
    else gear_table

def initGearTable : List Nat := (padGearTable 256 gearTableValues).take 256

theorem length_gearTableValues : gearTableValues.length = 256 := by decide +kernel

/-- Nothing is missing from the table that would be filled up. -/
theorem initGearTable_eq : initGearTable = gearTableValues := by
  have hpad : padGearTable 256 gearTableValues = gearTableValues := by
    rw [padGearTable, if_neg (by rw [length_gearTableValues]; decide)]
  rw [initGearTable, hpad, ← length_gearTableValues, List.take_length]

/-! ## The chunker -/

abbrev MIN_CHUNK_SIZE : Nat := 8192
abbrev MAX_CHUNK_SIZE : Nat := 131072
abbrev WINDOW_SIZE : Nat := 48

theorem sizes_lt : WINDOW_SIZE < MIN_CHUNK_SIZE ∧ MIN_CHUNK_SIZE < MAX_CHUNK_SIZE := by decide

def bitLength (n : Int) : Nat := n.natAbs.size

def lowWord (x : Int) : Nat := (x % 2 ^ 32).toNat

/-- A chunker, with a target size that the constructor accepts. -/
structure GearhashChunker where
  target_size : Int
  gear_table : List Nat
  accepted : MIN_CHUNK_SIZE ≤ target_size ∧ target_size ≤ MAX_CHUNK_SIZE

namespace GearhashChunker

/-- `GearhashChunker(target_size)`, or the text of the `ValueError`. -/
def init (target_size : Int) : Except String GearhashChunker :=
  if h : target_size < MIN_CHUNK_SIZE ∨ target_size > MAX_CHUNK_SIZE then
    .error "Target size must be between 8192 and 131072 bytes"
  else
    .ok { target_size, gear_table := initGearTable, accepted := by omega }

variable (c : GearhashChunker)

/-- `(1 << (32 - self.target_size.bit_length())) - 1`. -/
def targetMask : Nat := (1 <<< (32 - bitLength c.target_size)) - 1

def gear (octet : UInt8) : Nat := c.gear_table.getD octet.toNat 0

/-- The hash with a new octet, where none leaves the window. -/
def pushHash (hash_value : Nat) (octet : UInt8) : Nat :=
  lowWord ((hash_value <<< 1 : Nat) + c.gear octet)

/-- The hash with a new octet, where an old one leaves the window. -/
def rollHash (hash_value : Nat) (old_byte octet : UInt8) : Nat :=
  lowWord ((hash_value <<< 1 : Nat) - (c.gear old_byte <<< WINDOW_SIZE : Nat) + c.gear octet)

section Boundary

-- how the hash goes on when an old octet leaves the window
variable (roll : Nat → UInt8 → UInt8 → Nat)

/-- The first boundary among the next `n` positions, each given to the loop as the octet's
position `pos`. -/
def searchLoop (data : Bytes) (min_chunk_end target_mask : Nat) : Nat → Nat → Nat → Option Nat
  | 0, _, _ => none
  | n + 1, pos, hash_value =>
    let hash_value :=
      if pos ≥ WINDOW_SIZE then
        roll hash_value (data.getD (pos - WINDOW_SIZE) 0) (data.getD pos 0)
      else c.pushHash hash_value (data.getD pos 0)
    if hash_value &&& target_mask = 0 ∧ pos ≥ min_chunk_end then some (pos + 1)
    else searchLoop data min_chunk_end target_mask n (pos + 1) hash_value

/-- The search for the end of the chunk that begins at `start_pos`. -/
def findBoundaryBy (data : Bytes) (start_pos target_mask : Nat) : Nat :=
  let data_len := data.length
  let min_chunk_end := min (start_pos + MIN_CHUNK_SIZE) data_len
  let max_chunk_end := min (start_pos + MAX_CHUNK_SIZE) data_len
  if min_chunk_end ≥ data_len then data_len
  else
    let window_end := min (start_pos + WINDOW_SIZE) data_len
    if window_end - start_pos < WINDOW_SIZE then max_chunk_end
    else
      let window := (List.range' start_pos (window_end - start_pos)).map (fun i => data.getD i 0)
      let hash_value := window.foldl c.pushHash 0
      (c.searchLoop roll data min_chunk_end target_mask (max_chunk_end - min_chunk_end)
        min_chunk_end hash_value).getD max_chunk_end

end Boundary

/-- `_find_chunk_boundary`. The two masks that it does not look at are left out. -/
def findChunkBoundary : Bytes → Nat → Nat → Nat := c.findBoundaryBy c.rollHash

/-- The same search where nothing is subtracted for the octet that leaves the window. -/
def findChunkBoundaryPlain : Bytes → Nat → Nat → Nat :=
  c.findBoundaryBy fun hash_value _ octet => c.pushHash hash_value octet

/-- The loop of `chunk_buffer` from `pos` on, or `none` after `n` rounds. -/
def chunkLoop (data : Bytes) : Nat → Nat → Option (List Bytes)
  | 0, _ => none
  | n + 1, pos =>
    if pos < data.length then
      let chunk_end := c.findChunkBoundary data pos c.targetMask
      (chunkLoop data n chunk_end).map (slice data pos chunk_end :: ·)
    else some []

/-- `chunk_buffer`, or `none` when its loop goes on for more than `fuel` rounds. -/
def chunkBuffer (fuel : Nat) (data : Bytes) : Option (List Bytes) :=
  if data.length = 0 then some [] else c.chunkLoop data fuel 0

/-- The octet at which the hash meets the mask first. -/
def firstHit (target_mask : Nat) : Nat → Bytes → Option Nat
  | _, [] => none
  | hash_value, b :: bs =>
    if c.pushHash hash_value b &&& target_mask = 0 then some 0
    else (firstHit target_mask (c.pushHash hash_value b) bs).map (· + 1)

/-- How long the first chunk of the data is. It ends at the first hit among the octets behind its
minimum length; the hash has seen the octets of the first window before. -/
def chunkLength (target_mask : Nat) (data : Bytes) : Nat :=
  if data.length ≤ MIN_CHUNK_SIZE then data.length
  else
    match c.firstHit target_mask ((data.take WINDOW_SIZE).foldl c.pushHash 0)
        ((data.drop MIN_CHUNK_SIZE).take (MAX_CHUNK_SIZE - MIN_CHUNK_SIZE)) with
    | some k => MIN_CHUNK_SIZE + k + 1
    | none => min MAX_CHUNK_SIZE data.length

section FirstHit

variable {c} {target_mask hash_value k : Nat}

theorem firstHit_lt {bs : Bytes} (h : c.firstHit target_mask hash_value bs = some k) :
    k < bs.length := by
  induction bs generalizing hash_value k with
  | nil => simp [firstHit] at h
  | cons b bs ih =>
    rw [firstHit] at h
    split at h
    · obtain rfl := Option.some.inj h
      exact Nat.succ_pos _
    · obtain ⟨j, hj, rfl⟩ := Option.map_eq_some_iff.mp h
      exact Nat.succ_lt_succ (ih hj)

/-- Among the first octets the first hit is the same, if it is there at all. -/
theorem firstHit_take (bs : Bytes) (n : Nat) :
    c.firstHit target_mask hash_value (bs.take n) =
      (c.firstHit target_mask hash_value bs).filter (fun k => k < n) := by
  induction bs generalizing hash_value n with
  | nil => simp [firstHit]
  | cons b bs ih =>
    cases n with
    | zero =>
      rw [List.take_zero, firstHit]
      cases c.firstHit target_mask hash_value (b :: bs) <;> rfl
    | succ n =>
      rw [List.take_succ_cons, firstHit, firstHit]
      split
      · rfl
      · rw [ih]
        cases c.firstHit target_mask (c.pushHash hash_value b) bs with
        | none => rfl
        | some k => by_cases hk : k < n <;> simp [Option.filter, hk]

end FirstHit

section Length

variable {c} {target_mask : Nat} {data : Bytes}

theorem chunkLength_of_le (h : data.length ≤ MIN_CHUNK_SIZE) :
    c.chunkLength target_mask data = data.length := if_pos h

/-- The length as a maximum that the first hit may fall short of. -/
theorem chunkLength_of_lt (h : MIN_CHUNK_SIZE < data.length) :
    c.chunkLength target_mask data =
      ((c.firstHit target_mask ((data.take WINDOW_SIZE).foldl c.pushHash 0)
        ((data.drop MIN_CHUNK_SIZE).take (MAX_CHUNK_SIZE - MIN_CHUNK_SIZE))).map
          (MIN_CHUNK_SIZE + · + 1)).getD (min MAX_CHUNK_SIZE data.length) := by
  rw [chunkLength, if_neg (by omega)]
  split <;> simp [*]

theorem chunkLength_bounds (target_mask : Nat) (h : MIN_CHUNK_SIZE < data.length) :
    MIN_CHUNK_SIZE < c.chunkLength target_mask data ∧
      c.chunkLength target_mask data ≤ min MAX_CHUNK_SIZE data.length := by
  have hsizes := sizes_lt
  rw [chunkLength_of_lt h]
  cases hhit : c.firstHit target_mask ((data.take WINDOW_SIZE).foldl c.pushHash 0)
      ((data.drop MIN_CHUNK_SIZE).take (MAX_CHUNK_SIZE - MIN_CHUNK_SIZE)) with
  | none =>
    rw [Option.map_none, Option.getD_none]
    omega
  | some k =>
    have hk := firstHit_lt hhit
    rw [List.length_take, List.length_drop] at hk
    rw [Option.map_some, Option.getD_some]
    omega

theorem chunkLength_take (data : Bytes) (n : Nat) :
    c.chunkLength target_mask (data.take n) = min (c.chunkLength target_mask data) n := by
  have hsizes := sizes_lt
  by_cases hdata : data.length ≤ MIN_CHUNK_SIZE
  · rw [chunkLength_of_le hdata, chunkLength_of_le (by rw [List.length_take]; omega),
      List.length_take, Nat.min_comm]
  have hbounds := c.chunkLength_bounds target_mask (Nat.lt_of_not_le hdata)
  by_cases hn : n ≤ MIN_CHUNK_SIZE
  · rw [chunkLength_of_le (by rw [List.length_take]; omega), List.length_take]
    omega
  by_cases hover : data.length ≤ n
  · rw [List.take_of_length_le hover]
    omega
  -- the hash begins with the same window, and meets the same octets as far as they are there
  have hsearch : ((data.take n).drop MIN_CHUNK_SIZE).take (MAX_CHUNK_SIZE - MIN_CHUNK_SIZE) =
      ((data.drop MIN_CHUNK_SIZE).take (MAX_CHUNK_SIZE - MIN_CHUNK_SIZE)).take
        (n - MIN_CHUNK_SIZE) := by
    rw [List.drop_take, List.take_take, List.take_take, Nat.min_comm]
  have hwindow : (data.take n).take WINDOW_SIZE = data.take WINDOW_SIZE := by
    rw [List.take_take, Nat.min_eq_left (by omega)]
  rw [chunkLength_of_lt (by rw [List.length_take]; omega), hsearch, hwindow, firstHit_take,
    chunkLength_of_lt (by omega), List.length_take]
  cases hhit : c.firstHit target_mask ((data.take WINDOW_SIZE).foldl c.pushHash 0)
      ((data.drop MIN_CHUNK_SIZE).take (MAX_CHUNK_SIZE - MIN_CHUNK_SIZE)) with
  | none =>
    simp only [Option.filter_none, Option.map_none, Option.getD_none]
    omega
  | some k =>
    have hk := firstHit_lt hhit
    rw [List.length_take, List.length_drop] at hk
    by_cases hkn : k < n - MIN_CHUNK_SIZE
    · simp only [Option.filter_some, hkn, decide_true, if_true, Option.map_some, Option.getD_some]
      omega
    · simp only [Option.filter_some, hkn, decide_false, Option.map_some, Option.getD_some]
      simp only [Bool.false_eq_true, if_false, Option.map_none, Option.getD_none]
      omega

end Length

/-- The chunks as a way of cutting that looks at the octets from the start of a chunk alone. -/
def cutter : Cutter UInt8 where
  cut := c.chunkLength c.targetMask
  cut_pos := by
    intro data hdata
    by_cases h : data.length ≤ MIN_CHUNK_SIZE
    · rw [chunkLength_of_le h]
      exact List.length_pos_of_ne_nil hdata
    · have hbounds := c.chunkLength_bounds c.targetMask (Nat.lt_of_not_le h)
      omega
  cut_take := chunkLength_take

section FindChunkBoundary

variable {c} {data : Bytes} {target_mask : Nat}

/-- The octet that leaves the window has been shifted out of the hash. -/
theorem rollHash_eq (hash_value : Nat) (old_byte octet : UInt8) :
    c.rollHash hash_value old_byte octet = c.pushHash hash_value octet := by
  have hwindow : c.gear old_byte * 2 ^ WINDOW_SIZE = 2 ^ 32 * (c.gear old_byte * 2 ^ 16) := by
    rw [WINDOW_SIZE]
    omega
  rw [rollHash, pushHash, lowWord, lowWord, Nat.shiftLeft_eq, Nat.shiftLeft_eq, hwindow]
  omega

theorem findChunkBoundary_eq_plain : c.findChunkBoundary = c.findChunkBoundaryPlain := by
  have hroll : c.rollHash = fun hash_value _ octet => c.pushHash hash_value octet := by
    funext hash_value old_byte octet
    exact rollHash_eq hash_value old_byte octet
  rw [findChunkBoundary, findChunkBoundaryPlain, hroll]

theorem searchLoop_eq {min_chunk_end n pos : Nat} (hpos : min_chunk_end ≤ pos)
    (hn : pos + n ≤ data.length) (hash_value : Nat) :
    c.searchLoop (fun hash_value _ octet => c.pushHash hash_value octet) data min_chunk_end
        target_mask n pos hash_value =
      (c.firstHit target_mask hash_value ((data.drop pos).take n)).map (pos + · + 1) := by
  induction n generalizing pos hash_value with
  | zero => simp [searchLoop, firstHit]
  | succ n ih =>
    have hlt : pos < data.length := by omega
    rw [List.drop_eq_getElem_cons hlt, List.take_succ_cons, searchLoop, firstHit]
    simp only [ite_self, List.getD_eq_getElem _ _ hlt]
    by_cases hhit : c.pushHash hash_value data[pos] &&& target_mask = 0
    · rw [if_pos ⟨hhit, hpos⟩, if_pos hhit]
      rfl
    · rw [if_neg (fun h => hhit h.1), if_neg hhit, ih (by omega) (by omega), Option.map_map]
      congr 1
      funext k
      simp only [Function.comp_apply]
      omega

/-- As many positions are searched as there are octets up to the maximum size. -/
theorem searched_eq {start len least most : Nat} (hleast : start + least ≤ len)
    (hlt : least < most) : min (min (start + most) len - (start + least)) (len - start - least) =
      min (most - least) (len - start - least) := by
  omega

theorem min_add_eq {start len most : Nat} (hstart : start ≤ len) :
    min (start + most) len = start + min most (len - start) := by
  omega

/-- Where a chunk ends depends on the octets from its start on, and not on where it starts. -/
theorem findChunkBoundary_eq {start_pos : Nat} (hstart : start_pos ≤ data.length) :
    c.findChunkBoundary data start_pos target_mask =
      start_pos + c.chunkLength target_mask (data.drop start_pos) := by
  have hsizes := sizes_lt
  rw [findChunkBoundary_eq_plain, findChunkBoundaryPlain, findBoundaryBy]
  dsimp only
  by_cases hshort : (data.drop start_pos).length ≤ MIN_CHUNK_SIZE
  · rw [chunkLength_of_le hshort]
    rw [List.length_drop] at hshort ⊢
    rw [if_pos (by omega)]
    omega
  rw [chunkLength_of_lt (by omega)]
  rw [List.length_drop] at hshort ⊢
  have hwindow : min (start_pos + WINDOW_SIZE) data.length = start_pos + WINDOW_SIZE := by omega
  have hmin : min (start_pos + MIN_CHUNK_SIZE) data.length = start_pos + MIN_CHUNK_SIZE := by omega
  rw [if_neg (by omega), hwindow, hmin, if_neg (by omega), searchLoop_eq (Nat.le_refl _) (by omega),
    Nat.add_sub_cancel_left, ← List.drop_drop]
  have hoctets : (List.range' start_pos WINDOW_SIZE).map (fun i => data.getD i 0) =
      (data.drop start_pos).take WINDOW_SIZE := by
    apply List.ext_getElem
    · rw [List.length_map, List.length_range', List.length_take, List.length_drop]
      omega
    · intro i hi hi'
      rw [List.length_map, List.length_range'] at hi
      rw [List.getElem_map, List.getElem_range', List.getElem_take, List.getElem_drop,
        List.getD_eq_getElem _ _ (by omega)]
      simp only [Nat.one_mul]
  have hoctets' : ((data.drop start_pos).drop MIN_CHUNK_SIZE).take
      (min (start_pos + MAX_CHUNK_SIZE) data.length - (start_pos + MIN_CHUNK_SIZE)) =
      ((data.drop start_pos).drop MIN_CHUNK_SIZE).take (MAX_CHUNK_SIZE - MIN_CHUNK_SIZE) := by
    rw [List.take_eq_take_iff, List.length_drop, List.length_drop]
    exact searched_eq (by omega) hsizes.2
  rw [hoctets, hoctets']
  cases c.firstHit target_mask (((data.drop start_pos).take WINDOW_SIZE).foldl c.pushHash 0)
      (((data.drop start_pos).drop MIN_CHUNK_SIZE).take (MAX_CHUNK_SIZE - MIN_CHUNK_SIZE)) with
  | none =>
    rw [Option.map_none, Option.map_none, Option.getD_none, Option.getD_none]
    exact min_add_eq hstart
  | some k =>
    rw [Option.map_some, Option.map_some, Option.getD_some, Option.getD_some]
    omega

end FindChunkBoundary

section ChunkBuffer

variable {c} {data : Bytes}

theorem chunkLoop_eq {fuel pos : Nat} (hpos : pos ≤ data.length)
    (hfuel : data.length - pos < fuel) :
    c.chunkLoop data fuel pos = some (c.cutter.chunks (data.drop pos)) := by
  induction fuel generalizing pos with
  | zero => omega
  | succ fuel ih =>
    rw [chunkLoop]
    by_cases hlt : pos < data.length
    · have hne : data.drop pos ≠ [] := List.drop_eq_nil_iff.not.mpr (by omega)
      have hcut : c.cutter.cut (data.drop pos) = c.chunkLength c.targetMask (data.drop pos) := rfl
      have hpositive := c.cutter.cut_pos hne
      have hle := c.cutter.cut_le (data.drop pos)
      rw [List.length_drop] at hle
      rw [if_pos hlt]
      dsimp only
      rw [findChunkBoundary_eq hpos, ← hcut, ih (by omega) (by omega), Option.map_some,
        Cutter.chunks_of_ne_nil hne, List.drop_drop, slice_natCast data (by omega) (by omega),
        Nat.add_sub_cancel_left]
    · rw [if_neg hlt, List.drop_eq_nil_of_le (by omega), Cutter.chunks_nil]

theorem chunkBuffer_eq {fuel : Nat} (hfuel : data.length < fuel) :
    c.chunkBuffer fuel data = some (c.cutter.chunks data) := by
  rw [chunkBuffer]
  split
  · next h => rw [List.eq_nil_of_length_eq_zero h, Cutter.chunks_nil]
  · rw [chunkLoop_eq (Nat.zero_le _) (by omega), List.drop_zero]

theorem chunk_length_le {chunk : Bytes} (h : chunk ∈ c.cutter.chunks data) :
    chunk.length ≤ MAX_CHUNK_SIZE := by
  obtain ⟨rest, -, rfl⟩ := Cutter.exists_of_mem_chunks h
  have hcut : c.cutter.cut rest = c.chunkLength c.targetMask rest := rfl
  have hsizes := sizes_lt
  rw [List.length_take, hcut]
  by_cases hrest : rest.length ≤ MIN_CHUNK_SIZE
  · omega
  · have hbounds := c.chunkLength_bounds c.targetMask (Nat.lt_of_not_le hrest)
    omega

theorem le_chunk_length {chunk : Bytes} (h : chunk ∈ (c.cutter.chunks data).dropLast) :
    MIN_CHUNK_SIZE ≤ chunk.length := by
  obtain ⟨rest, hmore, rfl⟩ := Cutter.exists_of_mem_dropLast h
  have hcut : c.cutter.cut rest = c.chunkLength c.targetMask rest := rfl
  rw [hcut] at hmore
  rw [List.length_take, hcut]
  by_cases hrest : rest.length ≤ MIN_CHUNK_SIZE
  · rw [chunkLength_of_le hrest] at hmore
    omega
  · have hbounds := c.chunkLength_bounds c.targetMask (Nat.lt_of_not_le hrest)
    omega

end ChunkBuffer

/-- With enough rounds the loop comes to an end, always with this result. -/
def Returns {β : Type} (loop : Nat → Option β) (result : β) : Prop :=
  ∃ n, ∀ fuel, n ≤ fuel → loop fuel = some result

theorem Returns.unique {β : Type} {loop : Nat → Option β} {result result' : β}
    (h : Returns loop result) (h' : Returns loop result') : result = result' := by
  obtain ⟨n, hn⟩ := h
  obtain ⟨n', hn'⟩ := h'
  have hboth := (hn _ (Nat.le_max_left n n')).symm.trans (hn' _ (Nat.le_max_right n n'))
  exact Option.some.inj hboth

theorem chunkBuffer_returns (data : Bytes) :
    Returns (c.chunkBuffer · data) (c.cutter.chunks data) :=
  ⟨data.length + 1, fun _ hfuel => chunkBuffer_eq hfuel⟩

/-- Chunking ends, and the chunks are a partition of the data within the bounds. What is subtracted
for the octet that leaves the window changes neither the hash nor a boundary. -/
theorem chunkBuffer_partition (data : Bytes) :
    (∃ chunks, Returns (c.chunkBuffer · data) chunks ∧ chunks.flatten = data ∧
      (∀ chunk ∈ chunks, chunk ≠ [] ∧ chunk.length ≤ MAX_CHUNK_SIZE) ∧
      ∀ chunk ∈ chunks.dropLast, MIN_CHUNK_SIZE ≤ chunk.length) ∧
    (∀ hash_value old_byte octet,
      c.rollHash hash_value old_byte octet = c.pushHash hash_value octet) ∧
    ∀ start_pos target_mask, c.findChunkBoundary data start_pos target_mask =
      c.findChunkBoundaryPlain data start_pos target_mask := by
  refine ⟨⟨_, c.chunkBuffer_returns data, Cutter.flatten_chunks data, fun chunk hchunk => ?_,
    fun chunk => le_chunk_length⟩, rollHash_eq, fun start_pos target_mask => ?_⟩
  · exact ⟨Cutter.ne_nil_of_mem_chunks hchunk, chunk_length_le hchunk⟩
  · rw [findChunkBoundary_eq_plain]

end GearhashChunker

end Ccbt.Xet

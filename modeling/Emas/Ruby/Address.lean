/-
**Line addresses.**

`mem/ruby/common/Address.cc`, for lines of `2 ^ blockBits` bytes.
-/

import Emas.Gem5.Indexing

namespace Emas.Ruby

open Gem5

def bitSelect (addr : Addr) (small big : Nat) : Addr := bits addr big small

def makeLineAddress (blockBits : Nat) (addr : Addr) : Addr := addr &&& ~~~ ones blockBits

def getOffset (blockBits : Nat) (addr : Addr) : Addr := bitSelect addr 0 (blockBits - 1)

theorem toNat_ones {n : Nat} (inside : n < 64) : (ones n).toNat = 2 ^ n - 1 := by
  have power : 2 ^ n < 2 ^ 64 := Nat.pow_lt_pow_right (by decide) inside
  have one : (1#64).toNat = 1 := rfl
  have shifted : (1#64 <<< n).toNat = 2 ^ n := by
    rw [BitVec.toNat_shiftLeft, one, Nat.one_shiftLeft, Nat.mod_eq_of_lt power]
  have positive := Nat.two_pow_pos n
  rw [ones, if_neg (Nat.ne_of_lt inside), BitVec.toNat_sub, shifted, one]
  omega

theorem toNat_ones_lt (n : Nat) : (ones n).toNat < 2 ^ n := by
  by_cases inside : n < 64
  · rw [toNat_ones inside]
    exact Nat.sub_lt (Nat.two_pow_pos n) Nat.one_pos
  · rw [ones]
    split
    next all => exact all ▸ (BitVec.allOnes 64).isLt
    next => exact Nat.lt_of_lt_of_le (BitVec.isLt _) (Nat.pow_le_pow_right Nat.zero_lt_two (Nat.le_of_not_lt inside))

theorem toNat_bitSelect_lt (addr : Addr) (small big : Nat) : (bitSelect addr small big).toNat < 2 ^ (big + 1 - small) := by
  rw [bitSelect, bits, BitVec.toNat_and]
  exact Nat.lt_of_le_of_lt Nat.and_le_right (toNat_ones_lt _)

/-! ### Data blocks

`class DataBlock` of `mem/ruby/common/DataBlock.cc`: the byte at each offset of a line. Where an assertion fails there is
no result.
-/

/-- `class DataBlock`. -/
abbrev DataBlock : Type := Nat → UInt8

namespace DataBlock

variable (blockSize : Nat) (block : DataBlock)

/-- `clear( )`. -/
def clear : DataBlock := fun _ => 0

def bytes (offset len : Nat) : List UInt8 := (List.range len).map fun i => block (offset + i)

/-- The block with these bytes from an offset on. -/
def overwrite (data : List UInt8) (offset len : Nat) : DataBlock := fun i =>
  if offset ≤ i ∧ i < offset + len then data.getD (i - offset) 0 else block i

/-- `getData( offset, len )`, with the bytes that are read there. -/
def getData (offset len : Nat) : Option (List UInt8) :=
  if offset + len ≤ blockSize then some (block.bytes offset len) else none

/-- `setData( data, offset, len )`. -/
def setData (data : List UInt8) (offset len : Nat) : Option DataBlock :=
  if offset + len ≤ blockSize then some (block.overwrite data offset len) else none

end DataBlock

end Emas.Ruby

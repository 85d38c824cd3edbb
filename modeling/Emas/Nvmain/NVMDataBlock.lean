/-
**Blocks of data.**

`class NVMDataBlock`, with the memory that `rawData` points to: a buffer has the length it was allocated with, and
what a function reads or writes is an index into it. `delete` and the flag `SetValid` sets are left out.

* `safe_iff`: **every access is inside, and every size**, in exactly the runs in which no byte is accessed at the size
  of a buffer and no block is assigned to a buffer that is too short for it.
-/

import Emas.Lib.ActionRun
import Mathlib.Order.Nat

namespace Emas.Nvmain

/-! ### A block -/

/-- What `new uint8_t[allocated]` gives. -/
structure DataBuffer where
  allocated : Nat
  bytes : Nat → UInt8

/-- `class NVMDataBlock`; no buffer is `NULL`. -/
structure NVMDataBlock where
  rawData : Option DataBuffer
  isValid : Bool
  size : Nat

namespace NVMDataBlock

/-- `NVMDataBlock( )`. -/
def fresh : NVMDataBlock := ⟨none, false, 0⟩

/-- `SetSize( s )`, less its `assert`; the bytes are not initialised. -/
def setSize (_block : NVMDataBlock) (bytes : Nat → UInt8) (s : Nat) : NVMDataBlock where
  rawData := some ⟨s, bytes⟩
  isValid := true
  size := s

variable (block : NVMDataBlock)

/-- The allocated length of `rawData`. -/
def allocated : Nat := block.rawData.elim 0 DataBuffer.allocated

/-- `GetByte( byte )`, with the indices that it reads. -/
def getByte (byte : Nat) : UInt8 × List Nat :=
  if block.isValid ∧ byte ≤ block.size then (block.rawData.elim 0 fun buffer => buffer.bytes byte, [byte]) else (0, [])

/-- `SetByte( byte, value )`, with the indices that it writes. -/
def setByte (byte : Nat) (value : UInt8) : NVMDataBlock × List Nat :=
  if byte ≤ block.size then
    ({ block with
        rawData := block.rawData.map fun buffer =>
          { buffer with bytes := Function.update buffer.bytes byte value } }, [byte])
  else (block, [])

/-- `operator=( m )`: a buffer is only allocated where there is none. -/
def assign (bytes : Nat → UInt8) (m : NVMDataBlock) : NVMDataBlock where
  rawData := match m.rawData with
    | none => block.rawData
    | some data =>
      let buffer := block.rawData.getD ⟨m.size, bytes⟩
      some { buffer with bytes := fun byte => if byte < m.size then data.bytes byte else buffer.bytes byte }
  isValid := m.isValid
  size := m.size

end NVMDataBlock

/-! ### The blocks of a program -/

/-- The blocks, and the accesses to their bytes: the index and the length of the buffer. -/
structure Blocks where
  block : Nat → NVMDataBlock
  accesses : List (Nat × Nat)

/-- What a program does with its blocks. -/
inductive BlockOp where
  | construct (i : Nat)
  | setSize (i s : Nat)
  | assign (i j : Nat)
  | getByte (i byte : Nat)
  | setByte (i byte : Nat) (value : UInt8)

namespace Blocks

/-- There are no bytes. -/
def start : Blocks := ⟨fun _ => .fresh, []⟩

/-- Notes the places that are accessed. -/
def access (blocks : Blocks) (i : Nat) (indices : List Nat) : Blocks :=
  { blocks with accesses := blocks.accesses ++ indices.map fun index => (index, (blocks.block i).allocated) }

/-- A block is replaced. -/
def set (blocks : Blocks) (i : Nat) (block : NVMDataBlock) : Blocks :=
  { blocks with block := Function.update blocks.block i block }

/-- One operation; `bytes` is what is in memory that was not initialised. -/
def perform (bytes : Nat → UInt8) (blocks : Blocks) : BlockOp → Blocks
  | .construct i => blocks.set i .fresh
  | .setSize i s => blocks.set i ((blocks.block i).setSize bytes s)
  | .assign i j => blocks.set i ((blocks.block i).assign bytes (blocks.block j))
  | .getByte i byte => blocks.access i ((blocks.block i).getByte byte).2
  | .setByte i byte value =>
    (blocks.access i ((blocks.block i).setByte byte value).2).set i ((blocks.block i).setByte byte value).1

/-- No size is beyond its buffer, and every access was inside of one. -/
structure Safe (blocks : Blocks) : Prop where
  sizes : ∀ i, (blocks.block i).size ≤ (blocks.block i).allocated
  inside : ∀ access ∈ blocks.accesses, access.1 < access.2

/-- No byte at the size of the buffer, and no block that is longer than the buffer it is assigned to. -/
def Fits (blocks : Blocks) : BlockOp → Prop
  | .construct _ | .setSize _ _ => True
  | .assign i j => (blocks.block i).rawData = none ∨ (blocks.block j).size ≤ (blocks.block i).allocated
  | .getByte i byte =>
    (blocks.block i).isValid = true → byte = (blocks.block i).size → byte < (blocks.block i).allocated
  | .setByte i byte _ => byte = (blocks.block i).size → byte < (blocks.block i).allocated

theorem safe_start : start.Safe := ⟨fun _ => Nat.le_refl _, nofun⟩

section Safety

variable {blocks : Blocks} {i : Nat}

theorem set_self (block : NVMDataBlock) : (blocks.set i block).block i = block := Function.update_self ..

theorem set_of_ne {j : Nat} (apart : j ≠ i) (block : NVMDataBlock) : (blocks.set i block).block j = blocks.block j :=
  Function.update_of_ne apart ..

theorem safe_set_iff (safe : blocks.Safe) {block : NVMDataBlock} :
    (blocks.set i block).Safe ↔ block.size ≤ block.allocated := by
  constructor
  · rintro ⟨sizes, -⟩
    have here := sizes i
    rwa [set_self] at here
  · refine fun fits => ⟨fun j => ?_, safe.inside⟩
    rcases eq_or_ne j i with rfl | apart
    · rwa [set_self]
    · rw [set_of_ne apart]
      exact safe.sizes j

theorem safe_access_iff (safe : blocks.Safe) {indices : List Nat} :
    (blocks.access i indices).Safe ↔ ∀ index ∈ indices, index < (blocks.block i).allocated := by
  constructor
  · rintro ⟨-, inside⟩ index member
    exact inside (index, (blocks.block i).allocated) (List.mem_append_right _ (List.mem_map_of_mem member))
  · refine fun each => ⟨safe.sizes, fun access member => ?_⟩
    rcases List.mem_append.mp member with old | new
    · exact safe.inside access old
    · obtain ⟨index, accessed, rfl⟩ := List.mem_map.mp new
      exact each index accessed

theorem lt_iff_of_le (fits : (blocks.block i).size ≤ (blocks.block i).allocated) {byte : Nat}
    (small : byte ≤ (blocks.block i).size) :
    byte < (blocks.block i).allocated ↔ (byte = (blocks.block i).size → byte < (blocks.block i).allocated) := by
  refine ⟨fun inside _ => inside, fun inside => ?_⟩
  rcases Nat.lt_or_eq_of_le small with below | last
  · exact below.trans_le fits
  · exact inside last

theorem getByte_inside_iff (fits : (blocks.block i).size ≤ (blocks.block i).allocated) (byte : Nat) :
    (∀ index ∈ ((blocks.block i).getByte byte).2, index < (blocks.block i).allocated) ↔
      blocks.Fits (.getByte i byte) := by
  unfold NVMDataBlock.getByte
  split
  · rename_i both
    rw [List.forall_mem_singleton, lt_iff_of_le fits both.2]
    exact ⟨fun inside _ => inside, fun inside => inside both.1⟩
  · rename_i either
    refine iff_of_true nofun fun valid last => absurd ⟨valid, last.le⟩ either

theorem setByte_inside_iff (fits : (blocks.block i).size ≤ (blocks.block i).allocated) (byte : Nat) (value : UInt8) :
    (∀ index ∈ ((blocks.block i).setByte byte value).2, index < (blocks.block i).allocated) ↔
      blocks.Fits (.setByte i byte value) := by
  unfold NVMDataBlock.setByte
  split
  · rename_i small
    rw [List.forall_mem_singleton, lt_iff_of_le fits small]
    rfl
  · rename_i large
    exact iff_of_true nofun fun last => absurd last.le large

theorem setByte_sizes (block : NVMDataBlock) (byte : Nat) (value : UInt8) :
    (block.setByte byte value).1.size = block.size ∧ (block.setByte byte value).1.allocated = block.allocated := by
  unfold NVMDataBlock.setByte
  split
  · refine ⟨rfl, ?_⟩
    unfold NVMDataBlock.allocated
    cases block.rawData <;> rfl
  · exact ⟨rfl, rfl⟩

theorem assign_fits_iff (bytes : Nat → UInt8) {block m : NVMDataBlock} (fits : m.size ≤ m.allocated) :
    (block.assign bytes m).size ≤ (block.assign bytes m).allocated ↔
      block.rawData = none ∨ m.size ≤ block.allocated := by
  unfold NVMDataBlock.assign NVMDataBlock.allocated at *
  cases data : m.rawData with
  | none =>
    rw [data] at fits
    have empty : m.size = 0 := Nat.le_zero.mp fits
    dsimp only
    rw [empty]
    exact iff_of_true (Nat.zero_le _) (Or.inr (Nat.zero_le _))
  | some buffer =>
    cases own : block.rawData with
    | none => exact iff_of_true (Nat.le_refl _) (Or.inl rfl)
    | some kept => simp

/-- **One operation** keeps everything inside exactly if it fits. -/
theorem safe_perform_iff (bytes : Nat → UInt8) (safe : blocks.Safe) (op : BlockOp) :
    (blocks.perform bytes op).Safe ↔ blocks.Fits op := by
  cases op with
  | construct i => exact (safe_set_iff safe).trans (iff_of_true (Nat.le_refl _) trivial)
  | setSize i s => exact (safe_set_iff safe).trans (iff_of_true (Nat.le_refl _) trivial)
  | assign i j => exact (safe_set_iff safe).trans (assign_fits_iff bytes (safe.sizes j))
  | getByte i byte => exact (safe_access_iff safe).trans (getByte_inside_iff (safe.sizes i) byte)
  | setByte i byte value =>
    obtain ⟨size, allocated⟩ := setByte_sizes (blocks.block i) byte value
    have sizes : ((blocks.block i).setByte byte value).1.size ≤ ((blocks.block i).setByte byte value).1.allocated := by
      rw [size, allocated]
      exact safe.sizes i
    rw [← setByte_inside_iff (safe.sizes i) byte value, ← safe_access_iff safe]
    constructor
    · intro after
      exact ⟨safe.sizes, after.inside⟩
    · intro accessed
      exact (safe_set_iff accessed).mpr sizes

end Safety

/-- **Every access is inside, and every size**, after each operation of a run, exactly if all of them fit. -/
theorem safe_iff (bytes : Nat → UInt8) (ops : List BlockOp) :
    (∀ passed rest, passed ++ rest = ops → (runActions (perform bytes) start passed).Safe) ↔
      AllowedRun (perform bytes) Fits start ops :=
  AllowedRun.iff_forall_prefix Safe (fun _ op safe => safe_perform_iff bytes safe op) safe_start ops

/-- A byte at the size is read; and a block of four bytes is assigned to one of one. -/
theorem accesses_outside :
    ¬(runActions (perform fun _ => 0) start [.construct 0, .setSize 0 4, .getByte 0 4]).Safe ∧
      ¬(runActions (perform fun _ => 0) start [.setSize 0 1, .setSize 1 4, .assign 0 1]).Safe := by
  refine ⟨fun safe => ?_, fun safe => ?_⟩
  · exact absurd (safe.inside (4, 4) (List.mem_singleton_self _)) (Nat.lt_irrefl 4)
  · exact absurd (safe.sizes 0) (by decide : ¬4 ≤ 1)

end Blocks

end Emas.Nvmain

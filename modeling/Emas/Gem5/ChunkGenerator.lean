/-
**Chunks of a region.**

`base/chunk_generator.hh`: a region of addresses is decomposed into chunks that end at the multiples of a
chunk size. Addresses are 64 bits wide and sizes 32, so `roundUp` and the end of the region may wrap.

`chunks` is the loop `for (; !gen.done(); gen.next())`: the generators that its body sees.

### The theorem

`region_partitioned`: the loop ends, and what it sees is a `Partition`. The induction is over the bytes
that are left; `Chunked start size chunk produced gen` says where a generator stands that has `produced`
bytes behind it.
-/

import Emas.Gem5.IntMath
import Mathlib.Data.List.Basic

namespace Emas.Gem5

/-! ### The generator -/

/-- `roundUp( val, align )` of an address, but for the assertion on `align`. -/
def roundUp (val align : BitVec 64) : BitVec 64 := (val + (align - 1)) &&& ~~~(align - 1)

/-- `class ChunkGenerator`. -/
structure ChunkGenerator where
  curAddr : BitVec 64
  nextAddr : BitVec 64
  curSize : BitVec 32
  sizeLeft : BitVec 32
  startAddr : BitVec 64
  chunkSize : BitVec 32
  deriving DecidableEq, Repr

namespace ChunkGenerator

/-- `std::min` of two sizes. -/
def minSize (a b : BitVec 32) : BitVec 32 := if b < a then b else a

def firstEnd (startAddr : BitVec 64) (totalSize chunkSize : BitVec 32) : BitVec 64 :=
  if chunkSize = 0 then startAddr + totalSize.setWidth 64
  else
    let next := roundUp startAddr (chunkSize.setWidth 64)
    if startAddr = next then next + chunkSize.setWidth 64 else next

/-- The constructor; `none` when its assertion fails. -/
def create (startAddr : BitVec 64) (totalSize chunkSize : BitVec 32) : Option ChunkGenerator :=
  if chunkSize = 0 ∨ isPowerOf2 chunkSize.toNat then
    let nextAddr := firstEnd startAddr totalSize chunkSize
    let leftInChunk := (nextAddr - startAddr).setWidth 32
    let curSize := minSize totalSize leftInChunk
    some
      { curAddr := startAddr
        nextAddr := nextAddr
        curSize := curSize
        sizeLeft := totalSize - curSize
        startAddr := startAddr
        chunkSize := chunkSize }
  else none

def addr (gen : ChunkGenerator) : BitVec 64 := gen.curAddr

def size (gen : ChunkGenerator) : BitVec 32 := gen.curSize

def complete (gen : ChunkGenerator) : BitVec 32 := (gen.curAddr - gen.startAddr).setWidth 32

def done (gen : ChunkGenerator) : Bool := gen.curSize == 0

def last (gen : ChunkGenerator) : Bool := gen.sizeLeft == 0

def next (gen : ChunkGenerator) : Bool × ChunkGenerator :=
  if gen.sizeLeft = 0 then (false, { gen with curSize := 0 })
  else
    let curSize := minSize gen.sizeLeft gen.chunkSize
    (true,
      { gen with
        curAddr := gen.nextAddr
        curSize := curSize
        sizeLeft := gen.sizeLeft - curSize
        nextAddr := gen.nextAddr + curSize.setWidth 64 })

/-- The generators that the body of the loop sees; `none` when the loop is not done in `fuel` rounds. -/
def chunks : Nat → ChunkGenerator → Option (List ChunkGenerator)
  | 0, gen => if gen.done then some [] else none
  | fuel + 1, gen => if gen.done then some [] else (chunks fuel gen.next.2).map (gen :: ·)

theorem chunks_of_done {gen : ChunkGenerator} (done : gen.done) (fuel : Nat) : gen.chunks fuel = some [] := by
  cases fuel with
  | zero => exact if_pos done
  | succ fuel => exact if_pos done

/-! ### What a decomposition is -/

/-- The bytes of some chunks. -/
def produced (seen : List ChunkGenerator) : Nat := (seen.map (·.size.toNat)).sum

@[simp]
theorem produced_nil : produced [] = 0 := rfl

@[simp]
theorem produced_cons (gen : ChunkGenerator) (rest : List ChunkGenerator) :
    produced (gen :: rest) = gen.size.toNat + produced rest := List.sum_cons

/-- A chunk that has `before` bytes of the region `[start, start + size)` in front of it. -/
structure IsChunk (start chunk before : Nat) (gen : ChunkGenerator) : Prop where
  nonempty : 0 < gen.size.toNat
  consecutive : gen.addr.toNat = start + before
  inside : 0 < chunk → gen.addr.toNat % chunk + gen.size.toNat ≤ chunk
  complete : gen.complete.toNat = before

/-- The chunks `seen` decompose the region `[start, start + size)`. -/
structure Partition (start size chunk : Nat) (seen : List ChunkGenerator) : Prop where
  covers : produced seen = size
  isChunk : ∀ before gen after, seen = before ++ gen :: after → IsChunk start chunk (produced before) gen
  last : ∀ before gen after, seen = before ++ gen :: after → (gen.last ↔ after = [])

/-! ### Rounding up -/

theorem mod_div_mul {unit limit : Nat} (dvd : unit ∣ limit) (x : Nat) :
    x % limit / unit * unit = x / unit * unit % limit := by
  obtain ⟨count, rfl⟩ := dvd
  rw [Nat.mod_mul_right_div_self, Nat.mul_comm unit count, Nat.mul_mod_mul_right]

theorem firstEnd_eq {startAddr : BitVec 64} {chunkSize : BitVec 32} {k : Nat} (totalSize : BitVec 32)
    (power : chunkSize.toNat = 2 ^ k) :
    (firstEnd startAddr totalSize chunkSize).toNat
      = (startAddr.toNat + (2 ^ k - startAddr.toNat % 2 ^ k)) % 2 ^ 64 := by
  have positive := Nat.two_pow_pos k
  have narrow := chunkSize.isLt
  have dvd : 2 ^ k ∣ 2 ^ 64 := Nat.pow_dvd_pow 2 (Nat.le_of_lt_succ
    ((Nat.pow_lt_pow_iff_right Nat.one_lt_two).mp (by omega)))
  have notZero : chunkSize ≠ 0 := fun zero => by
    rw [zero] at power
    exact positive.ne power
  have wide : (chunkSize.setWidth 64).toNat = 2 ^ k := by
    rw [BitVec.toNat_setWidth, power, Nat.mod_eq_of_lt (by omega)]
  have low : (chunkSize.setWidth 64 - 1).toNat = 2 ^ k - 1 := by
    rw [BitVec.toNat_sub_of_le (by rw [BitVec.le_def, wide]; exact positive), wide]
    rfl
  have rounded : (roundUp startAddr (chunkSize.setWidth 64)).toNat
      = (startAddr.toNat + (2 ^ k - 1)) / 2 ^ k * 2 ^ k % 2 ^ 64 := by
    rw [roundUp, toNat_and_not_low _ low, BitVec.toNat_add, low, mod_div_mul dvd]
  have split := Nat.div_add_mod startAddr.toNat (2 ^ k)
  have below := Nat.mod_lt startAddr.toNat positive
  rw [firstEnd, if_neg notZero]
  rcases Nat.eq_zero_or_pos (startAddr.toNat % 2 ^ k) with aligned | inside
  · -- an aligned start rounds up to itself, so that the chunk size is added
    have quotient : (startAddr.toNat + (2 ^ k - 1)) / 2 ^ k = startAddr.toNat / 2 ^ k := by
      rw [Nat.div_eq_iff positive]
      rw [Nat.mul_comm] at split
      omega
    have fixed : roundUp startAddr (chunkSize.setWidth 64) = startAddr := by
      apply BitVec.eq_of_toNat_eq
      rw [rounded, quotient, Nat.mul_comm]
      omega
    simp only [fixed, if_true]
    rw [BitVec.toNat_add, wide, aligned, Nat.sub_zero]
  · have quotient : (startAddr.toNat + (2 ^ k - 1)) / 2 ^ k = startAddr.toNat / 2 ^ k + 1 := by
      rw [Nat.div_eq_iff positive, Nat.add_mul, Nat.one_mul]
      rw [Nat.mul_comm] at split
      omega
    have moved : startAddr ≠ roundUp startAddr (chunkSize.setWidth 64) := fun same => by
      have multiple : 2 ^ k ∣ startAddr.toNat := by
        rw [same, rounded]
        exact (Nat.dvd_mod_iff dvd).mpr (Nat.dvd_mul_left _ _)
      exact inside.ne' (Nat.mod_eq_zero_of_dvd multiple)
    simp only [if_neg moved]
    rw [rounded, quotient, Nat.add_mul, Nat.one_mul, Nat.mul_comm]
    congr 1
    omega

theorem toNat_minSize (a b : BitVec 32) : (minSize a b).toNat = min a.toNat b.toNat := by
  rw [minSize]
  split
  next less => exact (Nat.min_eq_right (Nat.le_of_lt less)).symm
  next notLess => exact (Nat.min_eq_left (Nat.le_of_not_lt notLess)).symm

/-! ### Where the generator stands -/

/-- A generator that has `before` bytes of the region behind it and is not done. -/
structure Chunked (start size chunk before : Nat) (gen : ChunkGenerator) : Prop where
  startAddr : gen.startAddr.toNat = start
  chunkSize : gen.chunkSize.toNat = chunk
  curAddr : gen.curAddr.toNat = start + before
  nonempty : 0 < gen.curSize.toNat
  inside : 0 < chunk → gen.curAddr.toNat % chunk + gen.curSize.toNat ≤ chunk
  total : before + gen.curSize.toNat + gen.sizeLeft.toNat = size
  -- a chunk that is not the last one ends at a multiple of the chunk size
  more : 0 < gen.sizeLeft.toNat → 0 < chunk ∧ chunk ∣ start + before + gen.curSize.toNat ∧
    gen.nextAddr.toNat = start + before + gen.curSize.toNat

section Steps

variable {start size chunk before : Nat} {gen : ChunkGenerator}

theorem Chunked.isChunk (chunked : Chunked start size chunk before gen) (short : size < 2 ^ 32) :
    IsChunk start chunk before gen where
  nonempty := chunked.nonempty
  consecutive := chunked.curAddr
  inside := chunked.inside
  complete := by
    have total := chunked.total
    have started : gen.startAddr ≤ gen.curAddr := by
      rw [BitVec.le_def, chunked.startAddr, chunked.curAddr]
      exact Nat.le_add_right start before
    rw [complete, BitVec.toNat_setWidth, BitVec.toNat_sub_of_le started, chunked.startAddr, chunked.curAddr]
    omega

theorem done_eq_false (nonempty : 0 < gen.curSize.toNat) : gen.done = false := by
  rw [done, beq_eq_false_iff_ne]
  rintro zero
  rw [zero] at nonempty
  exact Nat.lt_irrefl 0 nonempty

theorem last_iff : gen.last ↔ gen.sizeLeft.toNat = 0 := by
  rw [last, beq_iff_eq, ← BitVec.toNat_inj]
  rfl

theorem Chunked.next (chunked : Chunked start size chunk before gen) (fits : start + size ≤ 2 ^ 64)
    (left : 0 < gen.sizeLeft.toNat) : Chunked start size chunk (before + gen.curSize.toNat) gen.next.2 := by
  obtain ⟨positive, aligned, nextAddr⟩ := chunked.more left
  have total := chunked.total
  have notZero : gen.sizeLeft ≠ 0 := fun zero => by
    rw [zero] at left
    exact Nat.lt_irrefl 0 left
  have size' : (minSize gen.sizeLeft gen.chunkSize).toNat = min gen.sizeLeft.toNat chunk := by
    rw [toNat_minSize, chunked.chunkSize]
  have left' : (gen.sizeLeft - minSize gen.sizeLeft gen.chunkSize).toNat
      = gen.sizeLeft.toNat - min gen.sizeLeft.toNat chunk := by
    rw [BitVec.toNat_sub_of_le (by rw [BitVec.le_def, size']; exact Nat.min_le_left _ _), size']
  have wide : ((minSize gen.sizeLeft gen.chunkSize).setWidth 64).toNat = min gen.sizeLeft.toNat chunk := by
    rw [BitVec.toNat_setWidth, size', Nat.mod_eq_of_lt (by omega)]
  rw [ChunkGenerator.next, if_neg notZero]
  refine ⟨chunked.startAddr, chunked.chunkSize, ?_, ?_, fun _ => ?_, ?_, fun more => ⟨positive, ?_, ?_⟩⟩
  · exact nextAddr.trans (Nat.add_assoc ..)
  · exact size' ▸ Nat.lt_min.mpr ⟨left, positive⟩
  · show gen.nextAddr.toNat % chunk + (minSize gen.sizeLeft gen.chunkSize).toNat ≤ chunk
    rw [nextAddr, Nat.mod_eq_zero_of_dvd aligned, size', Nat.zero_add]
    exact Nat.min_le_right _ _
  · show before + gen.curSize.toNat + (minSize gen.sizeLeft gen.chunkSize).toNat
      + (gen.sizeLeft - minSize gen.sizeLeft gen.chunkSize).toNat = size
    rw [size', left']
    omega
  · have whole : min gen.sizeLeft.toNat chunk = chunk := by
      rw [left'] at more
      omega
    show chunk ∣ start + (before + gen.curSize.toNat) + (minSize gen.sizeLeft gen.chunkSize).toNat
    rw [size', whole, ← Nat.add_assoc]
    exact Nat.dvd_add aligned (Nat.dvd_refl chunk)
  · rw [left'] at more
    show (gen.nextAddr + (minSize gen.sizeLeft gen.chunkSize).setWidth 64).toNat
      = start + (before + gen.curSize.toNat) + (minSize gen.sizeLeft gen.chunkSize).toNat
    rw [BitVec.toNat_add, wide, nextAddr, size', Nat.mod_eq_of_lt (by omega), ← Nat.add_assoc start]

theorem chunks_next_last (fuel : Nat) (last : gen.sizeLeft.toNat = 0) : chunks fuel gen.next.2 = some [] := by
  have zero : gen.sizeLeft = 0 := BitVec.eq_of_toNat_eq last
  rw [next, if_pos zero]
  exact chunks_of_done rfl fuel

/-- **The loop sees the rest of the decomposition.** The induction is on the bytes that are left. -/
theorem Chunked.chunks (chunked : Chunked start size chunk before gen) (fits : start + size ≤ 2 ^ 64)
    (short : size < 2 ^ 32) :
    ∃ seen, (∀ fuel, size - before ≤ fuel → gen.chunks fuel = some seen) ∧ before + produced seen = size ∧
      ∀ front gen' rest, seen = front ++ gen' :: rest →
        IsChunk start chunk (before + produced front) gen' ∧ (gen'.last ↔ rest = []) := by
  induction left_eq : gen.sizeLeft.toNat using Nat.strong_induction_on generalizing gen before with
  | h bytes ih =>
    have nonempty := chunked.nonempty
    have total := chunked.total
    have first := chunked.isChunk short
    have opened : ∀ {rest : List ChunkGenerator} {fuel : Nat}, size - before ≤ fuel →
        (∀ fuel, size - (before + gen.curSize.toNat) ≤ fuel → gen.next.2.chunks fuel = some rest) →
        gen.chunks fuel = some (gen :: rest) := by
      intro rest fuel enough runs
      cases fuel with
      | zero => omega
      | succ fuel =>
        rw [ChunkGenerator.chunks, done_eq_false nonempty, if_neg Bool.false_ne_true]
        show (gen.next.2.chunks fuel).map _ = _
        rw [runs fuel (by omega)]
        rfl
    rcases Nat.eq_zero_or_pos gen.sizeLeft.toNat with zero | left
    · refine ⟨[gen], fun fuel enough => opened enough fun fuel _ => chunks_next_last fuel zero, ?_, ?_⟩
      · rw [produced_cons, produced_nil]
        show before + (gen.curSize.toNat + 0) = size
        omega
      · intro front gen' rest is
        obtain ⟨rfl, is⟩ | ⟨front, rfl, is⟩ := List.cons_eq_append_iff.mp is
        · obtain ⟨rfl, rfl⟩ := List.cons.inj is
          exact ⟨first, ⟨fun _ => rfl, fun _ => last_iff.mpr zero⟩⟩
        · exact absurd is.symm (by simp)
    · have next := chunked.next fits left
      have fewer : gen.next.2.sizeLeft.toNat < bytes := by
        have total' := next.total
        have nonempty' := next.nonempty
        omega
      obtain ⟨rest, runs, covers, isChunk⟩ := ih _ fewer next rfl
      refine ⟨gen :: rest, fun fuel enough => opened enough runs, ?_, ?_⟩
      · rw [produced_cons, ← Nat.add_assoc]
        exact covers
      · intro front gen' after is
        obtain ⟨rfl, is⟩ | ⟨front, rfl, is⟩ := List.cons_eq_append_iff.mp is
        · obtain ⟨rfl, rfl⟩ := List.cons.inj is
          refine ⟨first, ⟨fun last => ?_, ?_⟩⟩
          · exact absurd (last_iff.mp last) left.ne'
          · rintro rfl
            rw [produced_nil] at covers
            have nonempty' := next.nonempty
            have total' := next.total
            omega
        · rw [produced_cons, ← Nat.add_assoc]
          exact isChunk front gen' after (List.cons.inj is).2

end Steps

/-! ### The whole region -/

theorem create_chunked {startAddr : BitVec 64} {totalSize chunkSize : BitVec 32}
    (valid : chunkSize = 0 ∨ isPowerOf2 chunkSize.toNat) (fits : startAddr.toNat + totalSize.toNat ≤ 2 ^ 64) :
    ∃ gen, create startAddr totalSize chunkSize = some gen ∧ (totalSize = 0 → gen.done) ∧
      (0 < totalSize.toNat → Chunked startAddr.toNat totalSize.toNat chunkSize.toNat 0 gen) := by
  have narrow := totalSize.isLt
  -- the end of the first chunk is `room` bytes after the start
  obtain ⟨room, small, roomy, firstEnd_at, bound, crosses⟩ : ∃ room, room < 2 ^ 32 ∧
      (0 < totalSize.toNat → 0 < room) ∧
      (firstEnd startAddr totalSize chunkSize).toNat = (startAddr.toNat + room) % 2 ^ 64 ∧
      (0 < chunkSize.toNat → startAddr.toNat % chunkSize.toNat + room = chunkSize.toNat) ∧
      (chunkSize.toNat = 0 → room = totalSize.toNat) := by
    rcases valid with rfl | power
    · refine ⟨totalSize.toNat, narrow, id, ?_, fun positive => absurd positive (Nat.lt_irrefl 0), fun _ => rfl⟩
      rw [firstEnd, if_pos rfl, BitVec.toNat_add, BitVec.toNat_setWidth]
      omega
    · obtain ⟨k, power⟩ := (isPowerOf2_iff _).mp power
      have positive := Nat.two_pow_pos k
      have below := Nat.mod_lt startAddr.toNat positive
      have narrow' := chunkSize.isLt
      refine ⟨2 ^ k - startAddr.toNat % 2 ^ k, by omega, fun _ => by omega, firstEnd_eq totalSize power,
        fun _ => ?_, fun zero => ?_⟩
      · rw [power]
        omega
      · omega
  have room_eq : ((firstEnd startAddr totalSize chunkSize - startAddr).setWidth 32).toNat = room := by
    rw [BitVec.toNat_setWidth, BitVec.toNat_sub, firstEnd_at]
    omega
  have size_eq : (minSize totalSize ((firstEnd startAddr totalSize chunkSize - startAddr).setWidth 32)).toNat
      = min totalSize.toNat room := by
    rw [toNat_minSize, room_eq]
  have left_eq : (totalSize - minSize totalSize
      ((firstEnd startAddr totalSize chunkSize - startAddr).setWidth 32)).toNat
      = totalSize.toNat - min totalSize.toNat room := by
    rw [BitVec.toNat_sub_of_le (by rw [BitVec.le_def, size_eq]; exact Nat.min_le_left _ _), size_eq]
  refine ⟨_, if_pos valid, fun empty => ?_, fun positive => ?_⟩
  · rw [done, beq_iff_eq]
    apply BitVec.eq_of_toNat_eq
    rw [size_eq, empty]
    exact Nat.zero_min _
  · refine ⟨rfl, rfl, rfl, ?_, fun chunked => ?_, ?_, fun more => ?_⟩
    · rw [size_eq]
      exact Nat.lt_min.mpr ⟨positive, roomy positive⟩
    · have whole := bound chunked
      show startAddr.toNat % chunkSize.toNat + _ ≤ _
      rw [size_eq]
      omega
    · rw [size_eq, left_eq]
      omega
    · rw [left_eq] at more
      have cut : min totalSize.toNat room = room := by omega
      have chunked : 0 < chunkSize.toNat := Nat.pos_of_ne_zero fun zero => by
        have := crosses zero
        omega
      rw [size_eq, cut, firstEnd_at, Nat.mod_eq_of_lt (by omega)]
      refine ⟨chunked, ?_, rfl⟩
      have split := Nat.div_add_mod startAddr.toNat chunkSize.toNat
      refine ⟨startAddr.toNat / chunkSize.toNat + 1, ?_⟩
      have := bound chunked
      rw [Nat.mul_succ]
      omega

/-- **Every region is partitioned.** The loop ends after at most as many rounds as there are bytes. -/
theorem region_partitioned (startAddr : BitVec 64) (totalSize chunkSize : BitVec 32)
    (valid : chunkSize = 0 ∨ isPowerOf2 chunkSize.toNat) (fits : startAddr.toNat + totalSize.toNat ≤ 2 ^ 64) :
    ∃ gen seen, create startAddr totalSize chunkSize = some gen ∧
      (∀ fuel, totalSize.toNat ≤ fuel → gen.chunks fuel = some seen) ∧
      Partition startAddr.toNat totalSize.toNat chunkSize.toNat seen := by
  obtain ⟨gen, created, empty, first⟩ := create_chunked valid fits
  rcases Nat.eq_zero_or_pos totalSize.toNat with zero | positive
  · have done := empty (BitVec.eq_of_toNat_eq zero)
    refine ⟨gen, [], created, fun fuel _ => chunks_of_done done fuel, zero.symm, ?_, ?_⟩
    · exact fun before gen' after is => absurd is (by simp)
    · exact fun before gen' after is => absurd is (by simp)
  · obtain ⟨seen, runs, covers, isChunk⟩ := (first positive).chunks fits totalSize.isLt
    rw [Nat.zero_add] at covers
    refine ⟨gen, seen, created, runs, covers, fun before gen' after is => ?_, fun before gen' after is => ?_⟩
    · have chunk := (isChunk before gen' after is).1
      rwa [Nat.zero_add] at chunk
    · exact (isChunk before gen' after is).2

/-- A region that ends at the top of the address space. -/
theorem region_partitioned_top :
    ∃ gen seen, create 0xfffffffffffffff5 11 8 = some gen ∧
      (∀ fuel, 11 ≤ fuel → gen.chunks fuel = some seen) ∧ Partition 0xfffffffffffffff5 11 8 seen :=
  region_partitioned 0xfffffffffffffff5 11 8 (by decide) (by decide)

end ChunkGenerator

end Emas.Gem5

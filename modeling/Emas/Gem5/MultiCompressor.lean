/-
**Choosing among compressors.**

`class MultiCompressor` of `mem/cache/compressors/multi.cc`. Every sub-compressor compresses the line; a `priority_queue`
ranks the results by their compression factors, which are stored in a `uint8_t`, and by their decompression latencies.

* A sub-compressor is what it makes of a line: the size of its data in bits, and its latencies.
* How many bytes a size in bits takes is a parameter (`bytes`): `getSize` divides by 8 before it rounds up, `wholeBytes`
  rounds up. The quotient of the line and that size is rational. The statistics of the ranks are not part of the model.

**`MultiCompressor.best_iff`** — the result that is chosen is the best one if and only if no size is zero, the results with
the greatest factor have one latency, and the factors fit the `uint8_t`, or all of them miss it and the slowest is the best.
-/

import Emas.Lib.LeastHeap
import Mathlib.Data.Prod.Lex
import Mathlib.Algebra.Group.Nat.Defs

namespace Emas.Gem5

/-! ### Powers of two -/

def alignToPowerOfTwo (val : BitVec 64) : BitVec 64 :=
  let val := val - 1#64
  let val := val ||| val >>> 1
  let val := val ||| val >>> 2
  let val := val ||| val >>> 4
  let val := val ||| val >>> 8
  let val := val ||| val >>> 16
  let val := val ||| val >>> 32
  val + 1#64

/-- Each bit says whether one of so many bits, from this one on, is set. -/
def Smeared (count : Nat) (val smeared : BitVec 64) : Prop :=
  ∀ j, smeared.getLsbD j = true ↔ ∃ i, j ≤ i ∧ i < j + count ∧ val.getLsbD i = true

theorem Smeared.double {count : Nat} {val smeared : BitVec 64} (bits : Smeared count val smeared) :
    Smeared (2 * count) val (smeared ||| smeared >>> count) := by
  intro j
  rw [BitVec.getLsbD_or, BitVec.getLsbD_ushiftRight, Bool.or_eq_true, bits, bits]
  constructor
  · rintro (⟨i, above, below, set⟩ | ⟨i, above, below, set⟩)
    · exact ⟨i, above, by omega, set⟩
    · exact ⟨i, by omega, by omega, set⟩
  · rintro ⟨i, above, below, set⟩
    by_cases near : i < j + count
    · exact .inl ⟨i, above, near, set⟩
    · exact .inr ⟨i, by omega, by omega, set⟩

theorem Smeared.toNat_eq {val smeared : BitVec 64} (bits : Smeared 64 val smeared) (nonzero : val.toNat ≠ 0) :
    smeared.toNat = 2 ^ (val.toNat.log2 + 1) - 1 := by
  refine Nat.eq_of_testBit_eq fun j => ?_
  rw [Nat.testBit_two_pow_sub_one, Bool.eq_iff_iff, BitVec.testBit_toNat, bits, decide_eq_true_eq, Nat.lt_succ_iff]
  constructor
  · rintro ⟨i, above, -, set⟩
    refine above.trans ?_
    by_contra beyond
    have unset := Nat.testBit_lt_two_pow ((Nat.log2_lt nonzero).mp (Nat.lt_of_not_le beyond))
    rw [BitVec.testBit_toNat, set] at unset
    cases unset
  · intro below
    have top := Nat.testBit_log2 nonzero
    have small : val.toNat.log2 < 64 := (Nat.log2_lt nonzero).mpr val.isLt
    exact ⟨val.toNat.log2, below, by omega, top⟩

/-- **The least power of two** that is no less than a number. -/
theorem alignToPowerOfTwo_spec {val : BitVec 64} (positive : 0 < val.toNat) (bound : val.toNat ≤ 2 ^ 63) :
    ∃ k, (alignToPowerOfTwo val).toNat = 2 ^ k ∧ val.toNat ≤ 2 ^ k ∧ 2 ^ k < 2 * val.toNat := by
  have before : (val - 1#64).toNat = val.toNat - 1 := by
    rw [BitVec.toNat_sub_of_le (by rw [BitVec.le_def]; exact positive)]
    rfl
  have first : Smeared 1 (val - 1#64) (val - 1#64) := fun j =>
    ⟨fun set => ⟨j, Nat.le_refl _, Nat.lt_succ_self _, set⟩, fun ⟨i, above, below, set⟩ => by
      rwa [Nat.le_antisymm (Nat.lt_succ_iff.mp below) above] at set⟩
  have smeared := first.double.double.double.double.double.double
  by_cases one : val.toNat = 1
  · have same : val = 1#64 := BitVec.eq_of_toNat_eq one
    exact ⟨0, by rw [same]; decide, by omega, by omega⟩
  · have nonzero : (val - 1#64).toNat ≠ 0 := by omega
    have ones := smeared.toNat_eq nonzero
    have low := Nat.log2_self_le nonzero
    have high : (val - 1#64).toNat < 2 ^ ((val - 1#64).toNat.log2 + 1) := Nat.lt_log2_self
    have fits : (val - 1#64).toNat.log2 < 63 := (Nat.log2_lt nonzero).mpr (by omega)
    generalize (val - 1#64).toNat.log2 = top at ones low high fits
    have power : 2 ^ (top + 1) < 2 ^ 64 := Nat.pow_lt_pow_right (by decide) (by omega)
    have aligned : (alignToPowerOfTwo val).toNat = (2 ^ (top + 1) - 1 + 1) % 2 ^ 64 :=
      (BitVec.toNat_add _ 1#64).trans (congrArg (fun n => (n + 1) % 2 ^ 64) ones)
    rw [Nat.sub_add_cancel (Nat.two_pow_pos _), Nat.mod_eq_of_lt power] at aligned
    rw [before] at low high
    exact ⟨top + 1, aligned, by omega, by rw [Nat.pow_succ]; omega⟩

/-! ### Compressors -/

/-- `class CompressionData`: the size in bits. -/
structure CompressionData where
  sizeBits : Nat
  deriving DecidableEq

/-- The least whole number of bytes that holds so many bits. -/
def wholeBytes (sizeBits : Nat) : Nat := (sizeBits + 7) / 8

/-- What a compressor makes of a line: its data, and the latencies of compression and decompression. -/
structure Compressed where
  compData : CompressionData
  compLat : Nat
  decompLat : Nat
  deriving DecidableEq

/-- `class BaseCacheCompressor`, a sub-compressor. -/
structure CacheCompressor where
  compress : List (BitVec 64) → Compressed

/-- `class MultiCompressor`, with what the constructor accepts. -/
structure MultiCompressor where
  blkSize : Nat
  bound : blkSize < 2 ^ 31
  compressors : List CacheCompressor
  nonempty : compressors ≠ []

namespace MultiCompressor

/-- `struct Results`. -/
structure Results where
  index : Nat
  compData : CompressionData
  decompLat : Nat
  compressionFactor : UInt8
  deriving DecidableEq

/-- What `compressionFactor` is computed from: the factor of data of so many bytes. -/
def factor (blkSize size : Nat) : Nat :=
  if size > blkSize then 1 else (alignToPowerOfTwo (BitVec.ofNat 64 (blkSize / size))).toNat

/-- `Results( index, comp_data, decomp_lat, blk_size )`. -/
def Results.create (bytes : Nat → Nat) (index : Nat) (compressed : Compressed) (blkSize : Nat) : Results where
  index := index
  compData := compressed.compData
  decompLat := compressed.decompLat
  compressionFactor := UInt8.ofNat (factor blkSize (bytes compressed.compData.sizeBits))

/-- `ResultsComparator`. -/
def comparator (lhs rhs : Results) : Bool :=
  let lhsCf := lhs.compressionFactor.toNat
  let rhsCf := rhs.compressionFactor.toNat
  if lhsCf = rhsCf then lhs.decompLat < rhs.decompLat else lhsCf < rhsCf

/-- What the comparator compares. -/
def Results.key (results : Results) : ℕ ×ₗ ℕ := toLex (results.compressionFactor.toNat, results.decompLat)

theorem comparator_iff (lhs rhs : Results) : comparator lhs rhs = true ↔ lhs.key < rhs.key := by
  rw [comparator, Results.key, Results.key, Prod.Lex.toLex_lt_toLex]
  split
  · next same => simp [same]
  · next other => simp [other]

/-- `class MultiCompData`: the index of the best compressor, in a `uint8_t`, and its data. -/
structure MultiCompData where
  index : UInt8
  compData : CompressionData
  deriving DecidableEq

variable (multi : MultiCompressor) (bytes : Nat → Nat) (line : List (BitVec 64))

/-- What the sub-compressors make of the line. -/
def outputs : List Compressed := multi.compressors.map fun compressor => compressor.compress line

/-- The results that are pushed, in order. -/
def results : List Results :=
  (multi.outputs line).mapIdx fun index compressed => .create bytes index compressed multi.blkSize

/-- `results.top( )`: a greatest result is at the front of the `priority_queue`. -/
def top : Option Results :=
  ((multi.results bytes line).foldl (pushHeap fun result => OrderDual.toDual result.key) []).head?

/-- `compress( cache_line, comp_lat, decomp_lat )`, with the latencies of compression and decompression. -/
def compress : Option (MultiCompData × Nat × Nat) :=
  (multi.top bytes line).map fun best =>
    (⟨UInt8.ofNat best.index, best.compData⟩,
      (multi.outputs line).foldl (fun maxCompLat compressed => max maxCompLat compressed.compLat) 0 + 1, best.decompLat)

/-! ### The best result -/

def sizeOf (result : Results) : Nat := bytes result.compData.sizeBits

/-- The compression factor of a result. -/
def factorOf (result : Results) : Nat := factor multi.blkSize (sizeOf bytes result)

/-- No other result has a greater factor. -/
def Leads (result : Results) : Prop :=
  result ∈ multi.results bytes line ∧ ∀ other ∈ multi.results bytes line, multi.factorOf bytes other ≤ multi.factorOf bytes result

/-- **The best result is chosen**: no factor is computed from a size of zero, and the result that is chosen has the greatest
factor and the least latency of those with it. -/
structure ChoosesBest : Prop where
  nonzero : ∀ result ∈ multi.results bytes line, sizeOf bytes result ≠ 0
  chosen : ∃ best, multi.top bytes line = some best ∧ multi.Leads bytes line best ∧
    ∀ other ∈ multi.results bytes line, multi.factorOf bytes other = multi.factorOf bytes best → best.decompLat ≤ other.decompLat

/-- No size is zero, the results with the greatest factor have one latency, and all factors are stored as they are; or none
is, and the first of the slowest results has the greatest one. -/
structure Distinguishes : Prop where
  nonzero : ∀ result ∈ multi.results bytes line, sizeOf bytes result ≠ 0
  latency : ∀ first second, multi.Leads bytes line first → multi.Leads bytes line second → first.decompLat = second.decompLat
  stored : (∀ result ∈ multi.results bytes line, multi.factorOf bytes result < 256) ∨
    (∀ result ∈ multi.results bytes line, 256 ≤ multi.factorOf bytes result) ∧
      ∀ slowest, FirstLeast (fun result => OrderDual.toDual result.decompLat) (multi.results bytes line) slowest →
        multi.Leads bytes line slowest

variable {multi bytes line}

theorem factor_power {blkSize size : Nat} (bound : blkSize < 2 ^ 31) (nonzero : size ≠ 0) : ∃ k, factor blkSize size = 2 ^ k := by
  unfold factor
  split
  · exact ⟨0, rfl⟩
  · next fits =>
    have positive : 0 < blkSize / size := Nat.div_pos (Nat.le_of_not_lt fits) (Nat.pos_of_ne_zero nonzero)
    have small : blkSize / size ≤ blkSize := Nat.div_le_self ..
    have same : (BitVec.ofNat 64 (blkSize / size)).toNat = blkSize / size := by
      rw [BitVec.toNat_ofNat, Nat.mod_eq_of_lt (by omega)]
    obtain ⟨k, power, -⟩ := @alignToPowerOfTwo_spec (BitVec.ofNat 64 (blkSize / size)) (by omega) (by omega)
    exact ⟨k, power⟩

theorem stored_eq {result : Results} (member : result ∈ multi.results bytes line) (nonzero : sizeOf bytes result ≠ 0) :
    result.compressionFactor.toNat = if multi.factorOf bytes result < 256 then multi.factorOf bytes result else 0 := by
  have stored : result.compressionFactor = UInt8.ofNat (multi.factorOf bytes result) := by
    obtain ⟨index, inside, rfl⟩ := List.mem_mapIdx.mp member
    rfl
  rw [stored, UInt8.toNat_ofNat']
  split
  · next small => exact Nat.mod_eq_of_lt small
  · next large =>
    obtain ⟨k, power⟩ := factor_power multi.bound nonzero
    rw [factorOf, power] at large ⊢
    have high : 8 ≤ k := by
      by_contra low
      exact large (Nat.pow_lt_pow_right (by decide) (by omega : k < 8))
    obtain ⟨rest, rfl⟩ := Nat.exists_eq_add_of_le high
    rw [Nat.pow_add]
    exact Nat.mul_mod_right ..

theorem top_eq (multi : MultiCompressor) (bytes : Nat → Nat) (line : List (BitVec 64)) :
    ∃ best, multi.top bytes line = some best ∧
      FirstLeast (fun result => OrderDual.toDual result.key) (multi.results bytes line) best := by
  cases heap : (multi.results bytes line).foldl (pushHeap fun result => OrderDual.toDual result.key) [] with
  | nil =>
    have same := (@foldl_pushHeap_perm _ _ _ (fun result : Results => OrderDual.toDual result.key)
      (multi.results bytes line) []).length_eq
    rw [heap] at same
    have none : multi.compressors.length = 0 := by simpa [results, outputs] using same.symm
    exact absurd (List.eq_nil_of_length_eq_zero none) multi.nonempty
  | cons best rest => exact ⟨best, by rw [top, heap, List.head?_cons], firstLeast_head _ heap⟩

/-- In the heap a result is in front of another one unless the comparator puts it below that. -/
theorem key_le {first second : Results} : OrderDual.toDual first.key ≤ OrderDual.toDual second.key ↔
    second.compressionFactor.toNat < first.compressionFactor.toNat ∨
      second.compressionFactor.toNat = first.compressionFactor.toNat ∧ second.decompLat ≤ first.decompLat := by
  have ahead : OrderDual.toDual first.key ≤ OrderDual.toDual second.key ↔ ¬comparator first second = true :=
    not_lt.symm.trans (not_congr (comparator_iff first second).symm)
  rw [ahead, comparator]
  split
  · next same => simp [same]
  · next other =>
    simp only [decide_eq_true_eq]
    omega

theorem firstLeast_slowest (none : ∀ result ∈ multi.results bytes line, result.compressionFactor.toNat = 0) {best : Results} :
    FirstLeast (fun result => OrderDual.toDual result.key) (multi.results bytes line) best ↔
      FirstLeast (fun result => OrderDual.toDual result.decompLat) (multi.results bytes line) best := by
  have same {first second : Results} (member : first ∈ multi.results bytes line) (member' : second ∈ multi.results bytes line) :
      OrderDual.toDual first.key ≤ OrderDual.toDual second.key ↔
        OrderDual.toDual first.decompLat ≤ OrderDual.toDual second.decompLat := by
    rw [key_le, none first member, none second member', OrderDual.toDual_le_toDual]
    simp
  refine exists₂_congr fun before after => and_congr_right fun split => ?_
  have here : best ∈ multi.results bytes line := split ▸ by simp
  refine and_congr (forall₂_congr fun other member => ?_) (forall₂_congr fun other member => ?_)
  · have there : other ∈ multi.results bytes line := split ▸ by simp [member]
    rw [← not_le, ← not_le, same there here]
  · have there : other ∈ multi.results bytes line := split ▸ by simp [member]
    exact same here there

theorem ChoosesBest.distinguishes (chooses : multi.ChoosesBest bytes line) : multi.Distinguishes bytes line := by
  obtain ⟨nonzero, best, chosen, leads, fastest⟩ := chooses
  obtain ⟨top, same, first⟩ := top_eq multi bytes line
  obtain rfl : top = best := Option.some.inj (same.symm.trans chosen)
  have stored {result : Results} (member : result ∈ multi.results bytes line) := stored_eq member (nonzero result member)
  have latency {other : Results} (leads' : multi.Leads bytes line other) : other.decompLat = top.decompLat := by
    have equal : multi.factorOf bytes other = multi.factorOf bytes top :=
      Nat.le_antisymm (leads.2 other leads'.1) (leads'.2 top leads.1)
    refine Nat.le_antisymm ?_ (fastest other leads'.1 equal)
    rcases key_le.mp (first.le leads'.1) with less | ⟨-, slower⟩
    · rw [stored leads'.1, stored leads.1, equal] at less
      exact absurd less (Nat.lt_irrefl _)
    · exact slower
  refine ⟨nonzero, fun a b leadsA leadsB => (latency leadsA).trans (latency leadsB).symm, ?_⟩
  by_cases small : multi.factorOf bytes top < 256
  · exact .inl fun result member => Nat.lt_of_le_of_lt (leads.2 result member) small
  · right
    have none (result : Results) (member : result ∈ multi.results bytes line) : result.compressionFactor.toNat = 0 := by
      have below := key_le.mp (first.le member)
      rw [stored leads.1, if_neg small] at below
      omega
    refine ⟨fun result member => ?_, fun slowest first' => ?_⟩
    · have zero := none result member
      rw [stored member] at zero
      split at zero
      · obtain ⟨k, power⟩ := factor_power multi.bound (nonzero result member)
        rw [factorOf, power] at zero
        exact absurd zero (Nat.two_pow_pos k).ne'
      · next large => exact Nat.le_of_not_lt large
    · rw [((firstLeast_slowest none).mpr first').unique first]
      exact leads

theorem Distinguishes.choosesBest (distinguishes : multi.Distinguishes bytes line) : multi.ChoosesBest bytes line := by
  obtain ⟨nonzero, latency, fits⟩ := distinguishes
  obtain ⟨best, chosen, first⟩ := top_eq multi bytes line
  have stored {result : Results} (member : result ∈ multi.results bytes line) := stored_eq member (nonzero result member)
  have leads : multi.Leads bytes line best := by
    rcases fits with small | ⟨large, slowest⟩
    · refine ⟨first.mem, fun other member => ?_⟩
      have below := key_le.mp (first.le member)
      rw [stored member, stored first.mem, if_pos (small other member), if_pos (small best first.mem)] at below
      omega
    · refine slowest best ((firstLeast_slowest fun result member => ?_).mp first)
      rw [stored member, if_neg (Nat.not_lt.mpr (large result member))]
  refine ⟨nonzero, best, chosen, leads, fun other member equal => ?_⟩
  exact (latency best other leads ⟨member, fun result held => equal ▸ leads.2 result held⟩).le

/-- **When the best result is chosen.** -/
theorem best_iff (multi : MultiCompressor) (bytes : Nat → Nat) (line : List (BitVec 64)) :
    multi.ChoosesBest bytes line ↔ multi.Distinguishes bytes line :=
  ⟨ChoosesBest.distinguishes, Distinguishes.choosesBest⟩

/-- Two compressors that take half a line of 64 bytes: the slower one is chosen. -/
theorem slower_chosen :
    let multi : MultiCompressor := ⟨64, by decide, [⟨fun _ => ⟨⟨256⟩, 1, 1⟩⟩, ⟨fun _ => ⟨⟨256⟩, 1, 9⟩⟩], nofun⟩
    ¬ multi.ChoosesBest wholeBytes [] := by
  intro multi chooses
  obtain ⟨best, chosen, -, fastest⟩ := chooses.chosen
  have slow : multi.top wholeBytes [] = some ⟨1, ⟨256⟩, 9, 2⟩ := by decide
  obtain rfl := Option.some.inj (slow.symm.trans chosen)
  exact absurd (fastest ⟨0, ⟨256⟩, 1, 2⟩ (by decide) rfl) (by decide)

end MultiCompressor

end Emas.Gem5

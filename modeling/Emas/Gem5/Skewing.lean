/-
**Regenerated addresses.**

An indexing policy is invertible when the address of an entry can be computed back from the tag, the set and the way.

* `SkewedAssociative.deskewing_skewing` — **skewing is undone**, for each of the eight functions. Four of the inverses
  are the steps that invert `x ↦ hash x ^^^ x`.
-/

import Emas.Gem5.Indexing
import Emas.Lib.ShiftRegister
import Mathlib.Order.Interval.Finset.Nat
import Mathlib.Order.Interval.Set.Infinite

namespace Emas.Gem5

open Bits AddrRange

/-! ### The layout of an address -/

/-- The fields of an accepted policy: `s` bits of offset, then `k` bits of index. -/
structure BaseIndexingPolicy.Layout (base : BaseIndexingPolicy) (s k : Nat) : Prop where
  numSets : base.numSets = 2 ^ k
  setShift : base.setShift = s
  setMask : base.setMask = BitVec.ofNat 32 (2 ^ k - 1)
  tagShift : base.tagShift = s + k
  offset_lt : s < 31
  index_lt : k < 32

theorem BaseIndexingPolicy.layout {p : IndexingParams} {base : BaseIndexingPolicy} (power : isPowerOf2 p.entrySize)
    (created : create p = .ok base) : ∃ s k, base.Layout s k := by
  obtain ⟨s, entry⟩ := (isPowerOf2_iff _).mp power
  rw [create] at created
  generalize count : p.size / (p.entrySize * p.assoc % 2 ^ 32) % 2 ^ 32 = numSets at created
  simp only at created
  split at created
  · cases created
  split at created
  · cases created
  split at created
  · cases created
  rename_i pow
  split at created
  · cases created
  rw [Bool.not_eq_true', Bool.not_eq_false] at pow
  obtain ⟨k, sets⟩ := (isPowerOf2_iff _).mp pow
  have bounded : numSets < 2 ^ 32 := count ▸ Nat.mod_lt _ (by decide)
  have limited : p.entrySize < 2 ^ 31 := p.entrySize_lt
  rw [sets] at created bounded
  rw [entry] at created limited
  cases created
  exact ⟨s, k, rfl, Nat.log2_two_pow, rfl, by rw [Nat.log2_two_pow, Nat.log2_two_pow],
    (Nat.pow_lt_pow_iff_right (by decide)).mp limited, (Nat.pow_lt_pow_iff_right (by decide)).mp bounded⟩

/-- The address without its offset in the entry. -/
def alignTo (s : Nat) (addr : Addr) : Addr := addr >>> s <<< s

theorem getLsbD_alignTo (s : Nat) (addr : Addr) (j : Nat) :
    (alignTo s addr).getLsbD j = (decide (s ≤ j) && addr.getLsbD j) := by
  rw [alignTo, BitVec.getLsbD_shiftLeft, BitVec.getLsbD_ushiftRight]
  by_cases bound : j < 64
  · by_cases above : s ≤ j
    · simp [bound, above, Nat.not_lt.mpr above, -BitVec.getLsbD_eq_getElem]
    · simp [above, Nat.lt_of_not_le above]
  · rw [BitVec.getLsbD_of_ge addr j (Nat.le_of_not_lt bound)]
    simp [bound]

theorem getLsbD_setMask {k : Nat} (fits : k < 32) (j : Nat) :
    (BitVec.ofNat 32 (2 ^ k - 1)).getLsbD j = decide (j < k) := by
  rw [BitVec.getLsbD_ofNat, Nat.testBit_two_pow_sub_one]
  by_cases below : j < k
  · simp [below, Nat.lt_trans below fits]
  · simp [below]

theorem mod_lt_iff (addr : Addr) (m n : Nat) :
    addr.toNat % 2 ^ m < 2 ^ n ↔ ∀ j, n ≤ j → j < m → addr.getLsbD j = false := by
  constructor
  · intro small j above below
    have clear := Nat.testBit_lt_two_pow (Nat.lt_of_lt_of_le small (Nat.pow_le_pow_right Nat.zero_lt_two above))
    rw [Nat.testBit_mod_two_pow, BitVec.testBit_toNat] at clear
    simpa [below] using clear
  · intro clear
    refine Nat.lt_pow_two_of_testBit _ fun j above => ?_
    rw [Nat.testBit_mod_two_pow, BitVec.testBit_toNat]
    by_cases below : j < m
    · simp [clear j above below]
    · simp [below]

/-! ### Set associative -/

namespace SetAssociative

variable {policy : SetAssociative} {s k : Nat}

theorem getLsbD_extractSet (layout : policy.Layout s k) (addr : Addr) (i : Nat) :
    (policy.extractSet addr).getLsbD i = (decide (i < k) && addr.getLsbD (s + i)) := by
  rw [extractSet, layout.setShift, layout.setMask, BitVec.getLsbD_and, getLsbD_setMask layout.index_lt,
    BitVec.getLsbD_setWidth, BitVec.getLsbD_ushiftRight]
  by_cases below : i < k
  · simp [below, Nat.lt_trans below layout.index_lt]
  · simp [below]

theorem getLsbD_regenerated (layout : policy.Layout s k) (addr : Addr) (j : Nat) :
    (policy.regenerateAddr (policy.extractTag addr) (policy.extractSet addr)).getLsbD j =
      (decide (s ≤ j ∧ (j < 32 ∨ s + k ≤ j)) && addr.getLsbD j) := by
  rw [regenerateAddr, BaseIndexingPolicy.extractTag, BitVec.getLsbD_or, layout.tagShift,
    show addr >>> (s + k) <<< (s + k) = alignTo (s + k) addr from rfl, getLsbD_alignTo, BitVec.getLsbD_setWidth,
    BitVec.getLsbD_shiftLeft, getLsbD_extractSet layout, layout.setShift]
  have offset := layout.offset_lt
  by_cases bound : j < 64
  · by_cases above : s ≤ j
    · rw [Nat.add_sub_cancel' above]
      by_cases tag : s + k ≤ j
      · simp [bound, above, tag]
      · have inside : j - s < k := by omega
        simp [bound, above, tag, inside, Nat.not_lt.mpr above]
    · have low : ¬ s + k ≤ j := by omega
      simp [above, low, Nat.lt_of_not_le above]
  · rw [BitVec.getLsbD_of_ge addr j (Nat.le_of_not_lt bound)]
    simp [bound]

/-- **The address comes back** if and only if the index leaves no bits beyond the 32 that it is shifted in. -/
theorem regenerates_iff (layout : policy.Layout s k) (addr : Addr) :
    policy.regenerateAddr (policy.extractTag addr) (policy.extractSet addr) = alignTo s addr ↔
      addr.toNat % 2 ^ policy.tagShift < 2 ^ 32 := by
  have offset := layout.offset_lt
  rw [layout.tagShift, mod_lt_iff]
  constructor
  · intro same j above below
    have bit := congrArg (BitVec.getLsbD · j) same
    simp only [getLsbD_regenerated layout, getLsbD_alignTo] at bit
    have outside : ¬ (s ≤ j ∧ (j < 32 ∨ s + k ≤ j)) := by omega
    have inside : s ≤ j := by omega
    rw [decide_eq_false outside, decide_eq_true inside, Bool.false_and, Bool.true_and] at bit
    exact bit.symm
  · refine fun clear => BitVec.eq_of_getLsbD_eq fun j _ => ?_
    rw [getLsbD_regenerated layout, getLsbD_alignTo]
    by_cases lost : 32 ≤ j ∧ j < s + k
    · rw [clear j lost.1 lost.2, Bool.and_false, Bool.and_false]
    · have same : s ≤ j ∧ (j < 32 ∨ s + k ≤ j) ↔ s ≤ j := by omega
      simp only [same]

end SetAssociative

/-! ### Skewed associative -/

theorem getLsbD_bits {val : Addr} {first last : Nat} (fits : first + 1 - last ≤ 64) (i : Nat) :
    (bits val first last).getLsbD i = (decide (i < first + 1 - last) && val.getLsbD (last + i)) := by
  rw [bits, BitVec.getLsbD_and, BitVec.getLsbD_ushiftRight, getLsbD_ones fits, Bool.and_comm]
  by_cases below : i < first + 1 - last
  · simp [below, Nat.lt_of_lt_of_le below fits]
  · simp [below]

theorem small_bits {val : Addr} {first last : Nat} (fits : first + 1 - last ≤ 64) :
    Small (first + 1 - last) (bits val first last) := fun i above => by
  rw [getLsbD_bits fits, decide_eq_false (Nat.not_lt.mpr above), Bool.false_and]

namespace SkewedAssociative

variable {policy : SkewedAssociative} {s k : Nat} {x y : Addr}

theorem advances_hash (inside : policy.msbShift < 64) : Advances policy.msbShift policy.hash where
  small := fun x small i above => by
    rw [hash, getLsbD_setBit _ inside, if_neg (by omega), BitVec.getLsbD_ushiftRight]
    exact small _ (by omega)
  low := fun x _ i below => by
    rw [hash, getLsbD_setBit _ inside, if_neg (by omega), BitVec.getLsbD_ushiftRight, Nat.add_comm]
  top := fun x _ => by
    rw [hash, getLsbD_setBit _ inside, if_pos rfl]

theorem retreats_dehash (inside : policy.msbShift < 64) : Retreats policy.msbShift policy.dehash := by
  have shifted : ∀ (x : Addr) i, ((x &&& ones policy.msbShift) <<< 1).getLsbD (i + 1) =
      (decide (i < policy.msbShift) && x.getLsbD i) := fun x i => by
    rw [BitVec.getLsbD_shiftLeft, Nat.add_sub_cancel, BitVec.getLsbD_and, getLsbD_ones (Nat.le_of_lt inside)]
    by_cases below : i < policy.msbShift
    · have bound : i + 1 < 64 := by omega
      simp [below, bound, Nat.lt_of_succ_lt bound]
    · simp [below]
  refine ⟨fun x _ i above => ?_, fun x _ i below => ?_, fun x _ => ?_⟩
  · obtain ⟨i, rfl⟩ : ∃ j, i = j + 1 := ⟨i - 1, by omega⟩
    rw [dehash, getLsbD_setBit _ (by decide), if_neg (Nat.succ_ne_zero i), shifted,
      decide_eq_false (by omega), Bool.false_and]
  · rw [dehash, getLsbD_setBit _ (by decide), if_neg (Nat.succ_ne_zero i), shifted, decide_eq_true below, Bool.true_and]
  · rw [dehash, getLsbD_setBit _ (by decide), if_pos rfl]

theorem xor_cancel (a b c : Addr) : a ^^^ b ^^^ c ^^^ b ^^^ c = a := by
  apply BitVec.eq_of_getLsbD_eq
  intro i _
  simp only [BitVec.getLsbD_xor]
  cases a.getLsbD i <;> cases b.getLsbD i <;> cases c.getLsbD i <;> rfl

theorem xor_swap (a b c : Addr) : a ^^^ b ^^^ c ^^^ b = a ^^^ c := by
  apply BitVec.eq_of_getLsbD_eq
  intro i _
  simp only [BitVec.getLsbD_xor]
  cases a.getLsbD i <;> cases b.getLsbD i <;> cases c.getLsbD i <;> rfl

/-- **Each of the eight skewing functions is undone**, for registers of two bits or more. -/
theorem deskewing_skewing (long : 0 < policy.msbShift) (inside : policy.msbShift < 64)
    (small : Small (policy.msbShift + 1) x) (way : Nat) (y : Addr) :
    policy.deskewing way (policy.skewing way x y) y = x := by
  have forth := advances_hash inside
  have back := retreats_dehash inside
  have which : way % 8 < 8 := Nat.mod_lt _ (by decide)
  rw [deskewing, skewing, numSkewingFunctions]
  generalize way % 8 = n at which
  match n, which with
  | 0, _ =>
    show policy.dehash (policy.hash x ^^^ policy.hash y ^^^ y ^^^ policy.hash y ^^^ y) = x
    rw [xor_cancel, forth.back_step back small long]
  | 1, _ =>
    show policy.hash^[policy.msbShift] (policy.hash x ^^^ policy.hash y ^^^ x ^^^ policy.hash y) = x
    rw [xor_swap, forth.iterate_feedback small]
  | 2, _ =>
    show policy.dehash (policy.hash x ^^^ policy.dehash y ^^^ y ^^^ policy.dehash y ^^^ y) = x
    rw [xor_cancel, forth.back_step back small long]
  | 3, _ =>
    show policy.hash^[policy.msbShift] (policy.hash x ^^^ policy.dehash y ^^^ x ^^^ policy.dehash y) = x
    rw [xor_swap, forth.iterate_feedback small]
  | 4, _ =>
    show policy.hash (policy.dehash x ^^^ policy.hash y ^^^ y ^^^ policy.hash y ^^^ y) = x
    rw [xor_cancel, forth.step_back back small long]
  | 5, _ =>
    show policy.hash^[policy.msbShift + 1] (policy.dehash x ^^^ policy.hash y ^^^ x ^^^ policy.hash y) = x
    rw [xor_swap, forth.iterate_feedback_back back small long]
  | 6, _ =>
    show policy.hash (policy.dehash x ^^^ policy.dehash y ^^^ y ^^^ policy.dehash y ^^^ y) = x
    rw [xor_cancel, forth.step_back back small long]
  | 7, _ =>
    show policy.hash^[policy.msbShift + 1] (policy.dehash x ^^^ policy.dehash y ^^^ x ^^^ policy.dehash y) = x
    rw [xor_swap, forth.iterate_feedback_back back small long]

theorem small_skewing (inside : policy.msbShift < 64) (left : Small (policy.msbShift + 1) x)
    (right : Small (policy.msbShift + 1) y) (way : Nat) : Small (policy.msbShift + 1) (policy.skewing way x y) := by
  have hashed := (advances_hash inside).small
  have dehashed := (retreats_dehash inside).small
  rw [skewing]
  split
  · exact ((hashed x left).xor (hashed y right)).xor right
  · exact ((hashed x left).xor (hashed y right)).xor left
  · exact ((hashed x left).xor (dehashed y right)).xor right
  · exact ((hashed x left).xor (dehashed y right)).xor left
  · exact ((dehashed x left).xor (hashed y right)).xor right
  · exact ((dehashed x left).xor (hashed y right)).xor left
  · exact ((dehashed x left).xor (dehashed y right)).xor right
  · exact ((dehashed x left).xor (dehashed y right)).xor left

/-- The index bits of an address, and as many bits above them. -/
def lowPart (policy : SkewedAssociative) (addr : Addr) : Addr := bits addr policy.msbShift 0

/-- The bits of an address above those that are skewed. -/
def highPart (policy : SkewedAssociative) (addr : Addr) : Addr :=
  bits addr (2 * (policy.msbShift + 1) - 1) (policy.msbShift + 1)

theorem small_lowPart (inside : policy.msbShift < 63) (addr : Addr) :
    Small (policy.msbShift + 1) (policy.lowPart addr) := by
  have small : Small (policy.msbShift + 1 - 0) (bits addr policy.msbShift 0) := small_bits (by omega)
  exact small

theorem small_highPart (inside : policy.msbShift < 63) (addr : Addr) :
    Small (policy.msbShift + 1) (policy.highPart addr) := by
  have small : Small _ (bits addr (2 * (policy.msbShift + 1) - 1) (policy.msbShift + 1)) := small_bits (by omega)
  rwa [show 2 * (policy.msbShift + 1) - 1 + 1 - (policy.msbShift + 1) = policy.msbShift + 1 by omega] at small

theorem small_skew (inside : policy.msbShift < 63) (addr : Addr) (way : Nat) :
    Small (policy.msbShift + 1) (policy.skew addr way) :=
  (advances_hash (by omega)).iterate_small
    (small_skewing (by omega) (small_lowPart inside addr) (small_highPart inside addr) way) _

/-- **Deskewing undoes skewing**: for every way, the index bits come back from the skewed ones and the bits above. -/
theorem deskew_skew (long : 0 < policy.msbShift) (inside : policy.msbShift < 63) {addr skewed : Addr} {way : Nat}
    (low : policy.lowPart skewed = policy.skew addr way) (high : policy.highPart skewed = policy.highPart addr) :
    policy.deskew skewed way = policy.lowPart addr := by
  have forth : Advances policy.msbShift policy.hash := advances_hash (by omega)
  have back : Retreats policy.msbShift policy.dehash := retreats_dehash (by omega)
  have small : Small (policy.msbShift + 1) (policy.lowPart addr) := small_lowPart inside addr
  have unpiled : (if way ≥ numSkewingFunctions then
      policy.dehash^[way / numSkewingFunctions] (policy.lowPart skewed) else policy.lowPart skewed) =
      policy.skewing way (policy.lowPart addr) (policy.highPart addr) := by
    have piled : policy.skew addr way = policy.hash^[way / numSkewingFunctions]
      (policy.skewing way (policy.lowPart addr) (policy.highPart addr)) := rfl
    rw [low, piled]
    split
    · exact forth.iterate_back_step back
        (small_skewing (by omega) small (small_highPart inside addr) way) long _
    · rw [Nat.div_eq_of_lt (Nat.lt_of_not_le ‹_›)]
      rfl
  show policy.deskewing way (if way ≥ numSkewingFunctions then
    policy.dehash^[way / numSkewingFunctions] (policy.lowPart skewed) else policy.lowPart skewed)
      (policy.highPart skewed) = _
  rw [unpiled, high, deskewing_skewing long (by omega) small]

/-- The layout, with at least two bits of index. -/
structure Skewed (policy : SkewedAssociative) (s k : Nat) : Prop where
  layout : policy.Layout s k
  msbShift : policy.msbShift + 1 = k
  long : 1 < k

theorem skewed {p : IndexingParams} (power : isPowerOf2 p.entrySize) (created : create p = .ok policy) :
    ∃ s k, policy.Skewed s k := by
  rw [create] at created
  split at created
  · cases created
  rename_i base made
  split at created
  · cases created
  split at created
  · cases created
  rename_i many
  cases created
  obtain ⟨s, k, layout⟩ := BaseIndexingPolicy.layout power made
  have sets := layout.numSets
  have long : 1 < k := by
    by_contra short
    have few : 2 ^ k ≤ 2 ^ 1 := Nat.pow_le_pow_right Nat.zero_lt_two (Nat.le_of_not_lt short)
    omega
  refine ⟨s, k, layout, ?_, long⟩
  show base.numSets.log2 - 1 + 1 = k
  rw [sets, Nat.log2_two_pow]
  omega

variable {addr : Addr} {way : Nat}

theorem Skewed.inside (shape : policy.Skewed s k) : policy.msbShift < 63 := by
  have fits := shape.layout.index_lt
  have same := shape.msbShift
  omega

theorem Skewed.getLsbD_extractSet (shape : policy.Skewed s k) (addr : Addr) (way i : Nat) :
    (policy.extractSet addr way).getLsbD i = (policy.skew (addr >>> s) way).getLsbD i := by
  have small := small_skew shape.inside (addr >>> s) way
  rw [shape.msbShift] at small
  have fits := shape.layout.index_lt
  rw [extractSet, shape.layout.setShift, shape.layout.setMask, BitVec.getLsbD_setWidth, BitVec.getLsbD_and,
    BitVec.getLsbD_setWidth, getLsbD_setMask fits]
  by_cases below : i < k
  · have bound : i < 64 := by omega
    simp [below, bound, Nat.lt_trans below fits]
  · rw [small i (Nat.le_of_not_lt below)]
    simp [below]

theorem Skewed.addrSet_parts (shape : policy.Skewed s k) (addr : Addr) (way : Nat) :
    let addrSet := policy.extractTag addr <<< (policy.msbShift + 1) ||| (policy.extractSet addr way).setWidth 64
    policy.lowPart addrSet = policy.skew (addr >>> s) way ∧ policy.highPart addrSet = policy.highPart (addr >>> s) := by
  have small := small_skew shape.inside (addr >>> s) way
  have fits := shape.layout.index_lt
  have inside := shape.inside
  have same := shape.msbShift
  have bit : ∀ j, (policy.extractTag addr <<< (policy.msbShift + 1) |||
      (policy.extractSet addr way).setWidth 64).getLsbD j =
      (decide (k ≤ j ∧ j < 64) && addr.getLsbD (s + j) || (policy.skew (addr >>> s) way).getLsbD j) := fun j => by
    rw [BitVec.getLsbD_or, BitVec.getLsbD_setWidth, shape.getLsbD_extractSet, BaseIndexingPolicy.extractTag,
      shape.layout.tagShift, same, BitVec.getLsbD_shiftLeft, BitVec.getLsbD_ushiftRight]
    by_cases bound : j < 64
    · by_cases below : j < k
      · simp [below, bound]
      · have there : s + k + (j - k) = s + j := by omega
        simp [below, bound, Nat.le_of_not_lt below, there]
    · rw [BitVec.getLsbD_of_ge (policy.skew (addr >>> s) way) j (Nat.le_of_not_lt bound)]
      simp [bound]
  constructor
  · refine Small.ext (small_lowPart inside _) small fun i below => ?_
    rw [lowPart, getLsbD_bits (by omega), bit]
    have low : ¬ (k ≤ 0 + i ∧ 0 + i < 64) := by omega
    rw [decide_eq_false low, Bool.false_and, Bool.false_or, Nat.zero_add, decide_eq_true (by omega), Bool.true_and]
  · refine Small.ext (small_highPart inside _) (small_highPart inside _) fun i below => ?_
    rw [highPart, getLsbD_bits (by omega), bit, highPart, getLsbD_bits (by omega), BitVec.getLsbD_ushiftRight,
      small (policy.msbShift + 1 + i) (by omega), Bool.or_false, decide_eq_true (by omega), Bool.true_and,
      decide_eq_true (by omega), Bool.true_and]

/-- **The address always comes back.** -/
theorem Skewed.regenerates (shape : policy.Skewed s k) (addr : Addr) (way : Nat) :
    policy.regenerateAddr (policy.extractTag addr) (policy.extractSet addr way) way = alignTo s addr := by
  have inside := shape.inside
  have same := shape.msbShift
  have long := shape.long
  have fits := shape.layout.index_lt
  obtain ⟨low, high⟩ := shape.addrSet_parts addr way
  have back := deskew_skew (by omega) inside low high
  refine BitVec.eq_of_getLsbD_eq fun j _ => ?_
  rw [regenerateAddr, back, BitVec.getLsbD_or, BaseIndexingPolicy.extractTag, shape.layout.tagShift,
    show addr >>> (s + k) <<< (s + k) = alignTo (s + k) addr from rfl, getLsbD_alignTo, getLsbD_alignTo,
    shape.layout.setShift, shape.layout.setMask, BitVec.getLsbD_shiftLeft, BitVec.getLsbD_and, lowPart,
    getLsbD_bits (by omega), BitVec.getLsbD_setWidth, getLsbD_setMask fits, BitVec.getLsbD_ushiftRight]
  by_cases above : s ≤ j
  · rw [Nat.zero_add, Nat.add_sub_cancel' above]
    by_cases tag : s + k ≤ j
    · simp only [tag, above, decide_true, Bool.true_and]
      cases addr.getLsbD j <;> simp
    · have index : j - s < k := by omega
      have bound : j < 64 := ‹_›
      have field : j - s < policy.msbShift + 1 := by omega
      simp [above, tag, index, bound, field, Nat.not_lt.mpr above, show j - s < 64 by omega]
  · have low : ¬ s + k ≤ j := by omega
    simp [above, low, Nat.lt_of_not_le above]

end SkewedAssociative

/-! ### Either of them -/

namespace IndexingPolicy

variable {p : IndexingParams} {policy : IndexingPolicy} {s k : Nat}

/-- The index is shifted in 64 bits, or has no bits beyond the 32 that it is shifted in. -/
def Shifts (policy : IndexingPolicy) (addr : Addr) : Prop :=
  match policy with
  | setAssociative policy => addr.toNat % 2 ^ policy.tagShift < 2 ^ 32
  | skewedAssociative _ => True

/-- The policy has sets of `2 ^ s`, above an offset of `k` bits. -/
inductive LaidOut (s k : Nat) : IndexingPolicy → Prop where
  | setAssociative {policy : SetAssociative} (layout : policy.Layout s k) : LaidOut s k (setAssociative policy)
  | skewedAssociative {policy : SkewedAssociative} (shape : policy.Skewed s k) :
      LaidOut s k (skewedAssociative policy)

theorem SetAssociative.base_created {policy : SetAssociative} (created : SetAssociative.create p = .ok policy) :
    BaseIndexingPolicy.create p = .ok policy.toBaseIndexingPolicy := by
  rw [SetAssociative.create] at created
  cases made : BaseIndexingPolicy.create p with
  | error fatal => rw [made] at created; cases created
  | ok base =>
    rw [made] at created
    obtain rfl : (⟨base⟩ : SetAssociative) = policy := Except.ok.inj created
    rfl

theorem Accepted.laidOut (accepted : policy.Accepted p) : ∃ s k, policy.LaidOut s k := by
  cases accepted with
  | setAssociative power created =>
    obtain ⟨s, k, layout⟩ := BaseIndexingPolicy.layout power (SetAssociative.base_created created)
    exact ⟨s, k, .setAssociative layout⟩
  | skewedAssociative power created =>
    obtain ⟨s, k, shape⟩ := SkewedAssociative.skewed power created
    exact ⟨s, k, .skewedAssociative shape⟩

theorem LaidOut.layout (laid : policy.LaidOut s k) : policy.base.Layout s k := by
  cases laid with
  | setAssociative layout => exact layout
  | skewedAssociative shape => exact shape.layout

/-- The address that is regenerated. -/
def addressOf (policy : IndexingPolicy) (tag : Addr) (index : Nat) : Addr :=
  tag <<< policy.base.tagShift ||| BitVec.ofNat 64 index <<< policy.base.setShift

theorem LaidOut.regenerates_iff (laid : policy.LaidOut s k) (addr : Addr) (way : Nat) :
    policy.regenerateAddr (policy.extractTag addr) (policy.extractSet addr way) way =
      alignTo policy.base.setShift addr ↔ policy.Shifts addr := by
  rw [laid.layout.setShift]
  cases laid with
  | setAssociative layout => exact SetAssociative.regenerates_iff layout addr
  | skewedAssociative shape => exact iff_of_true (shape.regenerates addr way) trivial

theorem LaidOut.extractSet_lt (laid : policy.LaidOut s k) (addr : Addr) (way : Nat) :
    (policy.extractSet addr way).toNat < 2 ^ k := by
  refine Small.iff_lt.mp fun i above => ?_
  cases laid with
  | setAssociative layout =>
    show (SetAssociative.extractSet _ addr).getLsbD i = false
    rw [SetAssociative.getLsbD_extractSet layout, decide_eq_false (Nat.not_lt.mpr above), Bool.false_and]
  | skewedAssociative shape =>
    show (SkewedAssociative.extractSet _ addr way).getLsbD i = false
    rw [shape.getLsbD_extractSet]
    exact SkewedAssociative.small_skew shape.inside _ way i (shape.msbShift ▸ above)

theorem LaidOut.getLsbD_addressOf (laid : policy.LaidOut s k) (tag : Addr) (index : Nat) {i : Nat} (below : i < k) : (policy.addressOf tag index).getLsbD (s + i) = index.testBit i := by
  have layout := laid.layout
  have offset := layout.offset_lt
  have fits := layout.index_lt
  have bound : s + i < 64 := by omega
  rw [addressOf, layout.tagShift, layout.setShift, BitVec.getLsbD_or, BitVec.getLsbD_shiftLeft,
    BitVec.getLsbD_shiftLeft, BitVec.getLsbD_ofNat]
  have low : s + i < s + k := by omega
  have here : i < 64 := by omega
  simp [bound, low, here]

theorem LaidOut.extractTag_addressOf (laid : policy.LaidOut s k) (tag : Addr) {index : Nat} (small : index < 2 ^ k) :
    policy.extractTag (policy.addressOf tag index) = tag <<< (s + k) >>> (s + k) := by
  have layout := laid.layout
  refine BitVec.eq_of_getLsbD_eq fun j bound => ?_
  rw [extractTag, BaseIndexingPolicy.extractTag, addressOf, layout.tagShift, layout.setShift,
    BitVec.getLsbD_ushiftRight, BitVec.getLsbD_or, BitVec.getLsbD_ushiftRight, BitVec.getLsbD_shiftLeft,
    BitVec.getLsbD_shiftLeft, BitVec.getLsbD_ofNat]
  have high : index.testBit (s + k + j - s) = false :=
    Nat.testBit_lt_two_pow (Nat.lt_of_lt_of_le small (Nat.pow_le_pow_right Nat.zero_lt_two (by omega)))
  rw [high, Bool.and_false, Bool.and_false, Bool.or_false]

theorem LaidOut.index_eq (laid : policy.LaidOut s k) {addr addr' : Addr} {way : Nat}
    (tags : policy.extractTag addr = policy.extractTag addr')
    (sets : policy.extractSet addr way = policy.extractSet addr' way) {i : Nat} (below : i < k) :
    addr.getLsbD (s + i) = addr'.getLsbD (s + i) := by
  cases laid with
  | setAssociative layout =>
    have bit := congrArg (BitVec.getLsbD · i) sets
    simpa only [extractSet, SetAssociative.getLsbD_extractSet layout, below, decide_true, Bool.true_and] using bit
  | @skewedAssociative policy shape =>
    have aligned : alignTo s addr = alignTo s addr' := by
      rw [← shape.regenerates addr way, ← shape.regenerates addr' way]
      exact congr (congrArg policy.regenerateAddr tags) sets ▸ rfl
    have bit := congrArg (BitVec.getLsbD · (s + i)) aligned
    simpa only [getLsbD_alignTo, Nat.le_add_right, decide_true, Bool.true_and] using bit

/-- **For a fixed tag, the indices go one to one onto the sets**, in every way. -/
theorem LaidOut.bijective (laid : policy.LaidOut s k) (tag : Addr) (way : Nat) :
    Set.BijOn (fun index => (policy.extractSet (policy.addressOf tag index) way).toNat)
      (Set.Iio policy.base.numSets) (Set.Iio policy.base.numSets) := by
  have layout := laid.layout
  rw [layout.numSets]
  have inside : Set.MapsTo (fun index => (policy.extractSet (policy.addressOf tag index) way).toNat)
      (Set.Iio (2 ^ k)) (Set.Iio (2 ^ k)) := fun index _ => laid.extractSet_lt _ way
  refine ((Set.finite_Iio (2 ^ k)).injOn_iff_bijOn_of_mapsTo inside).mp fun index small index' small' same => ?_
  have sets : policy.extractSet (policy.addressOf tag index) way =
      policy.extractSet (policy.addressOf tag index') way := BitVec.eq_of_toNat_eq same
  have tags : policy.extractTag (policy.addressOf tag index) = policy.extractTag (policy.addressOf tag index') := by
    rw [laid.extractTag_addressOf tag small, laid.extractTag_addressOf tag small']
  refine Nat.eq_of_testBit_eq fun i => ?_
  by_cases below : i < k
  · rw [← laid.getLsbD_addressOf tag index below, laid.index_eq tags sets below, laid.getLsbD_addressOf tag index' below]
  · have power : 2 ^ k ≤ 2 ^ i := Nat.pow_le_pow_right Nat.zero_lt_two (Nat.le_of_not_lt below)
    rw [Nat.testBit_lt_two_pow (Nat.lt_of_lt_of_le small power),
      Nat.testBit_lt_two_pow (Nat.lt_of_lt_of_le small' power)]

/-- The way of the policy takes a skewed address back. -/
def Deskews (policy : IndexingPolicy) (way : Nat) : Prop :=
  match policy with
  | setAssociative _ => True
  | skewedAssociative policy => ∀ addr skewed, policy.lowPart skewed = policy.skew addr way →
      policy.highPart skewed = policy.highPart addr → policy.deskew skewed way = policy.lowPart addr

theorem LaidOut.deskews (laid : policy.LaidOut s k) (way : Nat) : policy.Deskews way := by
  cases laid with
  | setAssociative layout => trivial
  | @skewedAssociative policy shape =>
    have long : 0 < policy.msbShift := by
      have same := shape.msbShift
      have several := shape.long
      omega
    exact fun addr skewed low high => SkewedAssociative.deskew_skew long shape.inside low high

/-- **Invertibility.** Every address comes back, without its offset, from its tag and its place in any way, if and only
if its index fits into the 32 bits that the set associative policy shifts it in. Deskewing undoes skewing, and for a
fixed tag the indices go one to one onto the sets. -/
theorem indexing_invertible_iff (accepted : policy.Accepted p) (way : Nat) :
    (∀ addr, policy.regenerateAddr (policy.extractTag addr) (policy.extractSet addr way) way =
      alignTo policy.base.setShift addr ↔ policy.Shifts addr) ∧ policy.Deskews way ∧
    ∀ tag, Set.BijOn (fun index => (policy.extractSet (policy.addressOf tag index) way).toNat)
      (Set.Iio policy.base.numSets) (Set.Iio policy.base.numSets) := by
  obtain ⟨s, k, laid⟩ := accepted.laidOut
  exact ⟨fun addr => laid.regenerates_iff addr way, laid.deskews way, fun tag => laid.bijective tag way⟩

/-- Eight sets of 64 bytes. -/
def smallParams : IndexingParams := ⟨1024, 64, 2, by decide, by decide, by decide⟩

def smallSets : SkewedAssociative := ⟨⟨2, 8, 6, 7, 9⟩, 2⟩

/-- The rule at an address in the second way of eight sets. -/
theorem invertible_small : smallSets.regenerateAddr (smallSets.extractTag 0x12345) (smallSets.extractSet 0x12345 1) 1 =
    alignTo 6 0x12345 :=
  ((indexing_invertible_iff (.skewedAssociative (p := smallParams) (by decide) rfl) 1).1 0x12345).mpr trivial

/-- A direct-mapped cache of 8 GiB. -/
def largeParams : IndexingParams := ⟨2 ^ 33, 64, 1, by decide, by decide, by decide⟩

def largeSets : SetAssociative := ⟨⟨1, 2 ^ 27, 6, BitVec.ofNat 32 (2 ^ 27 - 1), 33⟩⟩

/-- In a direct-mapped cache of 8 GiB, bit 32 of the address is lost. -/
theorem not_invertible : ¬ ∀ (p : IndexingParams) (policy : IndexingPolicy), policy.Accepted p → ∀ addr way,
    policy.regenerateAddr (policy.extractTag addr) (policy.extractSet addr way) way =
      alignTo policy.base.setShift addr := by
  intro invertible
  have back := invertible largeParams (.setAssociative largeSets) (.setAssociative (by decide) rfl)
    (BitVec.ofNat 64 (2 ^ 32)) 0
  revert back
  decide +kernel

end IndexingPolicy

end Emas.Gem5

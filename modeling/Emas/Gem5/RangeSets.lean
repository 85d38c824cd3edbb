/-
**Ranges as sets of addresses.**

`intersects` and `isSubset` answer for the sets of addresses that two ranges hold, where they decide interleaved ranges by
shortcuts: the start of a range whose size is one, the match values of ranges that merge, the ends of an interval that is no
larger than the granularity.

* `selector_congr`, `selector_ne_succ` — an address belongs to its stripe by its granule, and two granules of which the
  first is even belong to different ones.

**`truthful_iff`** — the answers are right for ranges that hold an address, if and only if a size of one is that of a range
whose start tells, and an interval that crosses into a granule of the same stripe is no larger than a granule.
-/

import Emas.Gem5.IntlvBits
import Emas.Gem5.RangeLookup

namespace Emas.Gem5

open Bits

namespace AddrRange

/-! ### Granules -/

section Granules

variable {masks : List Addr} {a b : Addr} {l : Nat}

theorem testBit_selector_zero (masks : List Addr) (a : Addr) (j : Nat) :
    (selector masks a).testBit j = (masks[j]?.map fun m => parity (a &&& m)).getD false := by
  rw [selector, testBit_selector, Nat.zero_testBit, Bool.false_or, decide_eq_true (Nat.zero_le j), Bool.true_and, Nat.sub_zero]

theorem getLsbD_granule (a : Addr) {j : Nat} (above : l ≤ j) : a.getLsbD j = (a.toNat / 2 ^ l).testBit (j - l) := by
  rw [Nat.testBit_div_two_pow, Nat.sub_add_cancel above]
  rfl

theorem selector_congr (low : ∀ m ∈ masks, ∀ j < l, m.getLsbD j = false) (same : a.toNat / 2 ^ l = b.toNat / 2 ^ l) :
    selector masks a = selector masks b := by
  refine Nat.eq_of_testBit_eq fun j => ?_
  rw [testBit_selector_zero, testBit_selector_zero]
  cases found : masks[j]? with
  | none => rw [Option.map_none, Option.map_none]
  | some m =>
    have read : a &&& m = b &&& m := by
      refine and_congr_of_bits fun i set => ?_
      have above : l ≤ i := by
        by_contra below
        rw [low m (List.mem_of_getElem? found) i (Nat.lt_of_not_le below)] at set
        cases set
      rw [getLsbD_granule a above, getLsbD_granule b above, same]
    rw [Option.map_some, Option.map_some, read]

theorem selector_ne_succ {m : Addr} (member : m ∈ masks) (set : m.getLsbD l = true) (bound : l < 64)
    (low : ∀ j < l, m.getLsbD j = false) {q : Nat} (even : q % 2 = 0) (first : a.toNat / 2 ^ l = q)
    (second : b.toNat / 2 ^ l = q + 1) : selector masks a ≠ selector masks b := by
  intro same
  obtain ⟨i, found⟩ := List.getElem?_of_mem member
  have bits := congrArg (Nat.testBit · i) same
  simp only [testBit_selector_zero, found, Option.map_some, Option.getD_some] at bits
  -- only the bit at `l` tells the two granules apart
  have others : a &&& m &&& ~~~ bitAt 64 l = b &&& m &&& ~~~ bitAt 64 l := by
    rw [BitVec.and_assoc, BitVec.and_assoc]
    refine and_congr_of_bits fun j read => ?_
    have above : l < j := by
      rcases Nat.lt_trichotomy j l with below | rfl | above
      · simp [low j below] at read
      · simp [bound, -BitVec.getLsbD_eq_getElem] at read
      · exact above
    rw [getLsbD_granule a above.le, getLsbD_granule b above.le, first, second]
    obtain ⟨k, shift⟩ := Nat.exists_eq_succ_of_ne_zero (Nat.sub_ne_zero_of_lt above)
    rw [shift, Nat.testBit_succ, Nat.testBit_succ]
    congr 1
    omega
  have bitA : a.getLsbD l = false := by
    rw [getLsbD_granule a (Nat.le_refl l), first, Nat.sub_self, Nat.testBit_zero]
    simp [even]
  have bitB : b.getLsbD l = true := by
    rw [getLsbD_granule b (Nat.le_refl l), second, Nat.sub_self, Nat.testBit_zero]
    simp
    omega
  rw [parity_split (a &&& m) bound, parity_split (b &&& m) bound, others, BitVec.getLsbD_and, BitVec.getLsbD_and, bitA, bitB,
    set] at bits
  revert bits
  cases parity (b &&& m &&& ~~~ bitAt 64 l) <;> decide

end Granules

variable {r r' : AddrRange}

theorem getLsbD_combined (masks : List Addr) (combined : BitVec 32) {j : Nat} (bound : j < 32) :
    (masks.foldl (fun combined mask => combined ||| mask.truncate 32) combined).getLsbD j = true ↔
      combined.getLsbD j = true ∨ ∃ m ∈ masks, m.getLsbD j = true := by
  induction masks generalizing combined with
  | nil => simp
  | cons m rest ih =>
    rw [List.foldl_cons, ih, BitVec.getLsbD_or, BitVec.truncate_eq_setWidth, BitVec.getLsbD_setWidth, decide_eq_true bound,
      Bool.true_and, Bool.or_eq_true, List.exists_mem_cons_iff, or_assoc]

/-- Some mask has one of its low 32 bits set. -/
def Grained (r : AddrRange) : Prop := ∃ m ∈ r.masks, ∃ j < 32, m.getLsbD j = true

/-- **The granularity** is the lowest bit of the masks, if this is one of their low 32; the shift is one of 64 places, which
is undefined, if they have none. -/
theorem granularity_spec (striped : r.masks ≠ []) :
    (r.Grained → ∃ l < 32, r.granularity.toNat = 2 ^ l ∧ (∃ m ∈ r.masks, m.getLsbD l = true) ∧
      ∀ m ∈ r.masks, ∀ j < l, m.getLsbD j = false) ∧ (r.granularity ≠ 0 ↔ r.Grained) := by
  have interleaved : r.interleaved = true := decide_eq_true (List.length_pos_iff.mpr striped)
  generalize held : r.masks.foldl (fun combined mask => combined ||| mask.truncate 32) 0#32 = combined
  have bits {j : Nat} (bound : j < 32) : combined.getLsbD j = true ↔ ∃ m ∈ r.masks, m.getLsbD j = true := by
    rw [← held, getLsbD_combined r.masks 0#32 bound, BitVec.getLsbD_zero]
    exact or_iff_right Bool.false_ne_true
  have extended {j : Nat} (bound : j < 32) : (combined.signExtend 64).getLsbD j = combined.getLsbD j := by
    rw [BitVec.getLsbD_signExtend, if_pos bound, decide_eq_true (by omega), Bool.true_and]
  have value : r.granularity = 1#64 <<< ctz64 (combined.signExtend 64) := by
    rw [granularity, if_pos interleaved, held]
  by_cases none : combined = 0#32
  · have undefined : r.granularity = 0 := by
      rw [value, none]
      decide
    have ungrained : ¬ r.Grained := by
      rintro ⟨m, member, j, bound, set⟩
      have bit := (bits bound).mpr ⟨m, member, set⟩
      rw [none, BitVec.getLsbD_zero] at bit
      cases bit
    exact ⟨fun grained => absurd grained ungrained, iff_of_false (not_not_intro undefined) ungrained⟩
  · have nonzero : combined.signExtend 64 ≠ 0 := by
      intro zero
      refine none (BitVec.eq_of_getLsbD_eq fun j bound => ?_)
      rw [← extended bound, zero, BitVec.ofNat_eq_ofNat, BitVec.getLsbD_zero, BitVec.getLsbD_zero]
    obtain ⟨-, set, below⟩ := ctz64_spec nonzero
    generalize ctz64 (combined.signExtend 64) = l at value set below
    have low : l < 32 := by
      by_contra high
      refine none (BitVec.eq_of_getLsbD_eq fun j bound => ?_)
      rw [← extended bound, below j (by omega), BitVec.getLsbD_zero]
    rw [extended low] at set
    have power : r.granularity.toNat = 2 ^ l := by
      have small : 2 ^ l < 2 ^ 64 := Nat.pow_lt_pow_right (by decide) (by omega)
      rw [value, BitVec.toNat_shiftLeft, BitVec.toNat_ofNat, Nat.shiftLeft_eq, Nat.one_mod_two_pow_eq_one.mpr (by decide),
        Nat.one_mul, Nat.mod_eq_of_lt small]
    obtain ⟨m, member, lowest⟩ := (bits low).mp set
    have defined : r.granularity ≠ 0 := by
      intro zero
      rw [zero] at power
      exact absurd power.symm (Nat.two_pow_pos l).ne'
    refine ⟨fun _ => ⟨l, low, power, ⟨m, member, lowest⟩, fun m' member' j less => ?_⟩,
      iff_of_true defined ⟨m, member, l, low, lowest⟩⟩
    have bound : j < 32 := Nat.lt_trans less low
    have unset := below j less
    rw [extended bound] at unset
    by_contra other
    rw [(bits bound).mpr ⟨m', member', (Bool.not_eq_false _).mp other⟩] at unset
    cases unset

/-! ### Subsets -/

theorem nonempty_of_held (held : ∃ a, r.contains a = true) : r.startAddr.toNat < r.endAddr.toNat := by
  obtain ⟨a, inside⟩ := held
  obtain ⟨⟨above, below⟩, -⟩ := contains_iff.mp inside
  rw [BitVec.le_def] at above
  rw [BitVec.lt_def] at below
  exact Nat.lt_of_le_of_lt above below

theorem toNat_last (held : ∃ a, r.contains a = true) : (r.endAddr - 1).toNat = r.endAddr.toNat - 1 := by
  have nonempty := nonempty_of_held held
  rw [BitVec.toNat_sub_of_le (by rw [BitVec.le_def]; show 1 ≤ _; omega)]
  rfl

theorem contains_plain (plain : r.masks = []) (held : ∃ a, r.contains a = true) (a : Addr) :
    r.contains a = true ↔ r.startAddr.toNat ≤ a.toNat ∧ a.toNat ≤ r.endAddr.toNat - 1 := by
  have nonempty := nonempty_of_held held
  obtain ⟨b, inside⟩ := held
  obtain ⟨-, selected⟩ := contains_iff.mp inside
  have nothing : ∀ c, selector [] c = 0 := fun _ => rfl
  rw [plain, nothing] at selected
  rw [contains_iff, plain, nothing, and_iff_left selected, BitVec.le_def, BitVec.lt_def]
  omega

theorem contains_ends (plain : r.masks = []) (held : ∃ a, r.contains a = true) :
    r.contains r.startAddr = true ∧ r.contains (r.endAddr - 1) = true := by
  have nonempty := nonempty_of_held held
  exact ⟨(contains_plain plain held _).mpr ⟨Nat.le_refl _, by omega⟩,
    (contains_plain plain held _).mpr (by rw [toNat_last held]; omega)⟩

/-- Every address of the first range is one of the second. -/
def Subset (r r' : AddrRange) : Prop := ∀ a, r.contains a = true → r'.contains a = true

/-- **A stripe holds an interval if and only if it holds both its ends, and these lie in one granule or in neighbouring
ones.** -/
theorem subset_iff_ends (plain : r.masks = []) (held : ∃ a, r.contains a = true) {l : Nat} (bound : l < 64)
    {m : Addr} (member : m ∈ r'.masks) (set : m.getLsbD l = true) (low : ∀ m ∈ r'.masks, ∀ j < l, m.getLsbD j = false) :
    r.Subset r' ↔ r'.contains r.startAddr = true ∧ r'.contains (r.endAddr - 1) = true ∧
      (r.endAddr.toNat - 1) / 2 ^ l ≤ r.startAddr.toNat / 2 ^ l + 1 := by
  have nonempty := nonempty_of_held held
  have last := toNat_last held
  have holds := contains_plain plain held
  constructor
  · intro subset
    refine ⟨subset _ (contains_ends plain held).1, subset _ (contains_ends plain held).2, ?_⟩
    by_contra far
    obtain ⟨q, even, from', before⟩ : ∃ q, q % 2 = 0 ∧ r.startAddr.toNat / 2 ^ l ≤ q ∧ q ≤ r.startAddr.toNat / 2 ^ l + 1 :=
      ⟨r.startAddr.toNat / 2 ^ l + r.startAddr.toNat / 2 ^ l % 2, by omega, by omega, by omega⟩
    have positive : 0 < 2 ^ l := Nat.two_pow_pos l
    have start : r.startAddr.toNat < q * 2 ^ l + 2 ^ l := by
      rw [← Nat.succ_mul]
      exact (Nat.div_lt_iff_lt_mul positive).mp (Nat.lt_succ_of_le from')
    have stop : q * 2 ^ l + 2 ^ l ≤ r.endAddr.toNat - 1 := by
      rw [← Nat.succ_mul]
      exact (Nat.le_div_iff_mul_le positive).mp (by omega)
    have small := r.endAddr.isLt
    -- the first address of the interval in an even granule, and the first one of the next granule
    have first : (BitVec.ofNat 64 (max r.startAddr.toNat (q * 2 ^ l))).toNat = max r.startAddr.toNat (q * 2 ^ l) := by
      rw [BitVec.toNat_ofNat, Nat.mod_eq_of_lt (by omega)]
    have second : (BitVec.ofNat 64 (q * 2 ^ l + 2 ^ l)).toNat = q * 2 ^ l + 2 ^ l := by
      rw [BitVec.toNat_ofNat, Nat.mod_eq_of_lt (by omega)]
    have inFirst := subset _ ((holds _).mpr (by rw [first]; omega))
    have inSecond := subset _ ((holds _).mpr (by rw [second]; omega))
    have same := (contains_iff.mp inFirst).2.trans (contains_iff.mp inSecond).2.symm
    refine selector_ne_succ member set bound (low m member) even ?_ ?_ same
    · rw [first]
      exact Nat.div_eq_of_lt_le (Nat.le_max_right ..) (Nat.max_lt.mpr ⟨by rwa [Nat.succ_mul], by rw [Nat.succ_mul]; omega⟩)
    · rw [second, ← Nat.succ_mul, Nat.mul_div_cancel _ positive]
  · rintro ⟨first, second, near⟩ a inside
    obtain ⟨above, below⟩ := (holds a).mp inside
    obtain ⟨⟨startIn, -⟩, selected⟩ := contains_iff.mp first
    obtain ⟨⟨-, stopIn⟩, selected'⟩ := contains_iff.mp second
    rw [BitVec.le_def] at startIn
    rw [BitVec.lt_def, last] at stopIn
    refine contains_iff.mpr ⟨⟨by rw [BitVec.le_def]; omega, by rw [BitVec.lt_def]; omega⟩, ?_⟩
    have from' : r.startAddr.toNat / 2 ^ l ≤ a.toNat / 2 ^ l := Nat.div_le_div_right above
    have upTo : a.toNat / 2 ^ l ≤ (r.endAddr.toNat - 1) / 2 ^ l := Nat.div_le_div_right below
    rcases Nat.eq_or_lt_of_le from' with same | beyond
    · rw [← selected]
      exact selector_congr low same.symm
    · rw [← selected']
      exact selector_congr low (by rw [last]; omega)

/-- If a stripe holds both ends of an interval, some mask has one of its low 32 bits set, and an interval that is larger than
a granule crosses more than one border of granules. -/
def Fits (r r' : AddrRange) : Prop :=
  r'.masks ≠ [] → r'.contains r.startAddr = true → r'.contains (r.endAddr - 1) = true →
    r'.Grained ∧ (r.size ≤ r'.granularity ∨
      r.startAddr.toNat / r'.granularity.toNat + 1 < (r.endAddr.toNat - 1) / r'.granularity.toNat)

/-- What `isSubset` says, and that the granularity is defined where it is looked at. -/
structure SubsetTruthful (r r' : AddrRange) : Prop where
  defined : r'.masks ≠ [] → r'.contains r.startAddr = true → r'.contains (r.endAddr - 1) = true → r'.granularity ≠ 0
  answer : ∀ answer, r.isSubset r' = some answer → (answer = true ↔ r.Subset r')

/-- **`isSubset` tells plain ranges apart.** -/
theorem isSubset_plain (plain : r.masks = []) (plain' : r'.masks = []) (held : ∃ a, r.contains a = true)
    (held' : ∃ a, r'.contains a = true) : ∃ answer, r.isSubset r' = some answer ∧ (answer = true ↔ r.Subset r') := by
  refine ⟨_, by rw [isSubset, if_neg (by simp [interleaved, plain]), if_neg (by simp [interleaved, plain'])], ?_⟩
  have nonempty := nonempty_of_held held
  have nonempty' := nonempty_of_held held'
  rw [decide_eq_true_eq, ge_iff_le, BitVec.le_def, BitVec.le_def]
  constructor
  · rintro ⟨above, below⟩ a inside
    obtain ⟨low, high⟩ := (contains_plain plain held a).mp inside
    exact (contains_plain plain' held' a).mpr ⟨by omega, by omega⟩
  · intro subset
    obtain ⟨first, second⟩ := contains_ends plain held
    have low := ((contains_plain plain' held' _).mp (subset _ first)).1
    have high := ((contains_plain plain' held' _).mp (subset _ second)).2
    rw [toNat_last held] at high
    omega

theorem near_of_size_le (plain : r.masks = []) (held : ∃ a, r.contains a = true) {l : Nat}
    (power : r'.granularity.toNat = 2 ^ l) (small : r.size ≤ r'.granularity) :
    (r.endAddr.toNat - 1) / 2 ^ l ≤ r.startAddr.toNat / 2 ^ l + 1 := by
  have nonempty := nonempty_of_held held
  have size : r.size.toNat = r.endAddr.toNat - r.startAddr.toNat := by
    rw [AddrRange.size, plain, List.length_nil, BitVec.ushiftRight_zero, BitVec.toNat_sub_of_le]
    exact BitVec.le_def.mpr nonempty.le
  rw [BitVec.le_def, size, power] at small
  rw [← Nat.add_div_right _ (Nat.two_pow_pos l)]
  exact Nat.div_le_div_right (by omega)

theorem isSubset_iff_fits (plain : r.masks = []) (held : ∃ a, r.contains a = true) (held' : ∃ a, r'.contains a = true) :
    r.SubsetTruthful r' ↔ r.Fits r' := by
  by_cases plain' : r'.masks = []
  · obtain ⟨answer, answered, right⟩ := isSubset_plain plain plain' held held'
    refine ⟨fun _ striped => absurd plain' striped, fun _ => ⟨fun striped => absurd plain' striped, fun other same => ?_⟩⟩
    obtain rfl : answer = other := Option.some.inj (answered.symm.trans same)
    exact right
  · have striped : r'.interleaved = true := decide_eq_true (List.length_pos_iff.mpr plain')
    have answered : r.isSubset r' = some (r'.contains r.startAddr && r'.contains (r.endAddr - 1) &&
        decide (r.size ≤ r'.granularity)) := by
      rw [isSubset, if_neg (by simp [interleaved, plain]), if_pos striped]
    obtain ⟨spec, defined⟩ := granularity_spec plain'
    by_cases ends : r'.contains r.startAddr = true ∧ r'.contains (r.endAddr - 1) = true
    · obtain ⟨first, second⟩ := ends
      rw [first, second, Bool.true_and, Bool.true_and] at answered
      constructor
      · intro truthful _ _ _
        have grained := defined.mp (truthful.defined plain' first second)
        obtain ⟨l, low, power, ⟨m, member, set⟩, unset⟩ := spec grained
        have right := truthful.answer _ answered
        rw [decide_eq_true_eq, subset_iff_ends plain held (by omega) member set unset] at right
        refine ⟨grained, or_iff_not_imp_left.mpr fun large => ?_⟩
        rw [power]
        by_contra near
        exact large (right.mpr ⟨first, second, Nat.le_of_not_lt near⟩)
      · intro fits
        obtain ⟨grained, size⟩ := fits plain' first second
        obtain ⟨l, low, power, ⟨m, member, set⟩, unset⟩ := spec grained
        refine ⟨fun _ _ _ => defined.mpr grained, fun answer same => ?_⟩
        obtain rfl := Option.some.inj (answered.symm.trans same)
        rw [decide_eq_true_eq, subset_iff_ends plain held (by omega) member set unset]
        constructor
        · exact fun small => ⟨first, second, near_of_size_le plain held power small⟩
        · rintro ⟨-, -, near⟩
          refine size.resolve_right fun far => ?_
          rw [power] at far
          omega
    · have outside : ¬ r.Subset r' := fun subset =>
        ends ⟨subset _ (contains_ends plain held).1, subset _ (contains_ends plain held).2⟩
      refine ⟨fun _ _ first second => absurd ⟨first, second⟩ ends, fun _ =>
        ⟨fun _ first second => absurd ⟨first, second⟩ ends, fun answer same => ?_⟩⟩
      obtain rfl := Option.some.inj (answered.symm.trans same)
      refine iff_of_false (fun all => ends ?_) outside
      rw [Bool.and_eq_true, Bool.and_eq_true] at all
      exact all.1

/-! ### Intersections -/

/-- Some address is in both ranges. -/
def Shares (r r' : AddrRange) : Prop := ∃ a, r.contains a = true ∧ r'.contains a = true

/-- Where the second range has size one, overlaps, and one of the two is interleaved, the first holds its start if and only
if it holds any of its addresses. -/
def TellsByStart (r r' : AddrRange) : Prop :=
  ¬ r.Apart r' → r.masks ≠ [] ∨ r'.masks ≠ [] → r'.size = 1 → (r.contains r'.startAddr = true ↔ r.Shares r')

theorem Shares.symm (shares : r.Shares r') : r'.Shares r := by
  obtain ⟨a, inside, inside'⟩ := shares
  exact ⟨a, inside', inside⟩

theorem shares_comm : r.Shares r' ↔ r'.Shares r := ⟨Shares.symm, Shares.symm⟩

theorem not_shares_of_apart (apart : r.Apart r') : ¬ r.Shares r' :=
  fun ⟨a, both⟩ => Clear.disjoint (.inl apart) a both

theorem shares_of_plain (plain : r.masks = []) (plain' : r'.masks = []) (held : ∃ a, r.contains a = true)
    (held' : ∃ a, r'.contains a = true) (overlap : ¬ r.Apart r') : r.Shares r' := by
  have nonempty := nonempty_of_held held
  have nonempty' := nonempty_of_held held'
  rw [Apart, BitVec.le_def, BitVec.le_def, not_or] at overlap
  rcases Nat.le_total r.startAddr.toNat r'.startAddr.toNat with before | behind
  · exact ⟨r'.startAddr, (contains_plain plain held _).mpr (by omega), (contains_ends plain' held').1⟩
  · exact ⟨r.startAddr, (contains_ends plain held).1, (contains_plain plain' held' _).mpr (by omega)⟩

theorem shares_iff_of_mergesWith (merges : r.mergesWith r' = true) (held : ∃ a, r.contains a = true) :
    r.intlvMatch = r'.intlvMatch ↔ r.Shares r' := by
  constructor
  · intro same
    obtain ⟨a, inside⟩ := held
    obtain ⟨start, stop, masks⟩ := mergesWith_iff.mp merges
    refine ⟨a, inside, ?_⟩
    rw [contains_iff] at inside ⊢
    rwa [start, stop, masks, ← same]
  · rintro ⟨a, both⟩
    by_contra other
    exact Clear.disjoint (.inr ⟨merges, other⟩) a both

/-- **Where `intersects` has a result, it is right if and only if a size of one is that of a range whose start tells.** -/
theorem intersects_iff (held : ∃ a, r.contains a = true) (held' : ∃ a, r'.contains a = true) :
    (∀ answer, r.intersects r' = some answer → (answer = true ↔ r.Shares r')) ↔ r.TellsByStart r' := by
  by_cases apart : r.Apart r'
  · refine ⟨fun _ overlap => absurd apart overlap, fun _ answer same => ?_⟩
    rw [intersects, if_pos apart.symm] at same
    obtain rfl := Option.some.inj same
    exact iff_of_false Bool.false_ne_true (not_shares_of_apart apart)
  have overlap : ¬ (r.startAddr ≥ r'.endAddr ∨ r.endAddr ≤ r'.startAddr) := fun outside => apart outside.symm
  by_cases plain : r.masks = [] ∧ r'.masks = []
  · refine ⟨fun _ _ striped => absurd plain (by tauto), fun _ answer same => ?_⟩
    rw [intersects, if_neg overlap, if_pos (by simp [interleaved, plain.1, plain.2])] at same
    obtain rfl := Option.some.inj same
    exact iff_of_true rfl (shares_of_plain plain.1 plain.2 held held' apart)
  have striped : ¬ (!r.interleaved && !r'.interleaved) = true := fun both => plain (by simpa [interleaved] using both)
  by_cases one : r'.size = 1
  · have answered : r.intersects r' = some (r.contains r'.startAddr) := by
      rw [intersects, if_neg overlap, if_neg striped, if_pos one]
    constructor
    · exact fun right _ _ _ => right _ answered
    · intro tells answer same
      obtain rfl := Option.some.inj (answered.symm.trans same)
      exact tells apart (by tauto) one
  · refine ⟨fun _ _ _ size => absurd size one, fun _ answer same => ?_⟩
    rw [intersects, if_neg overlap, if_neg striped, if_neg one] at same
    split at same
    · next merges =>
      obtain rfl := Option.some.inj same
      rw [decide_eq_true_eq]
      exact shares_iff_of_mergesWith merges held
    · cases same

/-! ### What the predicates say -/

/-- **The predicates mean what they say.** -/
structure Truthful (r r' : AddrRange) : Prop where
  intersects : ∀ answer, r.intersects r' = some answer → (answer = true ↔ r.Shares r') ∧
    ∀ reverse, r'.intersects r = some reverse → reverse = answer
  isSubset : r.masks = [] → r.SubsetTruthful r'

theorem intersects_isSome (one : r'.size = 1) : (r.intersects r').isSome := by
  rw [AddrRange.intersects, if_pos one]
  split
  · rfl
  · split <;> rfl

theorem isSome_of_reverse (one : r.size = 1) (overlap : ¬ r.Apart r') (striped : r.masks ≠ [] ∨ r'.masks ≠ [])
    (answered : (r.intersects r').isSome) : r'.size = 1 := by
  have outside : ¬ (r.startAddr ≥ r'.endAddr ∨ r.endAddr ≤ r'.startAddr) := fun apart => overlap apart.symm
  have both : ¬ (!r.interleaved && !r'.interleaved) = true := fun both => by
    have plain : r.masks = [] ∧ r'.masks = [] := by simpa [interleaved] using both
    tauto
  by_contra other
  rw [AddrRange.intersects, if_neg outside, if_neg both, if_neg other] at answered
  split at answered
  · next merges =>
    obtain ⟨start, stop, masks⟩ := mergesWith_iff.mp merges
    exact other (by rw [size, start, stop, masks]; exact one)
  · cases answered

/-- **When the predicates mean what they say.** -/
theorem truthful_iff (held : ∃ a, r.contains a = true) (held' : ∃ a, r'.contains a = true) :
    r.Truthful r' ↔ r.TellsByStart r' ∧ (r'.size = 1 → r'.TellsByStart r) ∧ (r.masks = [] → r.Fits r') := by
  constructor
  · intro truthful
    refine ⟨(intersects_iff held held').mp fun answer same => (truthful.intersects answer same).1, fun one => ?_,
      fun plain => (isSubset_iff_fits plain held held').mp (truthful.isSubset plain)⟩
    obtain ⟨answer, answered⟩ := Option.isSome_iff_exists.mp (@intersects_isSome r r' one)
    obtain ⟨right, reversed⟩ := truthful.intersects answer answered
    refine (intersects_iff held' held).mp fun reverse same => ?_
    rw [reversed reverse same, right, shares_comm]
  · rintro ⟨tells, tells', fits⟩
    refine ⟨fun answer same => ?_, fun plain => (isSubset_iff_fits plain held held').mpr (fits plain)⟩
    have right := (intersects_iff held held').mpr tells answer same
    refine ⟨right, fun reverse reversed => ?_⟩
    have both : r'.TellsByStart r := fun overlap striped one =>
      tells' (isSome_of_reverse one (fun apart => overlap apart.symm) striped.symm (same ▸ rfl)) overlap striped one
    rw [Bool.eq_iff_iff, (intersects_iff held' held).mpr both reverse reversed, right, shares_comm]

/-- A granule of a stripe. -/
theorem truthful_granule : Truthful ⟨0x80, 0xc0, [], 0⟩ ⟨0, 0x1000, [0x40], 0⟩ := by
  refine (truthful_iff ⟨0x80, by decide⟩ ⟨0x80, by decide⟩).mpr ⟨fun _ _ one => absurd one (by decide), fun one =>
    absurd one (by decide), fun _ _ _ _ => ⟨⟨0x40, List.mem_singleton_self _, 6, by decide, by decide⟩, .inl (by decide)⟩⟩

/-- A stripe of two addresses whose start is not its own, with its other address; and an interval that a stripe holds and
that is larger than a granule of it. -/
theorem shortcuts_fail : ¬ Truthful ⟨1, 2, [], 0⟩ ⟨0, 2, [1], 1⟩ ∧ ¬ Truthful ⟨1, 3, [], 0⟩ ⟨0, 4, [3], 1⟩ := by
  constructor
  · intro truthful
    exact absurd ((truthful.intersects false (by decide)).1.mpr ⟨1, by decide, by decide⟩) (by decide)
  · intro truthful
    obtain ⟨-, size⟩ := (isSubset_iff_fits rfl ⟨1, by decide⟩ ⟨1, by decide⟩).mp (truthful.isSubset rfl) (by decide) (by decide)
      (by decide)
    exact absurd size (by decide)

end AddrRange

end Emas.Gem5

/-
**Fields packed into a word.**

`pack w field n` is the number with the `w`-bit fields `field 0`, …, `field (n - 1)`, low to high. Its bits are those of
the fields (`testBit_pack`), so that an operation on whole words is one on all fields, as long as no bit of a field gets
into its neighbour: `pack_add`, `pack_xor`, `pack_shift_and`. `pack_pairs` takes the fields in pairs, and `pack_fields`
reads them from a number.
-/

import Mathlib.Data.Nat.Bitwise
import Mathlib.Tactic.Ring

namespace Emas.Packed

/-- The number with the fields. -/
def pack (w : Nat) (field : Nat → Nat) : Nat → Nat
  | 0 => 0
  | n + 1 => pack w field n + 2 ^ (w * n) * field n

variable {w n : Nat} {f g : Nat → Nat}

theorem pack_congr (same : ∀ i < n, f i = g i) : pack w f n = pack w g n := by
  induction n with
  | zero => rfl
  | succ n ih =>
    unfold pack
    rw [ih fun i small => same i (by omega), same n (Nat.lt_succ_self n)]

theorem pack_lt (fits : ∀ i < n, f i < 2 ^ w) : pack w f n < 2 ^ (w * n) := by
  induction n with
  | zero => exact Nat.one_pos
  | succ n ih =>
    have below := ih fun i small => fits i (by omega)
    have room : 2 ^ (w * n) * (f n + 1) ≤ 2 ^ (w * n) * 2 ^ w := Nat.mul_le_mul_left _ (fits n (Nat.lt_succ_self n))
    unfold pack
    rw [Nat.mul_succ w n, Nat.pow_add]
    rw [Nat.mul_succ] at room
    omega

/-! ### Bits -/

/-- **A bit of a word** is one of a field. -/
theorem testBit_pack (positive : 0 < w) (fits : ∀ i < n, f i < 2 ^ w) (j : Nat) :
    (pack w f n).testBit j = (decide (j < w * n) && (f (j / w)).testBit (j % w)) := by
  induction n with
  | zero => simp [pack]
  | succ n ih =>
    have below := pack_lt fun i (small : i < n) => fits i (by omega)
    unfold pack
    rw [Nat.add_comm, Nat.testBit_two_pow_mul_add _ below]
    split
    · rename_i low
      rw [ih fun i small => fits i (by omega), decide_eq_true low,
        decide_eq_true (show j < w * (n + 1) by rw [Nat.mul_succ]; omega)]
    · rename_i high
      by_cases here : j < w * (n + 1)
      · have place : j / w = n := by
          rw [Nat.div_eq_iff positive, Nat.mul_comm n w]
          rw [Nat.mul_succ] at here
          omega
        have bit : j % w = j - w * n := by
          have split := Nat.div_add_mod j w
          rw [place] at split
          omega
        rw [decide_eq_true here, Bool.true_and, place, bit]
      · rw [decide_eq_false here, Bool.false_and]
        refine Nat.testBit_lt_two_pow ((fits n (Nat.lt_succ_self n)).trans_le (Nat.pow_le_pow_right (by decide) ?_))
        rw [Nat.mul_succ] at here
        omega

theorem pack_fields (w n : Nat) {x : Nat} (fits : x < 2 ^ (w * n)) :
    pack w (fun i => x / 2 ^ (w * i) % 2 ^ w) n = x := by
  have prefixes : ∀ m, pack w (fun i => x / 2 ^ (w * i) % 2 ^ w) m = x % 2 ^ (w * m) := by
    intro m
    induction m with
    | zero => simp [pack, Nat.mod_one]
    | succ m ih =>
      unfold pack
      rw [ih, Nat.mul_succ, Nat.pow_add, Nat.mod_mul]
  rw [prefixes, Nat.mod_eq_of_lt fits]

/-! ### Operations on all fields -/

theorem pack_add : pack w f n + pack w g n = pack w (fun i => f i + g i) n := by
  induction n with
  | zero => rfl
  | succ n ih =>
    unfold pack
    rw [← ih]
    ring

theorem pack_xor (positive : 0 < w) (fits : ∀ i < n, f i < 2 ^ w) (fits' : ∀ i < n, g i < 2 ^ w) :
    pack w f n ^^^ pack w g n = pack w (fun i => f i ^^^ g i) n := by
  refine Nat.eq_of_testBit_eq fun j => ?_
  rw [Nat.testBit_xor, testBit_pack positive fits, testBit_pack positive fits',
    testBit_pack positive fun i small => Nat.xor_lt_two_pow (fits i small) (fits' i small), Nat.testBit_xor]
  cases decide (j < w * n) <;> simp

theorem pack_shift_and (positive : 0 < w) {s : Nat} (le : s ≤ w) (fits : ∀ i < n, f i < 2 ^ w)
    (masked : ∀ i < n, g i < 2 ^ (w - s)) :
    (pack w f n >>> s) &&& pack w g n = pack w (fun i => (f i >>> s) &&& g i) n := by
  have fits' : ∀ i < n, g i < 2 ^ w := fun i small =>
    (masked i small).trans_le (Nat.pow_le_pow_right (by decide) (Nat.sub_le w s))
  refine Nat.eq_of_testBit_eq fun j => ?_
  rw [Nat.testBit_and, Nat.testBit_shiftRight, testBit_pack positive fits, testBit_pack positive fits',
    testBit_pack positive fun i small => Nat.and_lt_two_pow _ (fits' i small), Nat.testBit_and, Nat.testBit_shiftRight]
  by_cases inside : j < w * n
  · rw [decide_eq_true inside, Bool.true_and, Bool.true_and]
    by_cases low : j % w < w - s
    · have split := Nat.div_add_mod j w
      have place : (s + j) / w = j / w := by
        rw [Nat.div_eq_iff positive, Nat.mul_comm]
        omega
      have bit : (s + j) % w = s + j % w := by
        have split' := Nat.div_add_mod (s + j) w
        rw [place] at split'
        omega
      have inside' : s + j < w * n := by
        have small : j / w < n := (Nat.div_lt_iff_lt_mul positive).mpr (by rwa [Nat.mul_comm])
        have room : w * (j / w + 1) ≤ w * n := Nat.mul_le_mul_left _ small
        rw [Nat.mul_succ] at room
        omega
      rw [decide_eq_true inside', Bool.true_and, place, bit]
    · have small : j / w < n := (Nat.div_lt_iff_lt_mul positive).mpr (by rwa [Nat.mul_comm])
      have clear : (g (j / w)).testBit (j % w) = false :=
        Nat.testBit_lt_two_pow ((masked _ small).trans_le (Nat.pow_le_pow_right (by decide) (by omega)))
      rw [clear, Bool.and_false, Bool.and_false]
  · rw [decide_eq_false inside, Bool.false_and, Bool.false_and, Bool.and_false]

theorem pack_and (positive : 0 < w) (fits : ∀ i < n, f i < 2 ^ w) (masked : ∀ i < n, g i < 2 ^ w) :
    pack w f n &&& pack w g n = pack w (fun i => f i &&& g i) n := by
  have unshifted := pack_shift_and positive (Nat.zero_le w) fits masked
  simpa only [Nat.shiftRight_zero] using unshifted

/-- **Fields in pairs**. -/
theorem pack_pairs (w : Nat) (f : Nat → Nat) (n : Nat) :
    pack w f (2 * n) = pack (2 * w) (fun i => f (2 * i) + 2 ^ w * f (2 * i + 1)) n := by
  induction n with
  | zero => rfl
  | succ n ih =>
    show pack w f (2 * n) + 2 ^ (w * (2 * n)) * f (2 * n) + 2 ^ (w * (2 * n + 1)) * f (2 * n + 1) =
      pack (2 * w) _ n + 2 ^ (2 * w * n) * (f (2 * n) + 2 ^ w * f (2 * n + 1))
    rw [ih, show w * (2 * n + 1) = 2 * w * n + w by ring, show w * (2 * n) = 2 * w * n by ring, Nat.pow_add]
    ring

end Emas.Packed

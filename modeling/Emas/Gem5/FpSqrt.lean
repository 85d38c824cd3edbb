/-
**The square root rounds once.**

`fp16_sqrt`, `fp32_sqrt` and `fp64_sqrt` of `arch/arm/insts/fplib.cc` start from `(3 a + 5) / 8` and take two steps of
Heron's rule in words of 17 bits, with the divisor and both summands cut (`heronSteps_spec`). The 32 bits take one more
step (`third_spec`), the 64 bits also one Newton step for the reciprocal and a last one of the rule (`fourth_spec`).

What comes out is near enough for the subtraction of a half, the cut and one comparison to find the floor of the exact
root: `fp16Root_spec`, `fp32Root_spec` and `fp64Root_spec`. None of the divisors is zero.
-/

import Emas.Gem5.Fp128
import Emas.Gem5.FplibOps
import Emas.Lib.Heron
import Mathlib.Analysis.Real.Sqrt

namespace Emas.Gem5.Fplib

/-! ### Two steps of Heron's rule -/

theorem heronStep_eq {n x h : ℕ} (upper : x / 2 ^ 15 = h) (positive : 0 < h) (fits : n / h + h / 2 < 2 ^ 17) :
    heronStep n x = some (2 ^ 15 * (n / h + h / 2)) := by
  have half : x >>> 16 = h / 2 := by
    rw [Nat.shiftRight_eq_div_pow, ← upper]
    omega
  have word : (n / h + h / 2) % 2 ^ 32 = n / h + h / 2 := Nat.mod_eq_of_lt (by omega)
  have divisor : x >>> 15 = h := by rw [Nat.shiftRight_eq_div_pow, upper]
  rw [heronStep, divisor, half, divide, if_neg positive.ne', Option.map_some, word, shl_eq (by omega), mul_comm]

section Steps

variable {t a : ℝ} (root : t ^ 2 = 2 * a) (nonneg : 0 ≤ t) (low : 2 ^ 30 ≤ a) (high : a < 2 ^ 32)

include root nonneg low high

theorem root_bounds : 46340 ≤ t ∧ t ≤ 92682 := by
  constructor
  · refine le_of_sq_le_sq ?_ nonneg
    rw [root]
    linarith
  · refine le_of_sq_le_sq ?_ (by norm_num)
    rw [root]
    linarith

theorem guess_bounds : t - 2731 ≤ (3 * a / 8 + 5 * 2 ^ 28) / 2 ^ 15 ∧
    (3 * a / 8 + 5 * 2 ^ 28) / 2 ^ 15 ≤ t + 6908 ∧ 53248 ≤ (3 * a / 8 + 5 * 2 ^ 28) / 2 ^ 15 := by
  obtain ⟨least, greatest⟩ := root_bounds root nonneg low high
  have square : a = t ^ 2 / 2 := by linarith
  refine ⟨?_, ?_, by linarith⟩
  · have lowest : 0 ≤ (3 * t - 4 * 2 ^ 16) ^ 2 := sq_nonneg _
    rw [square]
    linarith
  · have chord : 0 ≤ (t - 46340) * (92682 - t) := mul_nonneg (by linarith) (by linarith)
    rw [square]
    linarith

/-- **Two steps** give sixteen bits of the root. -/
theorem heronSteps_spec {n x : ℕ} (floor : n ≤ a) (floor' : a < n + 1) (above : 3 * a / 8 + 5 * 2 ^ 28 - 2 ≤ x)
    (below : x ≤ 3 * a / 8 + 5 * 2 ^ 28) : ∃ x' h : ℕ, heronStep n x = some x' ∧ heronStep n x' = some (2 ^ 15 * h) ∧
      t - 3 / 2 < h ∧ h ≤ t + 2.18 ∧ h < 2 ^ 17 := by
  obtain ⟨least, greatest⟩ := root_bounds root nonneg low high
  obtain ⟨guess, guess', guess''⟩ := guess_bounds root nonneg low high
  -- the guess, cut to 17 bits
  obtain ⟨h₀, is₀⟩ : ∃ h, x / 2 ^ 15 = h := ⟨_, rfl⟩
  have cut : ((2 ^ 15 * h₀ : ℕ) : ℝ) ≤ x ∧ (x : ℝ) < ((2 ^ 15 * h₀ + 2 ^ 15 : ℕ) : ℝ) :=
    ⟨Nat.cast_le.mpr (by omega), Nat.cast_lt.mpr (by omega)⟩
  push_cast at cut
  have near₀ : t - 6908 ≤ h₀ ∧ (h₀ : ℝ) ≤ t + 6908 ∧ 53246 ≤ (h₀ : ℝ) := by
    refine ⟨?_, ?_, ?_⟩ <;> linarith [cut.1, cut.2]
  obtain ⟨near₀, near₀', least₀⟩ := near₀
  have positive₀ : 0 < h₀ := by
    have : (0 : ℝ) < h₀ := by linarith
    exact_mod_cast this
  -- the first step
  obtain ⟨after₁, before₁⟩ := heron_floor floor floor' root positive₀
  have error₁ := heron_le near₀ near₀' (by norm_num) least₀
  obtain ⟨h₁, is₁⟩ : ∃ h, n / h₀ + h₀ / 2 = h := ⟨_, rfl⟩
  rw [is₁] at after₁ before₁
  have near₁ : (h₁ : ℝ) ≤ t + 449 := by
    have : (6908 : ℝ) ^ 2 / (2 * 53246) ≤ 449 := by norm_num
    linarith
  have positive₁ : 0 < h₁ := by
    have : (0 : ℝ) < h₁ := by linarith
    exact_mod_cast this
  have small₁ : h₁ < 2 ^ 17 := by
    have : (h₁ : ℝ) < 2 ^ 17 := by linarith
    exact_mod_cast this
  -- the second step
  obtain ⟨after₂, before₂⟩ := heron_floor floor floor' root positive₁
  have error₂ : (h₁ - t) ^ 2 / (2 * h₁) ≤ 449 ^ 2 / (2 * 46338) :=
    heron_le (by linarith) near₁ (by norm_num) (by linarith)
  obtain ⟨h₂, is₂⟩ : ∃ h, n / h₁ + h₁ / 2 = h := ⟨_, rfl⟩
  rw [is₂] at after₂ before₂
  have near₂ : (h₂ : ℝ) ≤ t + 2.18 := by
    have : (449 : ℝ) ^ 2 / (2 * 46338) ≤ 2.18 := by norm_num
    linarith
  have small₂ : h₂ < 2 ^ 17 := by
    have : (h₂ : ℝ) < 2 ^ 17 := by linarith
    exact_mod_cast this
  refine ⟨2 ^ 15 * h₁, h₂, ?_, ?_, after₂, near₂, small₂⟩
  · rw [heronStep_eq is₀ positive₀ (by omega), is₁]
  · rw [heronStep_eq (by omega) positive₁ (by omega), is₂]

/-- **The third step** divides a word of 64 bits, and is off by less than two. -/
theorem third_spec {n h : ℕ} (number : n = 2 ^ 32 * a) (above : t - 3 / 2 < h) (below : h ≤ t + 2.18) :
    2 ^ 15 * t - 1 < ((n / (2 ^ 15 * h) / 4 + 2 ^ 15 * h / 2 : ℕ) : ℝ) ∧
      ((n / (2 ^ 15 * h) / 4 + 2 ^ 15 * h / 2 : ℕ) : ℝ) ≤ 2 ^ 15 * t + 1.69 := by
  obtain ⟨least, greatest⟩ := root_bounds root nonneg low high
  have positive : (0 : ℝ) < h := by linarith
  have positiveN : 0 < h := by exact_mod_cast positive
  have cut : n / (2 ^ 15 * h) / 4 = n / (2 ^ 17 * h) := by
    rw [Nat.div_div_eq_div_mul]
    congr 1
    ring
  have half : 2 ^ 15 * h / 2 = 2 ^ 14 * h := by omega
  obtain ⟨floor, floor'⟩ := @floor_div ℝ _ _ _ n n (2 ^ 17 * h) le_rfl (by linarith) (by positivity)
  have quotient : (n : ℝ) / ((2 ^ 17 * h : ℕ) : ℝ) = 2 ^ 15 * (a / h) := by
    rw [number]
    push_cast
    field_simp
    ring
  rw [quotient] at floor floor'
  have error : (h - t) ^ 2 / (2 * h) ≤ 2.18 ^ 2 / (2 * 46338) :=
    heron_le (by linarith) below (by norm_num) (by linarith)
  have bound : (2 : ℝ) ^ 15 * (2.18 ^ 2 / (2 * 46338)) ≤ 1.69 := by norm_num
  have step := heron_eq (s := t) positive
  have value : (t ^ 2 / h + h) / 2 = a / h + (h : ℝ) / 2 := by
    rw [root]
    ring
  have least' : 0 ≤ (h - t) ^ 2 / (2 * h) := by positivity
  rw [value] at step
  rw [cut, half]
  push_cast at floor floor' ⊢
  constructor <;> linarith

end Steps

/-! ### The roots of 16 and 32 bits -/

theorem exists_root (a : ℝ) (nonneg : 0 ≤ a) : ∃ t : ℝ, 0 ≤ t ∧ t ^ 2 = 2 * a :=
  ⟨√(2 * a), Real.sqrt_nonneg _, Real.sq_sqrt (by linarith)⟩

theorem fp16Root_spec {a : ℕ} (low : 2 ^ 14 ≤ a) (high : a < 2 ^ 16) : fp16Root a
    = some (Nat.sqrt (a * 2 ^ 9), decide (Nat.sqrt (a * 2 ^ 9) * Nat.sqrt (a * 2 ^ 9) ≠ a * 2 ^ 9)) := by
  obtain ⟨t, nonneg, root⟩ := exists_root ((a * 2 ^ 16 : ℕ) : ℝ) (Nat.cast_nonneg _)
  have lowR : (2 : ℝ) ^ 30 ≤ ((a * 2 ^ 16 : ℕ) : ℝ) := by exact_mod_cast (show 2 ^ 30 ≤ a * 2 ^ 16 by omega)
  have highR : ((a * 2 ^ 16 : ℕ) : ℝ) < 2 ^ 32 := by exact_mod_cast (show a * 2 ^ 16 < 2 ^ 32 by omega)
  have guess : (shl 32 a 14 + shl 32 a 13 + shl 32 5 28) % 2 ^ 32 = 3 * (a * 2 ^ 13) + 5 * 2 ^ 28 := by
    rw [shl_eq (by omega), shl_eq (by omega), shl_eq (by norm_num), Nat.mod_eq_of_lt (by omega)]
    omega
  have guessR : ((3 * (a * 2 ^ 13) + 5 * 2 ^ 28 : ℕ) : ℝ) = 3 * ((a * 2 ^ 16 : ℕ) : ℝ) / 8 + 5 * 2 ^ 28 := by
    push_cast
    ring
  obtain ⟨x, h, first, second, above, below, small⟩ := heronSteps_spec root nonneg lowR highR
    (n := a * 2 ^ 16) (x := 3 * (a * 2 ^ 13) + 5 * 2 ^ 28) le_rfl (by linarith) (by linarith) (by linarith)
  obtain ⟨least, -⟩ := root_bounds root nonneg lowR highR
  have large : 8 ≤ h := by
    have : (8 : ℝ) ≤ h := by linarith
    exact_mod_cast this
  have halved : (sub 32 (2 ^ 15 * h) (1 <<< 18) >>> 19 + 1) % 2 ^ 16 = (h - 8) / 16 + 1 := by
    have power : 1 <<< 18 = 2 ^ 18 := rfl
    rw [power, sub_eq (by omega) (by omega), Nat.shiftRight_eq_div_pow, Nat.mod_eq_of_lt (by omega)]
    omega
  obtain ⟨corrected, exact⟩ := @sqrt_of_near ℝ _ _ _ t h 8 16 (a * 2 ^ 9) _ rfl (by norm_num) large nonneg
    (by rw [root]; push_cast; ring) (by push_cast; linarith) (by push_cast; linarith) rfl
  have bounded : (h - 8) / 16 + 1 < 2 ^ 14 := by omega
  have square : ((h - 8) / 16 + 1) * ((h - 8) / 16 + 1) % 2 ^ 32 = ((h - 8) / 16 + 1) * ((h - 8) / 16 + 1) := by
    have := Nat.mul_le_mul bounded.le bounded.le
    exact Nat.mod_eq_of_lt (by omega)
  have less : sub 16 ((h - 8) / 16 + 1) 1 = (h - 8) / 16 + 1 - 1 := sub_eq (by omega) (by omega)
  have shifted : shl 32 a 16 = a * 2 ^ 16 := shl_eq (by omega)
  have shifted' : shl 32 a 9 = a * 2 ^ 9 := shl_eq (by omega)
  simp only [fp16Root, guess, shifted, shifted', first, second, Option.bind_eq_bind,
    Option.bind_some, halved, square, less, corrected, ne_eq]
  rw [← decide_eq_decide.mpr exact]

theorem fp32Root_spec {a : ℕ} (low : 2 ^ 30 ≤ a) (high : a < 2 ^ 32) : fp32Root a
    = some (Nat.sqrt (a * 2 ^ 19), decide (Nat.sqrt (a * 2 ^ 19) * Nat.sqrt (a * 2 ^ 19) ≠ a * 2 ^ 19)) := by
  obtain ⟨t, nonneg, root⟩ := exists_root (a : ℝ) (Nat.cast_nonneg _)
  have lowR : (2 : ℝ) ^ 30 ≤ a := by exact_mod_cast low
  have highR : (a : ℝ) < 2 ^ 32 := by exact_mod_cast high
  obtain ⟨least, greatest⟩ := root_bounds root nonneg lowR highR
  obtain ⟨g, is⟩ : ∃ g, a / 4 + a / 8 + 5 * 2 ^ 28 = g := ⟨_, rfl⟩
  have guess : (a >>> 2 + a >>> 3 + shl 32 5 28) % 2 ^ 32 = g := by
    rw [shl_eq (by norm_num), Nat.shiftRight_eq_div_pow, Nat.shiftRight_eq_div_pow, Nat.mod_eq_of_lt (by omega)]
    exact is
  have guessR : ((8 * g : ℕ) : ℝ) ≤ ((3 * a + 40 * 2 ^ 28 : ℕ) : ℝ) := by exact_mod_cast (by omega)
  have guessR' : ((3 * a + 40 * 2 ^ 28 : ℕ) : ℝ) ≤ ((8 * g + 16 : ℕ) : ℝ) := by exact_mod_cast (by omega)
  push_cast at guessR guessR'
  obtain ⟨x, h, first, second, above, below, small⟩ := @heronSteps_spec t a root nonneg lowR highR a g le_rfl
    (by linarith) (by linarith) (by linarith)
  have nonzero : ¬2 ^ 15 * h = 0 := by
    have : (0 : ℝ) < h := by linarith
    have : 0 < h := by exact_mod_cast this
    omega
  obtain ⟨above', below'⟩ := @third_spec t a root nonneg lowR highR (a * 2 ^ 32) h (by push_cast; ring) above below
  have dividend : shl 64 a 32 = a * 2 ^ 32 := shl_eq (by omega)
  obtain ⟨x', is⟩ : ∃ x', a * 2 ^ 32 / (2 ^ 15 * h) / 4 + 2 ^ 15 * h / 2 = x' := ⟨_, rfl⟩
  rw [is] at above' below'
  have word : x' < 2 ^ 32 := by
    have : (x' : ℝ) < 2 ^ 32 := by linarith
    exact_mod_cast this
  have large : 2 ^ 10 ≤ x' := by
    have : (2 : ℝ) ^ 10 ≤ x' := by linarith
    exact_mod_cast this
  have third : ((a * 2 ^ 32 / (2 ^ 15 * h)) >>> 2 + (2 ^ 15 * h) >>> 1) % 2 ^ 32 = x' := by
    rw [Nat.shiftRight_eq_div_pow, Nat.shiftRight_eq_div_pow, pow_one]
    exact is.symm ▸ Nat.mod_eq_of_lt word
  have halved : (sub 32 x' (1 <<< 5) >>> 6 + 1) % 2 ^ 32 = (x' - 32) / 64 + 1 := by
    have power : 1 <<< 5 = 32 := rfl
    rw [power, sub_eq (by omega) (by omega), Nat.shiftRight_eq_div_pow, Nat.mod_eq_of_lt (by omega)]
  obtain ⟨corrected, exact⟩ := @sqrt_of_near ℝ _ _ _ (2 ^ 15 * t) x' 32 64 (a * 2 ^ 19) _ rfl (by norm_num)
    (le_trans (by norm_num) large) (by linarith) (by rw [mul_pow, root]; push_cast; ring) (by push_cast; linarith)
    (by push_cast; linarith) rfl
  have bounded : (x' - 32) / 64 + 1 ≤ 2 ^ 26 := by omega
  have square : ((x' - 32) / 64 + 1) * ((x' - 32) / 64 + 1) % 2 ^ 64 = ((x' - 32) / 64 + 1) * ((x' - 32) / 64 + 1) := by
    have := Nat.mul_le_mul bounded bounded
    exact Nat.mod_eq_of_lt (by omega)
  have less : sub 32 ((x' - 32) / 64 + 1) 1 = (x' - 32) / 64 + 1 - 1 := sub_eq (by omega) (by omega)
  have shifted : shl 64 a 19 = a * 2 ^ 19 := shl_eq (by omega)
  simp only [fp32Root, guess, dividend, shifted, first, second, divide, if_neg nonzero, Option.bind_eq_bind,
    Option.bind_some, third, halved, square, less, corrected, ne_eq]
  rw [← decide_eq_decide.mpr exact]

/-! ### The root of 64 bits -/

theorem reciprocalStep_spec {x r : ℕ} (low : 2 ^ 30 < x) (high : x < 2 ^ 32) (is : r = 2 ^ 62 / x) :
    ∃ R, (lsr128 (mul64x32 (shl 64 (sub 64 0 x * r % 2 ^ 64) 1) r) 31).x0 = R ∧
      R * x ≤ 2 ^ 94 ∧ 2 ^ 94 < (R + 5) * x := by
  have below : x * r ≤ 2 ^ 62 := is ▸ Nat.mul_div_le (2 ^ 62) x
  have above : 2 ^ 62 < x * r + x := by
    have := Nat.lt_mul_div_succ (2 ^ 62) (show 0 < x by omega)
    rwa [← is, Nat.mul_add, Nat.mul_one] at this
  have positive : 0 < r := Nat.pos_of_ne_zero fun zero => by
    rw [zero] at above
    omega
  have small : r < 2 ^ 32 := by
    by_contra large
    have := Nat.mul_le_mul (Nat.succ_le_of_lt low) (not_lt.mp large)
    omega
  -- the word of the code is `2 - x * r` with 63 digits behind the point
  have negated : sub 64 0 x * r % 2 ^ 64 = 2 ^ 64 - x * r := by
    have word : sub 64 0 x = 2 ^ 64 - x := by
      rw [sub, Nat.zero_add, Nat.mod_eq_of_lt (by omega)]
    obtain ⟨pred, rfl⟩ : ∃ pred, r = pred + 1 := ⟨r - 1, by omega⟩
    have product : (2 ^ 64 - x) * (pred + 1) = 2 ^ 64 - x * (pred + 1) + 2 ^ 64 * pred := by
      rw [Nat.sub_mul]
      omega
    rw [word, product, Nat.add_mul_mod_self_left, Nat.mod_eq_of_lt (by omega)]
  have doubled : shl 64 (2 ^ 64 - x * r) 1 = 2 ^ 64 - 2 * (x * r) := by
    rw [shl, Nat.shiftLeft_eq, Nat.mod_eq_sub_mod (by omega), Nat.mod_eq_of_lt (by omega)]
    omega
  have word : 2 ^ 64 - 2 * (x * r) < 2 ^ 64 := by omega
  obtain ⟨valid, product⟩ := mul64x32_spec word small
  obtain ⟨valid, shifted⟩ := lsr128_spec valid 31
  obtain ⟨R, hR⟩ : ∃ R, R = (2 ^ 64 - 2 * (x * r)) * r / 2 ^ 31 := ⟨_, rfl⟩
  rw [product, ← hR] at shifted
  have upper : 2 ^ 31 * R ≤ (2 ^ 64 - 2 * (x * r)) * r := hR ▸ Nat.mul_div_le _ _
  have lower : (2 ^ 64 - 2 * (x * r)) * r < 2 ^ 31 * R + 2 ^ 31 := by omega
  -- what the reciprocal lacks is squared
  obtain ⟨d, hd⟩ : ∃ d, 2 ^ 62 = x * r + d := Nat.exists_eq_add_of_le below
  have rest : d < x := by omega
  have expand : (2 ^ 64 - 2 * (x * r)) * r * x + 2 * (d * d) = 2 ^ 125 := by
    have first : 2 ^ 64 - 2 * (x * r) = 2 ^ 63 + 2 * d := by omega
    have second : x * r = 2 ^ 62 - d := by omega
    rw [first, mul_assoc, mul_comm r x, second]
    zify [show d ≤ 2 ^ 62 by omega]
    ring
  have square : d * d ≤ x * 2 ^ 32 := Nat.mul_le_mul rest.le (by omega)
  have upper' := Nat.mul_le_mul_right x upper
  have lower' := Nat.mul_lt_mul_of_pos_right lower (show 0 < x by omega)
  have scaled : 2 ^ 31 * R * x = 2 ^ 31 * (R * x) := by ring
  have scaled' : (2 ^ 31 * R + 2 ^ 31) * x = 2 ^ 31 * (R * x) + 2 ^ 31 * x := by ring
  have least : R * x ≤ 2 ^ 94 := by omega
  have fits : R < 2 ^ 64 := by
    by_contra large
    have := Nat.mul_le_mul (not_lt.mp large) low
    omega
  refine ⟨R, ?_, least, ?_⟩
  · rw [negated, doubled, ← Wide.toNat_low valid, shifted, Nat.mod_eq_of_lt fits]
  · rw [Nat.add_mul]
    omega

/-- **The last step** uses the reciprocal, and is off by less than ten. -/
theorem fourth_spec {s : ℝ} {a x R : ℕ} (root : s ^ 2 = a / 2) (least : 2 ^ 30 ≤ s) (digits : 2 ^ 10 ∣ a)
    (high : a < 2 ^ 64) (above : s - 1 < x) (below : x ≤ s + 1.69) (upper : R * x ≤ 2 ^ 94)
    (lower : 2 ^ 94 < (R + 5) * x) :
    2 ^ 32 * s - 10 < ((2 ^ 31 * x + a / 2 ^ 10 * (R / 4) / 2 ^ 52 : ℕ) : ℝ) ∧
      ((2 ^ 31 * x + a / 2 ^ 10 * (R / 4) / 2 ^ 52 : ℕ) : ℝ) ≤ 2 ^ 32 * s + 6 := by
  obtain ⟨m, rfl⟩ := digits
  have cut : 2 ^ 10 * m / 2 ^ 10 = m := Nat.mul_div_cancel_left m (Nat.two_pow_pos 10)
  have short : (m : ℝ) ≤ 2 ^ 54 := by exact_mod_cast (show m ≤ 2 ^ 54 by omega)
  have positive : (0 : ℝ) < x := by linarith
  have step := heron_eq (s := s) positive
  have error : (x - s) ^ 2 / (2 * x) ≤ 1.69 ^ 2 / (2 * (2 ^ 30 - 1)) :=
    heron_le (by linarith) below (by norm_num) (by linarith)
  have bound : (2 : ℝ) ^ 32 * (1.69 ^ 2 / (2 * (2 ^ 30 - 1))) ≤ 5.8 := by norm_num
  have nonneg : 0 ≤ (x - s) ^ 2 / (2 * x) := by positivity
  -- the reciprocal and its cut
  obtain ⟨q, hq⟩ : ∃ q, R / 4 = q := ⟨_, rfl⟩
  have quarter : ((4 * q : ℕ) : ℝ) ≤ R ∧ (R : ℝ) ≤ ((4 * q + 3 : ℕ) : ℝ) :=
    ⟨Nat.cast_le.mpr (by omega), Nat.cast_le.mpr (by omega)⟩
  have reciprocal : (R : ℝ) ≤ 2 ^ 94 / x := by
    rw [le_div_iff₀ positive]
    exact_mod_cast upper
  have reciprocal' : 2 ^ 94 / (x : ℝ) < R + 5 := by
    rw [div_lt_iff₀ positive]
    exact_mod_cast lower
  push_cast at quarter
  obtain ⟨under, near⟩ := quarter
  have product : (m : ℝ) * q ≤ m * (2 ^ 94 / x / 4) := mul_le_mul_of_nonneg_left (by linarith) (Nat.cast_nonneg m)
  have product' : (m : ℝ) * (2 ^ 94 / x / 4 - 2.25) ≤ m * q :=
    mul_le_mul_of_nonneg_left (by linarith) (Nat.cast_nonneg m)
  obtain ⟨floor, floor'⟩ := @floor_div ℝ _ _ _ ((m * q : ℕ) : ℝ) (m * q) (2 ^ 52) le_rfl (by linarith) (by positivity)
  have exact : (m : ℝ) * (2 ^ 94 / x / 4) / 2 ^ 52 = 2 ^ 31 * (s ^ 2 / x) := by
    rw [root]
    push_cast
    field_simp
    ring
  have exact' : 2 ^ 32 * ((s ^ 2 / x + x) / 2) = 2 ^ 31 * (s ^ 2 / x) + 2 ^ 31 * (x : ℝ) := by ring
  rw [step] at exact'
  rw [cut, hq]
  push_cast at floor floor' ⊢
  constructor <;> linarith

theorem lastStep_word {a x R : ℕ} (high : a < 2 ^ 64) (low : 2 ^ 30 < x) (near : a ≤ 2 * ((x + 1) * (x + 1)))
    (short : x + 3 < 2 ^ 32) (upper : R * x ≤ 2 ^ 94) (fits : 2 ^ 31 * x + a / 2 ^ 10 * (R / 4) / 2 ^ 52 < 2 ^ 64) :
    (shl 64 x 31 + (lsr128 (lsl128 (mul62x62 (a >>> 10) (R >>> 2)) 5) 56).x0 >>> 1) % 2 ^ 64
      = 2 ^ 31 * x + a / 2 ^ 10 * (R / 4) / 2 ^ 52 := by
  have word : R < 2 ^ 64 := by
    by_contra large
    have := Nat.mul_le_mul (not_lt.mp large) low
    omega
  obtain ⟨valid, product⟩ := mul62x62_spec (show a / 2 ^ 10 < 2 ^ 62 by omega) (show R / 2 ^ 2 < 2 ^ 62 by omega)
  obtain ⟨valid, shifted⟩ := lsl128_spec valid 5
  obtain ⟨valid, shifted'⟩ := lsr128_spec valid 56
  obtain ⟨m, hm⟩ : ∃ m, a / 2 ^ 10 = m := ⟨_, rfl⟩
  obtain ⟨q, hq⟩ : ∃ q, R / 2 ^ 2 = q := ⟨_, rfl⟩
  have quarter : R / 4 = q := hq
  have cut : a >>> 10 = m := by rw [Nat.shiftRight_eq_div_pow, hm]
  have cut' : R >>> 2 = q := by rw [Nat.shiftRight_eq_div_pow, hq]
  rw [hm, hq] at product shifted shifted' valid
  rw [hm, quarter] at fits ⊢
  rw [cut, cut']
  have bound : m * q < 2 ^ 115 := by
    by_contra large
    have chain := Nat.mul_le_mul_right x (not_lt.mp large)
    have chain' : m * q * x ≤ m * 2 ^ 92 := by
      have : q * x ≤ 2 ^ 92 := by
        have := Nat.mul_le_mul_right x (show 4 * q ≤ R by omega)
        rw [mul_assoc] at this
        omega
      rw [mul_assoc]
      exact Nat.mul_le_mul_left m this
    have square : 2 * ((x + 1) * (x + 1)) < 2 ^ 33 * x := by
      have := Nat.mul_le_mul_left x (show x + 4 ≤ 2 ^ 32 by omega)
      nlinarith
    omega
  have whole : m * q * 2 ^ 5 % 2 ^ 128 / 2 ^ 56 = m * q / 2 ^ 51 := by
    rw [Nat.mod_eq_of_lt (by omega)]
    omega
  rw [shifted, product, whole] at shifted'
  have low' : (lsr128 (lsl128 (mul62x62 m q) 5) 56).x0 = m * q / 2 ^ 51 := by
    rw [← Wide.toNat_low valid, shifted', Nat.mod_eq_of_lt (by omega)]
  have top : shl 64 x 31 = 2 ^ 31 * x := by
    rw [shl_eq (by omega), mul_comm]
  have half : (m * q / 2 ^ 51) >>> 1 = m * q / 2 ^ 52 := by
    rw [Nat.shiftRight_eq_div_pow]
    omega
  rw [low', top, half, Nat.mod_eq_of_lt fits]

theorem compare_square {a m : ℕ} (high : a < 2 ^ 64) (small : m < 2 ^ 62) (square : m * m < 2 ^ 109) :
    (cmp128 (lsl128 (mul62x62 m m) 19) ⟨0, a⟩ > 0 ↔ m * m > a * 2 ^ 45) ∧
      (cmp128 (lsl128 (mul62x62 m m) 19) ⟨0, a⟩ ≠ 0 ↔ m * m ≠ a * 2 ^ 45) := by
  obtain ⟨valid, product⟩ := mul62x62_spec small small
  obtain ⟨valid, shifted⟩ := lsl128_spec valid 19
  have radicand : (⟨0, a⟩ : Wide).Valid := ⟨Nat.two_pow_pos 64, high⟩
  have number : (⟨0, a⟩ : Wide).toNat = 2 ^ 64 * a := by
    rw [Wide.toNat]
    rfl
  rw [product, Nat.mod_eq_of_lt (by omega)] at shifted
  obtain ⟨le, -⟩ := cmp128_spec valid radicand
  have eq := cmp128_eq_zero valid radicand
  rw [shifted, number] at le eq
  constructor <;> omega

theorem fp64Root_spec {a : ℕ} (low : 2 ^ 62 ≤ a) (high : a < 2 ^ 64) (digits : 2 ^ 10 ∣ a) : fp64Root a
    = some (Nat.sqrt (a * 2 ^ 45), decide (Nat.sqrt (a * 2 ^ 45) * Nat.sqrt (a * 2 ^ 45) ≠ a * 2 ^ 45)) := by
  obtain ⟨t, nonneg, root⟩ := exists_root ((a : ℝ) / 2 ^ 32) (by positivity)
  have lowN : ((2 ^ 62 : ℕ) : ℝ) ≤ a := Nat.cast_le.mpr low
  have highN : (a : ℝ) < ((2 ^ 64 : ℕ) : ℝ) := Nat.cast_lt.mpr high
  push_cast at lowN highN
  have lowR : (2 : ℝ) ^ 30 ≤ (a : ℝ) / 2 ^ 32 := by linarith
  have highR : (a : ℝ) / 2 ^ 32 < 2 ^ 32 := by linarith
  obtain ⟨least, greatest⟩ := root_bounds root nonneg lowR highR
  obtain ⟨g, is⟩ : ∃ g, a / 2 ^ 34 + a / 2 ^ 35 + 5 * 2 ^ 28 = g := ⟨_, rfl⟩
  have guess : (a >>> 34 + a >>> 35 + shl 32 5 28) % 2 ^ 32 = g := by
    rw [shl_eq (by norm_num), Nat.shiftRight_eq_div_pow, Nat.shiftRight_eq_div_pow, Nat.mod_eq_of_lt (by omega)]
    exact is
  have guessR : ((2 ^ 35 * g : ℕ) : ℝ) ≤ ((3 * a + 5 * 2 ^ 63 : ℕ) : ℝ) := by exact_mod_cast (by omega)
  have guessR' : ((3 * a + 5 * 2 ^ 63 : ℕ) : ℝ) ≤ ((2 ^ 35 * g + 2 ^ 36 : ℕ) : ℝ) := by exact_mod_cast (by omega)
  push_cast at guessR guessR'
  obtain ⟨floor, floor'⟩ := @floor_div ℝ _ _ _ (a : ℝ) a (2 ^ 32) le_rfl (by linarith) (by positivity)
  have power : ((2 ^ 32 : ℕ) : ℝ) = 2 ^ 32 := by norm_num
  rw [power] at floor floor'
  obtain ⟨x, h, first, second, above, below, small⟩ := @heronSteps_spec t _ root nonneg lowR highR (a / 2 ^ 32) g
    floor floor' (by linarith) (by linarith)
  have nonzero : ¬2 ^ 15 * h = 0 := by
    have : (0 : ℝ) < h := by linarith
    have : 0 < h := by exact_mod_cast this
    omega
  -- the third step
  obtain ⟨above', below'⟩ := @third_spec t _ root nonneg lowR highR a h (by ring) above below
  obtain ⟨x', is'⟩ : ∃ x', a / (2 ^ 15 * h) / 4 + 2 ^ 15 * h / 2 = x' := ⟨_, rfl⟩
  rw [is'] at above' below'
  have word : x' + 3 < 2 ^ 32 := by
    have : ((x' + 3 : ℕ) : ℝ) < 2 ^ 32 := by push_cast; linarith
    exact_mod_cast this
  have large : 2 ^ 30 < x' := by
    have : (2 : ℝ) ^ 30 < x' := by linarith
    exact_mod_cast this
  have third : ((a / (2 ^ 15 * h)) >>> 2 + (2 ^ 15 * h) >>> 1) % 2 ^ 32 = x' := by
    rw [Nat.shiftRight_eq_div_pow, Nat.shiftRight_eq_div_pow, pow_one]
    exact is'.symm ▸ Nat.mod_eq_of_lt (by omega)
  have divisor : ¬x' = 0 := by omega
  -- the reciprocal and the last step
  obtain ⟨R, reciprocal, upper, lower⟩ := reciprocalStep_spec large (by omega) rfl
  have rootR : (2 ^ 15 * t) ^ 2 = (a : ℝ) / 2 := by
    rw [mul_pow, root]
    ring
  obtain ⟨after, before⟩ := fourth_spec rootR (by linarith) digits high above' below' upper lower
  obtain ⟨y, hy⟩ : ∃ y, 2 ^ 31 * x' + a / 2 ^ 10 * (R / 4) / 2 ^ 52 = y := ⟨_, rfl⟩
  rw [hy] at after before
  have wordY : y < 2 ^ 64 := by
    have : (y : ℝ) < 2 ^ 64 := by linarith
    exact_mod_cast this
  have largeY : 2 ^ 10 ≤ y := by
    have : (2 : ℝ) ^ 10 ≤ y := by linarith
    exact_mod_cast this
  have near : a ≤ 2 * ((x' + 1) * (x' + 1)) := by
    have : (a : ℝ) ≤ ((2 * ((x' + 1) * (x' + 1)) : ℕ) : ℝ) := by
      have square : (2 ^ 15 * t) ^ 2 ≤ ((x' : ℝ) + 1) ^ 2 := pow_le_pow_left₀ (by linarith) (by linarith) 2
      push_cast
      linarith
    exact_mod_cast this
  have fourth := lastStep_word high large near word upper (hy.symm ▸ wordY)
  rw [hy] at fourth
  have halved : (sub 64 y (1 <<< 8) >>> 9 + 1) % 2 ^ 64 = (y - 256) / 512 + 1 := by
    have power : 1 <<< 8 = 256 := rfl
    rw [power, sub_eq (by omega) (by omega), Nat.shiftRight_eq_div_pow, Nat.mod_eq_of_lt (by omega)]
  obtain ⟨corrected, exact⟩ := @sqrt_of_near ℝ _ _ _ (2 ^ 32 * (2 ^ 15 * t)) y 256 512 (a * 2 ^ 45) _ rfl (by norm_num)
    (le_trans (by norm_num) largeY) (by linarith) (by rw [mul_pow, rootR]; push_cast; ring) (by push_cast; linarith)
    (by push_cast; linarith) rfl
  have bounded : ((y - 256) / 512 + 1) * ((y - 256) / 512 + 1) < 2 ^ 109 := by
    have above : 512 * ((y - 256) / 512 + 1) ≤ y + 256 := by omega
    have scaled : ((512 * ((y - 256) / 512 + 1) : ℕ) : ℝ) ≤ 2 ^ 32 * (2 ^ 15 * t) + 262 := by
      refine le_trans (Nat.cast_le.mpr above) ?_
      push_cast
      linarith
    have square : ((512 * ((y - 256) / 512 + 1) : ℕ) : ℝ) ^ 2 ≤ (2 ^ 32 * (2 ^ 15 * t) + 262) ^ 2 :=
      pow_le_pow_left₀ (Nat.cast_nonneg _) scaled 2
    have expand : (2 ^ 32 * (2 ^ 15 * t) + 262) ^ 2
        = 2 ^ 64 * ((a : ℝ) / 2) + 524 * (2 ^ 32 * (2 ^ 15 * t)) + 262 ^ 2 := by
      rw [← rootR]
      ring
    have room : ((a + 2 ^ 10 : ℕ) : ℝ) ≤ ((2 ^ 64 : ℕ) : ℝ) := Nat.cast_le.mpr (by omega)
    push_cast at room
    have total : ((512 * ((y - 256) / 512 + 1) : ℕ) : ℝ) ^ 2 < ((2 ^ 127 : ℕ) : ℝ) := by
      rw [expand] at square
      push_cast at square ⊢
      linarith
    have total' : (512 * ((y - 256) / 512 + 1)) ^ 2 < 2 ^ 127 := by exact_mod_cast total
    have split : (512 * ((y - 256) / 512 + 1)) ^ 2 = 2 ^ 18 * (((y - 256) / 512 + 1) * ((y - 256) / 512 + 1)) := by ring
    omega
  have smallM : (y - 256) / 512 + 1 < 2 ^ 62 := by omega
  obtain ⟨greater, differs⟩ := compare_square high smallM bounded
  have less : sub 64 ((y - 256) / 512 + 1) 1 = (y - 256) / 512 + 1 - 1 := sub_eq (by omega) (by omega)
  have top : a >>> 32 = a / 2 ^ 32 := Nat.shiftRight_eq_div_pow a 32
  have one : 1 <<< 62 = 2 ^ 62 := Nat.one_shiftLeft 62
  simp only [fp64Root, guess, top, first, second, divide, if_neg nonzero, if_neg divisor, Option.bind_eq_bind,
    Option.bind_some, third, one, reciprocal, fourth, halved, greater, differs, less, corrected]
  rw [← decide_eq_decide.mpr exact]

/-! ### The results -/

variable {v : ℝ}

section Results

variable {fmt : FPFormat} {mode flags : ℕ}

theorem sqrt_scaled {n : ℕ} {e : ℤ} (value : v = n * 2 ^ (2 * e)) : √v = √(n : ℝ) * 2 ^ e := by
  have power : (2 : ℝ) ^ (2 * e) = (2 ^ e) ^ 2 := by
    rw [← zpow_natCast, ← zpow_mul, mul_comm]
    rfl
  rw [value, power, Real.sqrt_mul (Nat.cast_nonneg n), Real.sqrt_sq (zpow_nonneg two_pos.le e)]

theorem root_rounded (plain : fmt.Plain mode) {n : ℕ} {exp : ℤ}
    (value : v = n * 2 ^ (2 * (exp - fmt.expBias - (fmt.bits - 1 : ℕ)) : ℤ))
    (bottom : 2 ^ (fmt.bits - fmt.expBits) ≤ Nat.sqrt n) (word : Nat.sqrt n < 2 ^ fmt.bits) {p : Prop} [Decidable p]
    (inexact : p ↔ Nat.sqrt n * Nat.sqrt n ≠ n) : fmt.Rounded mode false √v flags
      (fmt.round false (fmt.normalise (Nat.sqrt n) exp).2
        (shl fmt.bits (fmt.normalise (Nat.sqrt n) exp).1 1 ||| flag p) mode flags) := by
  rw [sqrt_scaled value]
  have square : √(n : ℝ) = Nat.sqrt n ↔ (n : ℝ) = Nat.sqrt n * Nat.sqrt n := by
    rw [Real.sqrt_eq_iff_mul_self_eq (Nat.cast_nonneg n) (Nat.cast_nonneg _), eq_comm]
  have more : p ↔ √(n : ℝ) ≠ Nat.sqrt n := by
    rw [inexact, not_iff_not, square, eq_comm]
    norm_cast
  exact (FPFormat.round_single plain bottom word exp Real.nat_sqrt_le_real_sqrt Real.real_sqrt_lt_nat_sqrt_succ
    more).toRounded

theorem sqrtSpecial_finite {x : ℕ} {a : Unpacked} (operand : fmt.Operand x false v a) (nonzero : a.mnt ≠ 0) :
    fmt.sqrtSpecial x a mode flags = none := by
  have finite : ¬a.exp = fmt.expInf := operand.exp_lt.ne
  have number : fmt.isNaN a.exp a.mnt = false := by
    rw [FPFormat.isNaN, decide_eq_false fun both => finite both.1]
  rw [FPFormat.sqrtSpecial, number]
  simp only [Bool.false_eq_true, if_false, nonzero, finite, false_and, operand.sgn]

/-- The mantissa whose root is taken, halved where its exponent has a parity. -/
def sqrtMantissa (fmt : FPFormat) (parity : ℤ) (a : Unpacked) : ℕ × ℤ :=
  if (fmt.normalise a.mnt a.exp).2 % 2 = parity then
    ((fmt.normalise a.mnt a.exp).1 >>> 1, (fmt.normalise a.mnt a.exp).2 + 1)
  else fmt.normalise a.mnt a.exp

theorem sqrtMantissa_spec {x : ℕ} {neg : Bool} {a : Unpacked} (operand : fmt.Operand x neg v a)
    (nonzero : 0 < a.mnt) {parity : ℤ} (bit : parity = 0 ∨ parity = 1) {n : ℕ × ℤ} (is : n = sqrtMantissa fmt parity a) :
    2 ^ (fmt.bits - 2) ≤ n.1 ∧ n.1 < 2 ^ fmt.bits ∧ 2 ^ (fmt.expBits - 1) ∣ n.1 ∧ n.2 % 2 = 1 - parity ∧
      v = (n.1 * 2 ^ n.2 : ℝ) * 2 ^ (-fmt.expBias - fmt.mantBits : ℤ) := by
  obtain ⟨k, normalised, low, high⟩ := fmt.normalise_spec a.exp nonzero operand.word
  have digits := fmt.dvd_normalised operand.mnt_lt low
  have value : v = ((a.mnt * 2 ^ k : ℕ) * 2 ^ (a.exp - k) : ℝ) * 2 ^ (-fmt.expBias - fmt.mantBits : ℤ) := by
    have exponents : a.exp - fmt.expBias - fmt.mantBits = k + (a.exp - k) + (-fmt.expBias - fmt.mantBits) := by ring
    rw [operand.value, exponents, zpow_add₀ two_ne_zero, zpow_add₀ two_ne_zero, zpow_natCast]
    push_cast
    ring
  rw [sqrtMantissa, normalised] at is
  dsimp only at is
  generalize a.mnt * 2 ^ k = m at *
  generalize a.exp - k = e at *
  have split := fmt.bits_split
  have enough := fmt.exp_pos
  obtain ⟨width, hwidth⟩ : ∃ width, fmt.bits = width + 2 := ⟨fmt.bits - 2, by omega⟩
  obtain ⟨level, hlevel⟩ : ∃ level, fmt.expBits = level + 1 := ⟨fmt.expBits - 1, by omega⟩
  have pred : width + 2 - 1 = width + 1 := rfl
  rw [hwidth, pred, pow_succ'] at low
  rw [hwidth] at high
  rw [hlevel, pow_succ] at digits
  rw [hwidth, hlevel, Nat.add_sub_cancel, Nat.add_sub_cancel]
  split at is
  next odd =>
    obtain ⟨half, rfl⟩ := digits
    have shifted : (2 ^ level * 2 * half) >>> 1 = 2 ^ level * half := by
      rw [Nat.shiftRight_eq_div_pow, mul_right_comm, pow_one, Nat.mul_div_cancel _ two_pos]
    rw [shifted] at is
    rw [mul_right_comm] at low high
    subst is
    refine ⟨by dsimp only; omega, by dsimp only; omega, Dvd.intro half rfl, by dsimp only; omega, ?_⟩
    rw [value, zpow_add_one₀ two_ne_zero]
    push_cast
    ring
  next even =>
    subst is
    exact ⟨by dsimp only; omega, high, dvd_trans (Dvd.intro 2 rfl) digits, by dsimp only; omega, value⟩

variable {x : ℕ} {v : ℝ} {a : Unpacked}

theorem sqrt_within {n l h : ℕ} (low : 2 ^ l * 2 ^ l ≤ n) (high : n < 2 ^ h * 2 ^ h) :
    2 ^ l ≤ Nat.sqrt n ∧ Nat.sqrt n < 2 ^ h := ⟨Nat.le_sqrt.mpr low, Nat.sqrt_lt.mpr high⟩

theorem radicand_eq {m k : ℕ} {e c f : ℤ} (value : v = (m * 2 ^ e : ℝ) * 2 ^ c) (exponents : 2 * f = e + c - k) :
    v = ((m * 2 ^ k : ℕ) : ℝ) * 2 ^ (2 * f) := by
  rw [value, exponents, zpow_sub₀ two_ne_zero, zpow_add₀ two_ne_zero, zpow_natCast]
  push_cast
  field_simp

theorem fp16Sqrt_rounded (plain : FP16.Plain mode) (unpacked : FP16.unpack x mode flags = (a, flags))
    (operand : FP16.Operand x false v a) (nonzero : 0 < a.mnt) :
    ∃ result, fp16Sqrt x mode flags = some result ∧ FP16.Rounded mode false √v flags result := by
  obtain ⟨n, hn⟩ : ∃ n, n = sqrtMantissa FP16 1 a := ⟨_, rfl⟩
  obtain ⟨low, high, digits, parity, value⟩ := sqrtMantissa_spec operand nonzero (by norm_num) hn
  replace low : 2 ^ 14 ≤ n.1 := low
  replace high : n.1 < 2 ^ 16 := high
  have root := fp16Root_spec low high
  obtain ⟨bottom, word⟩ := @sqrt_within (n.1 * 2 ^ 9) 11 16 (by omega) (by omega)
  have exponents : 2 * ((n.2 + 27) >>> (1 : ℕ) - FP16.expBias - (FP16.bits - 1 : ℕ) : ℤ)
      = n.2 + (-FP16.expBias - FP16.mantBits) - (9 : ℕ) := by
    show 2 * ((n.2 + 27) >>> (1 : ℕ) - (15 : ℕ) - (15 : ℕ)) = n.2 + (-(15 : ℕ) - (10 : ℕ)) - (9 : ℕ)
    rw [Int.shiftRight_eq_div_pow]
    omega
  have radicand := radicand_eq value exponents
  refine ⟨_, ?_, root_rounded plain radicand bottom word (p := _ = true) decide_eq_true_iff⟩
  rw [sqrtMantissa] at hn
  simp only [fp16Sqrt, fp16Unpack, unpacked, fp16Normalise, fp16Round, ← hn, root, Option.map_some,
    sqrtSpecial_finite operand nonzero.ne']
  rfl

theorem fp32Sqrt_rounded (plain : FP32.Plain mode) (unpacked : FP32.unpack x mode flags = (a, flags))
    (operand : FP32.Operand x false v a) (nonzero : 0 < a.mnt) :
    ∃ result, fp32Sqrt x mode flags = some result ∧ FP32.Rounded mode false √v flags result := by
  obtain ⟨n, hn⟩ : ∃ n, n = sqrtMantissa FP32 0 a := ⟨_, rfl⟩
  obtain ⟨low, high, digits, parity, value⟩ := sqrtMantissa_spec operand nonzero (by norm_num) hn
  replace low : 2 ^ 30 ≤ n.1 := low
  replace high : n.1 < 2 ^ 32 := high
  have root := fp32Root_spec low high
  obtain ⟨bottom, word⟩ := @sqrt_within (n.1 * 2 ^ 19) 24 32 (by omega) (by omega)
  have exponents : 2 * ((n.2 + 147) >>> (1 : ℕ) - FP32.expBias - (FP32.bits - 1 : ℕ) : ℤ)
      = n.2 + (-FP32.expBias - FP32.mantBits) - (19 : ℕ) := by
    show 2 * ((n.2 + 147) >>> (1 : ℕ) - (127 : ℕ) - (31 : ℕ)) = n.2 + (-(127 : ℕ) - (23 : ℕ)) - (19 : ℕ)
    rw [Int.shiftRight_eq_div_pow]
    omega
  have radicand := radicand_eq value exponents
  refine ⟨_, ?_, root_rounded plain radicand bottom word (p := _ = true) decide_eq_true_iff⟩
  rw [sqrtMantissa] at hn
  simp only [fp32Sqrt, fp32Unpack, unpacked, fp32Normalise, fp32Round, ← hn, root, Option.map_some,
    sqrtSpecial_finite operand nonzero.ne']
  rfl

theorem fp64Sqrt_rounded (plain : FP64.Plain mode) (unpacked : FP64.unpack x mode flags = (a, flags))
    (operand : FP64.Operand x false v a) (nonzero : 0 < a.mnt) :
    ∃ result, fp64Sqrt x mode flags = some result ∧ FP64.Rounded mode false √v flags result := by
  obtain ⟨n, hn⟩ : ∃ n, n = sqrtMantissa FP64 1 a := ⟨_, rfl⟩
  obtain ⟨low, high, digits, parity, value⟩ := sqrtMantissa_spec operand nonzero (by norm_num) hn
  replace low : 2 ^ 62 ≤ n.1 := low
  replace high : n.1 < 2 ^ 64 := high
  have root := fp64Root_spec low high digits
  obtain ⟨bottom, word⟩ := @sqrt_within (n.1 * 2 ^ 45) 53 64 (by omega) (by omega)
  have exponents : 2 * ((n.2 + 1053) >>> (1 : ℕ) - FP64.expBias - (FP64.bits - 1 : ℕ) : ℤ)
      = n.2 + (-FP64.expBias - FP64.mantBits) - (45 : ℕ) := by
    show 2 * ((n.2 + 1053) >>> (1 : ℕ) - (1023 : ℕ) - (63 : ℕ)) = n.2 + (-(1023 : ℕ) - (52 : ℕ)) - (45 : ℕ)
    rw [Int.shiftRight_eq_div_pow]
    omega
  have radicand := radicand_eq value exponents
  refine ⟨_, ?_, root_rounded plain radicand bottom word (p := _ = true) decide_eq_true_iff⟩
  rw [sqrtMantissa] at hn
  simp only [fp64Sqrt, fp64Unpack, unpacked, fp64Normalise, fp64Round, ← hn, root, Option.map_some,
    sqrtSpecial_finite operand nonzero.ne']
  rfl

end Results

namespace Width

/-- The function that takes the root of a mantissa. -/
def root : Width → ℕ → Option (ℕ × Bool)
  | .half => fp16Root
  | .single => fp32Root
  | .double => fp64Root

/-- The parity of the exponents that are made even or odd. -/
def parity : Width → ℤ
  | .half => 1
  | .single => 0
  | .double => 1

/-- The binary digits of the exact root that are scaled to be digits of an integer, twice. -/
def rootScale : Width → ℕ
  | .half => 9
  | .single => 19
  | .double => 45

/-- The mantissa of a pattern as its root is taken. -/
def rootMantissa (T : Width) (x mode flags : ℕ) : ℕ :=
  (sqrtMantissa T.format T.parity (T.format.unpack x mode flags).1).1

variable (T : Width) {mode : ℕ} (plain : T.format.Plain mode) {x : ℕ} {v : ℝ}
  (decoded : T.format.decode ℝ x = .finite false v) (positive : 0 < v) (flags : ℕ)

include plain decoded positive

theorem root_spec : T.root (T.rootMantissa x mode flags)
    = some (Nat.sqrt (T.rootMantissa x mode flags * 2 ^ T.rootScale),
      decide (Nat.sqrt (T.rootMantissa x mode flags * 2 ^ T.rootScale)
        * Nat.sqrt (T.rootMantissa x mode flags * 2 ^ T.rootScale) ≠ T.rootMantissa x mode flags * 2 ^ T.rootScale)) := by
  obtain ⟨u, unpacked, operand⟩ := FPFormat.exists_operand plain decoded
  have nonzero : 0 < u.mnt := Nat.pos_of_ne_zero fun zero => positive.ne' (operand.eq_zero_iff.mpr zero)
  rw [rootMantissa, unpacked]
  cases T with
  | half =>
    obtain ⟨low, high, -⟩ := sqrtMantissa_spec operand nonzero (Or.inr rfl) rfl
    exact fp16Root_spec low high
  | single =>
    obtain ⟨low, high, -⟩ := sqrtMantissa_spec operand nonzero (Or.inl rfl) rfl
    exact fp32Root_spec low high
  | double =>
    obtain ⟨low, high, digits, -⟩ := sqrtMantissa_spec operand nonzero (Or.inr rfl) rfl
    exact fp64Root_spec low high digits

theorem sqrt_rounds : ∃ result, T.sqrt x mode flags = some result ∧ T.format.Rounded mode false √v flags result := by
  obtain ⟨u, unpacked, operand⟩ := FPFormat.exists_operand plain decoded
  have nonzero : 0 < u.mnt := Nat.pos_of_ne_zero fun zero => positive.ne' (operand.eq_zero_iff.mpr zero)
  cases T with
  | half => exact fp16Sqrt_rounded plain (unpacked flags) operand nonzero
  | single => exact fp32Sqrt_rounded plain (unpacked flags) operand nonzero
  | double => exact fp64Sqrt_rounded plain (unpacked flags) operand nonzero

end Width

theorem FPFormat.decode_nonneg {fmt : FPFormat} {x : ℕ} {neg : Bool} (decoded : fmt.decode ℝ x = .finite neg v) :
    0 ≤ v := by
  have power : ∀ e : ℤ, (0 : ℝ) ≤ 2 ^ e := fun e => zpow_nonneg two_pos.le e
  rw [FPFormat.decode_eq_ite] at decoded
  split at decoded
  next => split at decoded <;> cases decoded
  next =>
    split at decoded
    next =>
      rw [← (Datum.finite.inj decoded).2]
      exact mul_nonneg (Nat.cast_nonneg _) (power _)
    next =>
      rw [← (Datum.finite.inj decoded).2]
      exact mul_nonneg (add_nonneg (pow_nonneg two_pos.le _) (Nat.cast_nonneg _)) (power _)

/-- **The square root is correctly rounded** in all widths and modes. No divisor of the iteration is zero, and after its
correction the mantissa is the floor of the exact root. -/
theorem sqrt_rounded (T : Width) {mode : ℕ} (plain : T.format.Plain mode) {x : ℕ} {v : ℝ}
    (decoded : T.format.decode ℝ x = .finite false v) (positive : 0 < v) (flags : ℕ) :
    (∃ result, T.sqrt x mode flags = some result ∧ T.format.Rounded mode false √v flags result ∧
      (result.2 &&& FPLIB_IXC ≠ 0 ↔ flags &&& FPLIB_IXC ≠ 0 ∨
        ¬∃ root, T.format.decode ℝ result.1 = .finite false root ∧ root ^ 2 = v)) ∧
      ∃ inexact, T.root (T.rootMantissa x mode flags)
        = some (⌊√((T.rootMantissa x mode flags * 2 ^ T.rootScale : ℕ) : ℝ)⌋₊, inexact) := by
  obtain ⟨result, is, rounded⟩ := T.sqrt_rounds plain decoded positive flags
  have root := T.root_spec plain decoded positive flags
  rw [← Real.nat_floor_real_sqrt_eq_nat_sqrt] at root
  refine ⟨⟨result, is, rounded, ?_⟩, _, root⟩
  rw [rounded.inexact, ne_eq (T.format.decode ℝ result.1)]
  refine or_congr_right (not_congr ⟨fun exact => ⟨√v, exact, Real.sq_sqrt positive.le⟩, ?_⟩)
  rintro ⟨root, exact, square⟩
  rw [exact, ← square, Real.sqrt_sq (FPFormat.decode_nonneg exact)]

/-- The root of two, rounded up. -/
theorem sqrt_rounded_two :
    (∃ result, Width.single.sqrt 0x40000000 1 0 = some result ∧ FP32.Rounded 1 false √2 0 result ∧
      (result.2 &&& FPLIB_IXC ≠ 0 ↔ 0 &&& FPLIB_IXC ≠ 0 ∨
        ¬∃ root : ℝ, FP32.decode ℝ result.1 = .finite false root ∧ root ^ 2 = 2)) ∧
      ∃ inexact, fp32Root (Width.single.rootMantissa 0x40000000 1 0)
        = some (⌊√((Width.single.rootMantissa 0x40000000 1 0 * 2 ^ 19 : ℕ) : ℝ)⌋₊, inexact) := by
  have two : FP32.decode ℝ 0x40000000 = .finite false 2 := by
    rw [@FPFormat.decode_normal _ ℝ _ _ 128 0 false (by decide) (by decide) (by decide) (by decide) (by decide)]
    norm_num [FPFormat.mantBits, FP32]
  exact @sqrt_rounded .single 1 ⟨rfl, rfl⟩ _ _ two two_pos 0

end Emas.Gem5.Fplib

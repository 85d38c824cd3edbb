/-
**Division rounds once.**

`fp16_div`, `fp32_div` and `fp64_div` of `arch/arm/insts/fplib.cc`. The widths of 16 and 32 bits divide in a word of
twice the width and orr into the last bit whether there is a remainder (`divFinite_rounded`).

The 64 bits use a reciprocal of 32 bits and one Newton step in two words. `fp64Estimate_spec` carries the error through
the truncations: what comes out is below the quotient, and by less than two. `fp64DivFinite_rounded` then has one
correction to do, whose comparison is zero where the quotient is exact.
-/

import Emas.Gem5.Fp128
import Emas.Gem5.FplibOps
import Mathlib.Data.Nat.Prime.Basic
import Mathlib.Data.Rat.Floor

namespace Emas.Gem5.Fplib

namespace FPFormat

section Narrow

variable {fmt : FPFormat} {K : Type} [Field K] [LinearOrder K] [IsStrictOrderedRing K] [FloorRing K] {mode flags : ℕ}
  {x x' : ℕ} {neg neg' : Bool} {v v' : K} {a b : Unpacked}

theorem Operand.quotient (dividend : fmt.Operand x neg v a) (divisor : fmt.Operand x' neg' v' b) :
    v / v' = a.mnt / b.mnt * 2 ^ (a.exp - b.exp) := by
  have exponents : a.exp - b.exp = a.exp - fmt.expBias - fmt.mantBits - (b.exp - fmt.expBias - fmt.mantBits) := by ring
  rw [dividend.value, divisor.value, mul_div_mul_comm, ← zpow_sub₀ two_pos.ne', ← exponents]

theorem quotient_cell {n d w : ℕ} (positive : 0 < d) (word : n < 2 ^ w) :
    SameCell 2 ((n : K) / d) ((n / d ||| flag (n / d * d % 2 ^ w ≠ n) : ℕ) : K) := by
  have positiveK : (0 : K) < d := Nat.cast_pos.mpr positive
  have within : n / d * d ≤ n := Nat.div_mul_le_self n d
  have beyond := Nat.lt_div_mul_add positive (a := n)
  refine cell_or_flag ?_ ?_ ?_
  · rw [le_div_iff₀ positiveK]
    exact_mod_cast within
  · rw [div_lt_iff₀ positiveK, add_mul, one_mul]
    exact_mod_cast beyond
  · rw [Nat.mod_eq_of_lt (lt_of_le_of_lt within word), ne_eq, ne_eq, div_eq_iff positiveK.ne', not_iff_not]
    constructor
    · intro is
      exact_mod_cast is.symm
    · intro is
      exact_mod_cast is.symm

/-- **The division in a word of twice the width.** -/
theorem divFinite_rounded (plain : fmt.Plain mode) (dividend : fmt.Operand x neg v a)
    (divisor : fmt.Operand x' neg' v' b) (nonzero : 0 < a.mnt) (nonzero' : 0 < b.mnt) :
    ∃ result, fmt.divFinite a b mode flags = some result ∧ fmt.Rounded mode (neg ^^ neg') (v / v') flags result := by
  have split := fmt.bits_split
  have digits := fmt.expBits_lt
  have enough := fmt.exp_pos
  obtain ⟨k, is, low, high⟩ := fmt.normalise_spec a.exp nonzero dividend.word
  set scale := fmt.mantBits - fmt.expBits + 3 with hscale
  have fits : a.mnt * 2 ^ k * 2 ^ scale < 2 ^ (2 * fmt.bits) := by
    calc a.mnt * 2 ^ k * 2 ^ scale < 2 ^ fmt.bits * 2 ^ scale := Nat.mul_lt_mul_of_pos_right high (Nat.two_pow_pos _)
      _ = 2 ^ (fmt.bits + scale) := (pow_add ..).symm
      _ ≤ 2 ^ (2 * fmt.bits) := Nat.pow_le_pow_right two_pos (by omega)
  have scaled : shl (2 * fmt.bits) (a.mnt * 2 ^ k) scale = a.mnt * 2 ^ k * 2 ^ scale := shl_eq fits
  set n := a.mnt * 2 ^ k * 2 ^ scale with hn
  have bottom : 2 ^ (fmt.bits - fmt.expBits + 1) ≤ n / b.mnt := by
    rw [Nat.le_div_iff_mul_le nonzero']
    calc 2 ^ (fmt.bits - fmt.expBits + 1) * b.mnt
        ≤ 2 ^ (fmt.bits - fmt.expBits + 1) * 2 ^ (fmt.mantBits + 1) := Nat.mul_le_mul_left _ divisor.mnt_lt.le
      _ = 2 ^ (fmt.bits - 1) * 2 ^ scale := by
          rw [← pow_add, ← pow_add]
          congr 1
          omega
      _ ≤ n := Nat.mul_le_mul_right _ low
  set collapsed := n / b.mnt ||| flag (n / b.mnt * b.mnt % 2 ^ (2 * fmt.bits) ≠ n) with hcollapsed
  have least : 2 ^ (fmt.bits - fmt.expBits + 1) ≤ collapsed := le_trans bottom Nat.left_le_or
  have word : collapsed < 2 ^ (2 * fmt.bits) := by
    refine Nat.or_lt_two_pow (lt_of_le_of_lt (Nat.div_le_self ..) fits) (lt_of_lt_of_le (flag_lt _) ?_)
    exact Nat.pow_le_pow_right (n := 2) two_pos (show 1 ≤ 2 * fmt.bits by omega)
  have cell : SameCell 2 ((n : K) / b.mnt) collapsed := quotient_cell nonzero' fits
  have positive : (0 : K) < n / b.mnt := by
    have : 0 < n := lt_of_lt_of_le (Nat.mul_pos (Nat.two_pow_pos _) (Nat.two_pow_pos _)) (Nat.mul_le_mul_right _ low)
    positivity
  have rounded := @round_double K _ _ _ _ fmt mode flags (a.sgn ^^ b.sgn) plain collapsed
    (lt_of_lt_of_le (Nat.two_pow_pos _) least) word
    (a.exp - k - b.exp + (fmt.expBias + fmt.bits + 2 * fmt.expBits - 3)) (n / b.mnt) positive
    fun shift top => by
      have near := shift_le least top
      exact cell.shift (by omega)
  have value : (n : K) / b.mnt * 2 ^ (a.exp - k - b.exp + (fmt.expBias + fmt.bits + 2 * fmt.expBits - 3) - fmt.expBias
      - (2 * fmt.bits - 1 : ℕ) : ℤ) = v / v' := by
    have exponents : a.exp - k - b.exp + (fmt.expBias + fmt.bits + 2 * fmt.expBits - 3) - fmt.expBias
        - (2 * fmt.bits - 1 : ℕ) = a.exp - b.exp - (k + scale : ℕ) := by omega
    have powers : ((n : ℕ) : K) = a.mnt * 2 ^ (k + scale) := by
      rw [hn, mul_assoc, ← pow_add, Nat.cast_mul, Nat.cast_pow, Nat.cast_ofNat]
    rw [dividend.quotient divisor, exponents, zpow_sub₀ two_ne_zero, zpow_natCast, powers]
    have shifted : (2 : K) ^ (k + scale) ≠ 0 := by positivity
    rw [mul_div_right_comm, mul_assoc, mul_div_cancel₀ _ shifted]
  rw [value, dividend.sgn, divisor.sgn] at rounded
  refine ⟨_, ?_, rounded.toRounded⟩
  rw [divFinite, is]
  dsimp only
  rw [scaled, divide, if_neg nonzero'.ne', Option.map_some, ← hcollapsed, dividend.sgn, divisor.sgn]

end Narrow

end FPFormat

/-! ### The reciprocal of 64 bits -/

section Reciprocal

variable {b x : ℕ} (low : 2 ^ 63 ≤ b)

include low

theorem reciprocal_bounds (high : b < 2 ^ 64) (is : x = (2 ^ 64 - 1) / (b / 2 ^ 31)) :
    x < 2 ^ 32 ∧ b * x < 2 ^ 95 + 2 ^ 63 ∧ 2 ^ 95 < b * x + 2 ^ 64 ∧ b * x ≠ 2 ^ 95 := by
  have parts := Nat.div_add_mod b (2 ^ 31)
  have rest := Nat.mod_lt b (Nat.two_pow_pos 31)
  set d := b / 2 ^ 31 with hd
  have below : d * x ≤ 2 ^ 64 - 1 := is ▸ Nat.mul_div_le (2 ^ 64 - 1) d
  have above : 2 ^ 64 - 1 < d * x + d := by
    have := Nat.lt_mul_div_succ (2 ^ 64 - 1) (show 0 < d by omega)
    rwa [← is, Nat.mul_add, Nat.mul_one] at this
  have small : x < 2 ^ 32 := by
    by_contra large
    have := Nat.mul_le_mul (show 2 ^ 32 ≤ d by omega) (not_lt.mp large)
    omega
  have product : b * x = 2 ^ 31 * (d * x) + b % 2 ^ 31 * x := by
    conv_lhs => rw [← parts]
    ring
  have tail := Nat.mul_le_mul (Nat.le_sub_one_of_lt rest) (Nat.le_sub_one_of_lt small)
  refine ⟨small, by omega, by omega, fun exact => ?_⟩
  -- a divisor of a power of two is one, and then the reciprocal has no room
  obtain ⟨i, -, power⟩ := (Nat.dvd_prime_pow Nat.prime_two).mp (Dvd.intro x exact)
  have least : 63 ≤ i := (Nat.pow_le_pow_iff_right one_lt_two).mp (power ▸ low)
  have greatest : i < 64 := (Nat.pow_lt_pow_iff_right one_lt_two).mp (power ▸ high)
  have single : i = 63 := by omega
  rw [power, single] at exact
  omega

theorem newton_bounds (below : b * x < 2 ^ 95 + 2 ^ 63) (above : 2 ^ 95 < b * x + 2 ^ 64)
    (inexact : b * x ≠ 2 ^ 95) {r : ℕ} (is : r = (2 ^ 96 - b * x) / 2 ^ 32 * x / 2 ^ 33) : r * b < 2 ^ 125 ∧ 2 ^ 125 < (r + 3) * b := by
  set p := 2 ^ 96 - b * x with hp
  set y := p / 2 ^ 32 with hy
  have upper : 2 ^ 32 * y ≤ p := Nat.mul_div_le p _
  have lower : p < 2 ^ 32 * y + 2 ^ 32 := by omega
  have upper' : 2 ^ 33 * r ≤ y * x := is ▸ Nat.mul_div_le (y * x) _
  have lower' : y * x < 2 ^ 33 * r + 2 ^ 33 := by omega
  -- the product of the two is that of `2 ^ 95 - e` and `2 ^ 95 + e`
  obtain ⟨e, he⟩ : ∃ e : ℤ, e = 2 ^ 95 - (b : ℤ) * x := ⟨_, rfl⟩
  have sum : (p : ℤ) = 2 ^ 95 + e := by
    rw [he, hp, Nat.cast_sub (by omega)]
    push_cast
    ring
  have product : (p : ℤ) * (b * x) = 2 ^ 190 - e ^ 2 := by
    rw [sum, he]
    ring
  have square : 0 < e ^ 2 := by
    refine sq_pos_of_ne_zero fun zero => inexact ?_
    rw [he] at zero
    zify
    linarith
  have square' : e ^ 2 < 2 ^ 128 := by
    have magnitude : |e| < 2 ^ 64 := by
      rw [abs_lt, he]
      zify at below above
      constructor <;> linarith
    calc e ^ 2 = |e| ^ 2 := (sq_abs e).symm
      _ < (2 ^ 64) ^ 2 := pow_lt_pow_left₀ magnitude (abs_nonneg e) two_ne_zero
      _ = 2 ^ 128 := by norm_num
  zify at *
  constructor
  · have chain : (2 ^ 65 : ℤ) * (r * b) ≤ p * (b * x) := by
      calc (2 ^ 65 : ℤ) * (r * b) = 2 ^ 32 * b * (2 ^ 33 * r) := by ring
        _ ≤ 2 ^ 32 * b * (y * x) := mul_le_mul_of_nonneg_left upper' (by positivity)
        _ = b * x * (2 ^ 32 * y) := by ring
        _ ≤ b * x * p := mul_le_mul_of_nonneg_left upper (by positivity)
        _ = p * (b * x) := by ring
    linarith
  · have chain : (p : ℤ) * (b * x) ≤ 2 ^ 65 * ((r + 1) * b) + 2 ^ 32 * (b * x) := by
      calc (p : ℤ) * (b * x) = b * x * p := by ring
        _ ≤ b * x * (2 ^ 32 * y + 2 ^ 32) := mul_le_mul_of_nonneg_left lower.le (by positivity)
        _ = 2 ^ 32 * b * (y * x) + 2 ^ 32 * (b * x) := by ring
        _ ≤ 2 ^ 32 * b * (2 ^ 33 * r + 2 ^ 33) + 2 ^ 32 * (b * x) :=
            add_le_add_left (mul_le_mul_of_nonneg_left lower'.le (by positivity)) _
        _ = _ := by ring
    linarith

end Reciprocal

/-- **The estimate** is below the quotient, and by less than two. -/
theorem fp64Estimate_spec {a b : ℕ} (ha : 2 ^ 63 ≤ a) (ha' : a < 2 ^ 64) (four : 4 ∣ a) (hb : 2 ^ 63 ≤ b)
    (hb' : b < 2 ^ 64) : ∃ x, fp64Estimate a b = some x ∧ x * b < 2 ^ 55 * a ∧ 2 ^ 55 * a < (x + 2) * b := by
  obtain ⟨x, is⟩ : ∃ x, x = (2 ^ 64 - 1) / (b / 2 ^ 31) := ⟨_, rfl⟩
  obtain ⟨small, below, above, inexact⟩ := reciprocal_bounds hb hb' is
  obtain ⟨r, hr⟩ : ∃ r, r = (2 ^ 96 - b * x) / 2 ^ 32 * x / 2 ^ 33 := ⟨_, rfl⟩
  obtain ⟨under, near⟩ := newton_bounds hb below above inexact hr
  have short : r < 2 ^ 62 := by
    by_contra large
    have := Nat.mul_le_mul (not_lt.mp large) hb
    omega
  -- the words of the code hold these numbers
  have one : (⟨0, 1 <<< 32⟩ : Wide).Valid := ⟨Nat.two_pow_pos 64, by norm_num [Nat.shiftLeft_eq]⟩
  have one' : (⟨0, 1 <<< 32⟩ : Wide).toNat = 2 ^ 96 := by norm_num [Wide.toNat, Nat.shiftLeft_eq]
  obtain ⟨valid, product⟩ := mul64x32_spec hb' small
  obtain ⟨valid, difference⟩ := sub128_spec one valid (by rw [product, one']; omega)
  obtain ⟨valid, shifted⟩ := lsr128_spec valid 32
  rw [difference, product, one'] at shifted
  have word : (2 ^ 96 - b * x) / 2 ^ 32 < 2 ^ 64 := by omega
  have first : (lsr128 (sub128 ⟨0, 1 <<< 32⟩ (mul64x32 b x)) 32).x0 = (2 ^ 96 - b * x) / 2 ^ 32 := by
    rw [← Wide.toNat_low valid, shifted, Nat.mod_eq_of_lt word]
  obtain ⟨valid, product'⟩ := mul64x32_spec word small
  obtain ⟨valid, shifted'⟩ := lsr128_spec valid 33
  rw [product', ← hr] at shifted'
  have second : (lsr128 (mul64x32 ((2 ^ 96 - b * x) / 2 ^ 32) x) 33).x0 = r := by
    rw [← Wide.toNat_low valid, shifted', Nat.mod_eq_of_lt (by omega)]
  obtain ⟨valid, product''⟩ := mul62x62_spec short (show a / 2 ^ 2 < 2 ^ 62 by omega)
  obtain ⟨valid, shifted''⟩ := lsr128_spec valid 4
  rw [product''] at shifted''
  refine ⟨(lsr128 (mul62x62 r (a / 2 ^ 2)) 4).x1, ?_, ?_⟩
  · have nonzero : ¬b / 2 ^ 31 = 0 := by omega
    simp only [fp64Estimate, divide, Nat.shiftRight_eq_div_pow, if_neg nonzero, Option.map_some, ← is, first, second]
  · rw [← Wide.toNat_high valid, shifted'', Nat.div_div_eq_div_mul]
    obtain ⟨quarter, rfl⟩ := four
    have cut : 4 * quarter / 2 ^ 2 = quarter := by omega
    rw [cut]
    set X := r * quarter / (2 ^ 4 * 2 ^ 64) with hX
    have upper : 2 ^ 68 * X ≤ r * quarter := Nat.mul_div_le (r * quarter) (2 ^ 4 * 2 ^ 64)
    have lower : r * quarter < 2 ^ 68 * X + 2 ^ 68 := by omega
    constructor
    · have chain : 2 ^ 68 * (X * b) < 2 ^ 125 * quarter := by
        calc 2 ^ 68 * (X * b) = 2 ^ 68 * X * b := by ring
          _ ≤ r * quarter * b := Nat.mul_le_mul_right b upper
          _ = r * b * quarter := by ring
          _ < 2 ^ 125 * quarter := Nat.mul_lt_mul_of_pos_right under (by omega)
      omega
    · have expand : (2 ^ 68 * X + 2 ^ 68) * b + 2 ^ 64 * b = 2 ^ 68 * (X * b) + (2 ^ 68 + 2 ^ 64) * b := by ring
      have expand' : (X + 2) * b = X * b + 2 * b := by ring
      have chain : 2 ^ 125 * quarter < (2 ^ 68 * X + 2 ^ 68) * b + 2 ^ 64 * b := by
        calc 2 ^ 125 * quarter < (r + 3) * b * quarter := Nat.mul_lt_mul_of_pos_right near (by omega)
          _ = r * quarter * b + 3 * quarter * b := by ring
          _ ≤ (2 ^ 68 * X + 2 ^ 68) * b + 2 ^ 64 * b :=
              Nat.add_le_add (Nat.mul_le_mul_right b lower.le) (Nat.mul_le_mul_right b (by omega))
      omega

/-! ### The results -/

section Results

variable {fmt : FPFormat} {K : Type} [Field K] [LinearOrder K] [IsStrictOrderedRing K] [FloorRing K] {mode flags : ℕ}
  {x x' : ℕ} {neg neg' : Bool} {v v' : K} {a b : Unpacked}

/-- **The division of 64 bits.** Adding one is the only correction that the estimate needs. -/
theorem fp64DivFinite_rounded (plain : FP64.Plain mode) (dividend : FP64.Operand x neg v a)
    (divisor : FP64.Operand x' neg' v' b) (nonzero : 0 < a.mnt) (nonzero' : 0 < b.mnt) :
    ∃ result, fp64DivFinite a b mode flags = some result ∧ FP64.Rounded mode (neg ^^ neg') (v / v') flags result := by
  obtain ⟨k, is, low, high⟩ := FP64.normalise_spec a.exp nonzero dividend.word
  obtain ⟨k', is', low', high'⟩ := FP64.normalise_spec b.exp nonzero' divisor.word
  have digits : 2 ^ 11 ∣ a.mnt * 2 ^ k := FP64.dvd_normalised dividend.mnt_lt low
  have digits' : 2 ^ 11 ∣ b.mnt * 2 ^ k' := FP64.dvd_normalised divisor.mnt_lt low'
  set A := a.mnt * 2 ^ k with hA
  set B := b.mnt * 2 ^ k' with hB
  replace low : 2 ^ 63 ≤ A := low
  replace high : A < 2 ^ 64 := high
  replace low' : 2 ^ 63 ≤ B := low'
  replace high' : B < 2 ^ 64 := high'
  obtain ⟨m, estimate, under, near⟩ := fp64Estimate_spec low high (dvd_trans (by norm_num) digits) low' high'
  have short : m + 1 < 2 ^ 57 := by
    by_contra large
    have := Nat.mul_le_mul (show 2 ^ 57 - 1 ≤ m by omega) low'
    omega
  obtain ⟨valid, product⟩ := mul62x62_spec (show B / 2 ^ 2 < 2 ^ 62 by omega) (show m + 1 < 2 ^ 62 by omega)
  have top : (⟨0, A / 2 ^ 11⟩ : Wide).Valid := ⟨Nat.two_pow_pos 64, by dsimp only; omega⟩
  have scaled : (⟨0, A / 2 ^ 11⟩ : Wide).toNat * 4 = 2 ^ 55 * A := by
    rw [Wide.toNat]
    dsimp only
    omega
  have scaled' : (mul62x62 (B / 2 ^ 2) (m + 1)).toNat * 4 = (m + 1) * B := by
    obtain ⟨part, hpart⟩ := digits'
    have quarter : B / 2 ^ 2 * 4 = B := by omega
    rw [product, mul_right_comm, quarter, mul_comm]
  set c := cmp128 (mul62x62 (B / 2 ^ 2) (m + 1)) ⟨0, A / 2 ^ 11⟩ with hc
  have le : c ≤ 0 ↔ (m + 1) * B ≤ 2 ^ 55 * A := by
    rw [hc, (cmp128_spec valid top).1]
    omega
  have zero : c = 0 ↔ (m + 1) * B = 2 ^ 55 * A := by
    rw [hc, cmp128_eq_zero valid top]
    omega
  -- the quotient, and the mantissa after the correction
  have positive : (0 : K) < B := by exact_mod_cast lt_of_lt_of_le (Nat.two_pow_pos 63) low'
  set q : K := ((2 ^ 55 * A : ℕ) : K) / B with hq
  set whole := if c ≤ 0 then m + 1 else m with hwhole
  have floor : whole * B ≤ 2 ^ 55 * A ∧ 2 ^ 55 * A < (whole + 1) * B ∧ (c ≠ 0 ↔ 2 ^ 55 * A ≠ whole * B) := by
    rw [hwhole]
    split
    next more =>
      refine ⟨le.mp more, near, ?_⟩
      rw [ne_eq, ne_eq, zero, eq_comm]
    next less =>
      have beyond := not_le.mp (mt le.mpr less)
      exact ⟨under.le, beyond, iff_of_true (fun is => less is.le) under.ne'⟩
  obtain ⟨above, below, exact⟩ := floor
  have least : 2 ^ 53 ≤ whole := by
    by_contra small
    have := Nat.mul_le_mul (show whole + 1 ≤ 2 ^ 53 by omega) high'.le
    omega
  have rounded := @FPFormat.round_single K _ _ _ _ FP64 mode flags (a.sgn ^^ b.sgn) plain whole least
    (show whole < 2 ^ 64 by rw [hwhole]; split <;> omega) (a.exp - k - (b.exp - k') + 1023 + 8) q
    (by rw [hq, le_div_iff₀ positive]; exact_mod_cast above) (by rw [hq, div_lt_iff₀ positive]; exact_mod_cast below)
    (c ≠ 0) _ (by rw [exact, hq, ne_eq, ne_eq, div_eq_iff positive.ne']; norm_cast)
  have value : q * 2 ^ (a.exp - k - (b.exp - k') + 1023 + 8 - FP64.expBias - (FP64.bits - 1 : ℕ) : ℤ) = v / v' := by
    have exponents : a.exp - k - (b.exp - k') + 1023 + 8 - FP64.expBias - (FP64.bits - 1 : ℕ)
        = a.exp - b.exp + k' - (k + 55 : ℕ) := by
      show a.exp - k - (b.exp - k') + 1023 + 8 - (1023 : ℕ) - (64 - 1 : ℕ) = _
      push_cast
      ring
    have numerator : ((2 ^ 55 * A : ℕ) : K) = a.mnt * 2 ^ (k + 55) := by
      rw [hA]
      push_cast
      ring
    have denominator : (B : K) = b.mnt * 2 ^ k' := by
      rw [hB]
      push_cast
      rfl
    have first : (2 : K) ^ (k + 55) ≠ 0 := by positivity
    have second : (2 : K) ^ k' ≠ 0 := by positivity
    rw [dividend.quotient divisor, exponents, zpow_sub₀ two_ne_zero, zpow_add₀ two_ne_zero, zpow_natCast, zpow_natCast,
      hq, numerator, denominator, mul_div_mul_comm]
    field_simp
  rw [value, dividend.sgn, divisor.sgn] at rounded
  refine ⟨_, ?_, rounded.toRounded⟩
  have more : (m + 1) % 2 ^ 64 = m + 1 := Nat.mod_eq_of_lt (by omega)
  simp only [fp64DivFinite, fp64Normalise, fp64Round, is, is', estimate, Option.map_some, more,
    Nat.shiftRight_eq_div_pow, ← hc, ← hwhole, dividend.sgn, divisor.sgn]
  rfl

omit [LinearOrder K] [IsStrictOrderedRing K] [FloorRing K] in
theorem divSpecial_finite (dividend : fmt.Operand x neg v a) (divisor : fmt.Operand x' neg' v' b)
    (nonzero : b.mnt ≠ 0) : fmt.divSpecial x x' a b mode flags
      = if a.mnt = 0 then some (fmt.zero (neg ^^ neg'), flags) else none := by
  have numbers : fmt.processNaNs x x' mode flags = (0, flags) :=
    FPFormat.processAll_finite (by simpa using ⟨dividend.finite, divisor.finite⟩) flags
  have finite : ¬a.exp = fmt.expInf := dividend.exp_lt.ne
  have finite' : ¬b.exp = fmt.expInf := divisor.exp_lt.ne
  rw [FPFormat.divSpecial, numbers]
  simp only [ne_eq, not_true_eq_false, if_false, finite, finite', nonzero, and_false, or_false, dividend.sgn,
    divisor.sgn]

end Results

theorem Width.div_rounds (T : Width) {K : Type} [Field K] [LinearOrder K] [IsStrictOrderedRing K] [FloorRing K]
    {mode : ℕ} (plain : T.format.Plain mode) {a b : ℕ} {neg neg' : Bool} {v w : K}
    (dividend : T.format.decode K a = .finite neg v) (divisor : T.format.decode K b = .finite neg' w) (nonzero : w ≠ 0)
    (flags : ℕ) : ∃ result, T.div a b mode flags = some result ∧
      T.format.Rounded mode (neg ^^ neg') (v / w) flags result := by
  obtain ⟨u, unpacked, operand⟩ := FPFormat.exists_operand plain dividend
  obtain ⟨u', unpacked', operand'⟩ := FPFormat.exists_operand plain divisor
  have divisible : u'.mnt ≠ 0 := fun zero => nonzero (operand'.eq_zero_iff.mpr zero)
  have special := @divSpecial_finite _ K _ mode flags _ _ _ _ _ _ _ _ operand operand' divisible
  have positive := Nat.pos_of_ne_zero divisible
  have outcome : (∃ result, T.format.divSpecial a b u u' mode flags = some result ∧
      T.format.Rounded mode (neg ^^ neg') (v / w) flags result) ∨
      T.format.divSpecial a b u u' mode flags = none ∧ 0 < u.mnt := by
    rw [special]
    by_cases zero : u.mnt = 0
    · have none : v / w = 0 := by rw [operand.eq_zero_iff.mpr zero, zero_div]
      rw [if_pos zero, none]
      exact .inl ⟨_, rfl, (FPFormat.zero_rounded _).toRounded⟩
    · exact .inr ⟨if_neg zero, Nat.pos_of_ne_zero zero⟩
  cases T with
  | half =>
    simp only [Width.format] at unpacked unpacked' outcome ⊢
    rw [Width.div, fp16Div, FPFormat.div, unpacked, unpacked']
    dsimp only
    obtain ⟨result, special, rounded⟩ | ⟨special, some⟩ := outcome
    · rw [special]
      exact ⟨_, rfl, rounded⟩
    · rw [special]
      exact FPFormat.divFinite_rounded plain operand operand' some positive
  | single =>
    simp only [Width.format] at unpacked unpacked' outcome ⊢
    rw [Width.div, fp32Div, FPFormat.div, unpacked, unpacked']
    dsimp only
    obtain ⟨result, special, rounded⟩ | ⟨special, some⟩ := outcome
    · rw [special]
      exact ⟨_, rfl, rounded⟩
    · rw [special]
      exact FPFormat.divFinite_rounded plain operand operand' some positive
  | double =>
    simp only [Width.format] at unpacked unpacked' outcome ⊢
    rw [Width.div, fp64Div, fp64Unpack, unpacked, unpacked']
    dsimp only
    obtain ⟨result, special, rounded⟩ | ⟨special, some⟩ := outcome
    · rw [special]
      exact ⟨_, rfl, rounded⟩
    · rw [special]
      exact fp64DivFinite_rounded plain operand operand' some positive

/-- The mantissa of an operand as `fp64_div` divides it. -/
def normalisedMantissa (x mode flags : ℕ) : ℕ :=
  (fp64Normalise (fp64Unpack x mode flags).1.mnt (fp64Unpack x mode flags).1.exp).1

/-- The exact quotient of two such mantissas, scaled to the digits of `x_mnt`. -/
def scaledQuotient (aMnt bMnt : ℕ) : ℚ := 2 ^ 55 * aMnt / bMnt

theorem normalisedMantissa_spec {K : Type} [Field K] {mode x : ℕ} {neg : Bool} {v : K} (plain : FP64.Plain mode)
    (decoded : FP64.decode K x = .finite neg v) (nonzero : v ≠ 0) (flags : ℕ) :
    2 ^ 63 ≤ normalisedMantissa x mode flags ∧ normalisedMantissa x mode flags < 2 ^ 64 ∧
      2 ^ 11 ∣ normalisedMantissa x mode flags := by
  obtain ⟨u, unpacked, operand⟩ := FPFormat.exists_operand plain decoded
  have some : u.mnt ≠ 0 := fun zero => nonzero (by rw [operand.value, zero, Nat.cast_zero, zero_mul])
  have word : u.mnt < 2 ^ 64 := lt_trans operand.mnt_lt (by decide)
  obtain ⟨k, is, low, high⟩ := FP64.normalise_spec u.exp (Nat.pos_of_ne_zero some) word
  have mantissa : normalisedMantissa x mode flags = u.mnt * 2 ^ k := by
    rw [normalisedMantissa, fp64Unpack, fp64Normalise, unpacked, is]
  rw [mantissa]
  exact ⟨low, high, FP64.dvd_normalised operand.mnt_lt low⟩

/-- **Division is correctly rounded** in all widths and modes, and one correction of the estimate suffices. -/
theorem div_rounded (T : Width) {mode : ℕ} (plain : T.format.Plain mode) {a b : ℕ} {neg neg' : Bool} {v w : ℚ}
    (dividend : T.format.decode ℚ a = .finite neg v) (divisor : T.format.decode ℚ b = .finite neg' w)
    (nonzero : w ≠ 0) (flags : ℕ) :
    (∃ result, T.div a b mode flags = some result ∧ T.format.Rounded mode (neg ^^ neg') (v / w) flags result) ∧
      (T = .double → v ≠ 0 → ∃ xMnt,
        fp64Estimate (normalisedMantissa a mode flags) (normalisedMantissa b mode flags) = some xMnt ∧
        (xMnt : ℚ) < scaledQuotient (normalisedMantissa a mode flags) (normalisedMantissa b mode flags) ∧
        ⌊scaledQuotient (normalisedMantissa a mode flags) (normalisedMantissa b mode flags)⌋ ≤ (xMnt : ℤ) + 1) := by
  refine ⟨T.div_rounds plain dividend divisor nonzero flags, ?_⟩
  rintro rfl some
  obtain ⟨low, high, digits⟩ := normalisedMantissa_spec plain dividend some flags
  obtain ⟨low', high', -⟩ := normalisedMantissa_spec plain divisor nonzero flags
  obtain ⟨x, estimate, under, near⟩ := fp64Estimate_spec low high (dvd_trans (by norm_num) digits) low' high'
  have positive : (0 : ℚ) < normalisedMantissa b mode flags := by
    exact_mod_cast lt_of_lt_of_le (Nat.two_pow_pos 63) low'
  refine ⟨x, estimate, ?_, ?_⟩
  · rw [scaledQuotient, lt_div_iff₀ positive]
    exact_mod_cast under
  · rw [← Int.lt_add_one_iff, Int.floor_lt, scaledQuotient, div_lt_iff₀ positive]
    have beyond : 2 ^ 55 * normalisedMantissa a mode flags < (x + 1 + 1) * normalisedMantissa b mode flags := near
    exact_mod_cast beyond

/-- One by three, with the last digit up. -/
theorem div_rounded_third :
    (∃ result, Width.double.div 0x3ff0000000000000 0x4008000000000000 1 0 = some result ∧
      FP64.Rounded 1 false (1 / 3 : ℚ) 0 result) ∧
      ∃ xMnt, fp64Estimate 0x8000000000000000 0xc000000000000000 = some xMnt ∧
        (xMnt : ℚ) < scaledQuotient 0x8000000000000000 0xc000000000000000 ∧
        ⌊scaledQuotient 0x8000000000000000 0xc000000000000000⌋ ≤ (xMnt : ℤ) + 1 := by
  have one : FP64.decode ℚ 0x3ff0000000000000 = .finite false 1 := by
    rw [@FPFormat.decode_normal _ ℚ _ _ 1023 (0) false (by decide) (by decide) (by decide) (by decide) (by decide)]
    norm_num [FPFormat.mantBits, FP64]
  have three : FP64.decode ℚ 0x4008000000000000 = .finite false 3 := by
    rw [@FPFormat.decode_normal _ ℚ _ _ 1024 (2 ^ 51) false (by decide) (by decide) (by decide) (by decide) (by decide)]
    norm_num [FPFormat.mantBits, FP64]
  obtain ⟨rounded, estimate⟩ := @div_rounded .double 1 ⟨rfl, rfl⟩ _ _ _ _ _ _ one three (by norm_num) 0
  exact ⟨rounded, estimate rfl one_ne_zero⟩

end Emas.Gem5.Fplib

/-
**The operands of the library.**

`Operand` is what `unpack` makes of a finite pattern: a mantissa and an exponent of the same magnitude, which are within
the bounds of the format. `normalise_spec` shifts a mantissa to the top of its word, and the same of a word of twice the
width and of two words.

The NaNs and infinities that the operations ask for first are none of finite patterns (`processAll_finite`).
-/

import Emas.Gem5.FpRound

namespace Emas.Gem5.Fplib

/-! ### Normalisation -/

theorem normaliseLoop_spec {w : ℕ} (level : ℕ) (fits : 2 ^ level ≤ w) {mnt : ℕ} (exp : ℤ) (high : mnt < 2 ^ w)
    (low : 2 ^ (w - 2 ^ level) ≤ mnt) : ∃ k : ℕ, normaliseLoop w level mnt exp = (mnt * 2 ^ k, exp - k) ∧
      2 ^ (w - 1) ≤ mnt * 2 ^ k ∧ mnt * 2 ^ k < 2 ^ w := by
  induction level generalizing mnt exp with
  | zero => exact ⟨0, by simp [normaliseLoop], by simpa using low, by simpa using high⟩
  | succ level ih =>
    rw [pow_succ] at fits low
    have positive := Nat.two_pow_pos level
    rw [normaliseLoop]
    split
    next empty =>
      rw [Nat.shiftRight_eq_div_pow, Nat.div_eq_zero_iff_lt (Nat.two_pow_pos _)] at empty
      have top : mnt * 2 ^ 2 ^ level < 2 ^ w := by
        calc mnt * 2 ^ 2 ^ level < 2 ^ (w - 2 ^ level) * 2 ^ 2 ^ level :=
              Nat.mul_lt_mul_of_pos_right empty (Nat.two_pow_pos _)
          _ = 2 ^ w := by rw [← pow_add, Nat.sub_add_cancel (by omega)]
      have shifted : shl w mnt (2 ^ level) = mnt * 2 ^ 2 ^ level := by
        rw [shl, Nat.shiftLeft_eq, Nat.mod_eq_of_lt top]
      have bottom : 2 ^ (w - 2 ^ level) ≤ mnt * 2 ^ 2 ^ level := by
        calc 2 ^ (w - 2 ^ level) = 2 ^ (w - 2 ^ level * 2) * 2 ^ 2 ^ level := by
              rw [← pow_add]
              congr 1
              omega
          _ ≤ _ := Nat.mul_le_mul_right _ low
      obtain ⟨k, is, below, above⟩ := ih (by omega) (exp - (2 ^ level : ℕ)) top bottom
      rw [shifted, is]
      rw [mul_assoc, ← pow_add] at below above ⊢
      refine ⟨2 ^ level + k, ?_, below, above⟩
      push_cast
      rw [sub_sub]
    next full =>
      rw [Nat.shiftRight_eq_div_pow, Nat.div_eq_zero_iff_lt (Nat.two_pow_pos _), not_lt] at full
      exact ih (by omega) exp high full

theorem shift_le {w mnt k n : ℕ} (low : 2 ^ n ≤ mnt) (top : mnt * 2 ^ k < 2 ^ w) : n + k < w := by
  have product := lt_of_le_of_lt (Nat.mul_le_mul_right (2 ^ k) low) top
  rw [← pow_add] at product
  exact (Nat.pow_lt_pow_iff_right one_lt_two).mp product

namespace FPFormat

variable (fmt : FPFormat)

theorem normalise_spec {mnt : ℕ} (exp : ℤ) (positive : 0 < mnt) (word : mnt < 2 ^ fmt.bits) :
    ∃ k : ℕ, fmt.normalise mnt exp = (mnt * 2 ^ k, exp - k) ∧
      2 ^ (fmt.bits - 1) ≤ mnt * 2 ^ k ∧ mnt * 2 ^ k < 2 ^ fmt.bits := by
  rw [normalise, if_neg positive.ne']
  refine normaliseLoop_spec _ fmt.bits_eq.ge exp word ?_
  rw [← fmt.bits_eq, Nat.sub_self]
  exact positive

theorem normaliseDouble_spec {mnt : ℕ} (exp : ℤ) (positive : 0 < mnt) (word : mnt < 2 ^ (2 * fmt.bits)) :
    ∃ k : ℕ, fmt.normaliseDouble mnt exp = (mnt * 2 ^ k, exp - k) ∧
      2 ^ (2 * fmt.bits - 1) ≤ mnt * 2 ^ k ∧ mnt * 2 ^ k < 2 ^ (2 * fmt.bits) := by
  have width : 2 * fmt.bits = 2 ^ (fmt.levels + 1) := by rw [fmt.bits_eq, pow_succ']
  rw [normaliseDouble, if_neg positive.ne']
  refine normaliseLoop_spec _ width.ge exp word ?_
  rw [← width, Nat.sub_self]
  exact positive

/-! ### Finite patterns -/

/-- The finite pattern `x` is unpacked as `u`, and stands for `v` with the sign `neg`. -/
structure Operand {K : Type} [Field K] (x : ℕ) (neg : Bool) (v : K) (u : Unpacked) : Prop where
  finite : fmt.exponent x < fmt.expInf
  sgn : u.sgn = neg
  value : v = u.mnt * 2 ^ (u.exp - fmt.expBias - fmt.mantBits)
  exp_pos : 1 ≤ u.exp
  exp_lt : u.exp < fmt.expInf
  mnt_lt : u.mnt < 2 ^ (fmt.mantBits + 1)
  normal : u.exp = 1 ∨ 2 ^ fmt.mantBits ≤ u.mnt

theorem dvd_normalised {m k : ℕ} (short : m < 2 ^ (fmt.mantBits + 1)) (top : 2 ^ (fmt.bits - 1) ≤ m * 2 ^ k) :
    2 ^ fmt.expBits ∣ m * 2 ^ k := by
  have split := fmt.bits_split
  have far : fmt.expBits ≤ k := by
    have product : 2 ^ (fmt.bits - 1) < 2 ^ (fmt.mantBits + 1 + k) := by
      rw [pow_add]
      exact lt_of_le_of_lt top (Nat.mul_lt_mul_of_pos_right short (Nat.two_pow_pos k))
    have := (Nat.pow_lt_pow_iff_right one_lt_two).mp product
    omega
  exact Dvd.dvd.mul_left (Nat.pow_dvd_pow 2 far) m

variable {fmt} {K : Type} [Field K] {mode : ℕ}

theorem Operand.word {x : ℕ} {neg : Bool} {v : K} {u : Unpacked} (operand : fmt.Operand x neg v u) : u.mnt < 2 ^ fmt.bits := by
  have split := fmt.bits_split
  exact lt_of_lt_of_le operand.mnt_lt (Nat.pow_le_pow_right two_pos (by omega))

theorem Operand.eq_zero_iff [LinearOrder K] [IsStrictOrderedRing K] {x : ℕ} {neg : Bool} {v : K} {u : Unpacked}
    (operand : fmt.Operand x neg v u) : v = 0 ↔ u.mnt = 0 := by
  have power : (2 : K) ^ (u.exp - fmt.expBias - fmt.mantBits) ≠ 0 := zpow_ne_zero _ two_ne_zero
  rw [operand.value, mul_eq_zero, or_iff_left power, Nat.cast_eq_zero]

/-- **A finite pattern** is unpacked to its magnitude. -/
theorem exists_operand (plain : fmt.Plain mode) {x : ℕ} {neg : Bool} {v : K}
    (decoded : fmt.decode K x = .finite neg v) :
    ∃ u, (∀ flags, fmt.unpack x mode flags = (u, flags)) ∧ fmt.Operand x neg v u := by
  have inf := fmt.expInf_eq
  have bias := fmt.bias_eq
  have bias_pos := fmt.expBias_pos
  have low := fmt.mantissa_lt x
  have double : 2 ^ (fmt.mantBits + 1) = 2 * 2 ^ fmt.mantBits := pow_succ' 2 _
  have below : fmt.exponent x < 2 ^ fmt.expBits := by
    rw [exponent_eq]
    exact Nat.mod_lt _ (Nat.two_pow_pos _)
  rw [decode_eq_ite] at decoded
  split at decoded
  next => split at decoded <;> cases decoded
  next finite =>
    have small : fmt.exponent x < fmt.expInf := by omega
    split at decoded
    next zero =>
      obtain ⟨rfl, rfl⟩ := Datum.finite.inj decoded
      refine ⟨⟨decide (x >>> (fmt.bits - 1) ≠ 0), 1, fmt.mantissa x⟩, fun flags => ?_, small, rfl, rfl, le_rfl, ?_, ?_, Or.inl rfl⟩
      · rw [unpack, if_neg (not_not.mpr zero), plain.flush, if_neg fun both => both.1 rfl]
      · dsimp only
        omega
      · dsimp only
        omega
    next nonzero =>
      obtain ⟨rfl, rfl⟩ := Datum.finite.inj decoded
      have joined : fmt.mantissa x ||| 1 <<< fmt.mantBits = 2 ^ fmt.mantBits + fmt.mantissa x := by
        have beside := Nat.two_pow_add_eq_or_of_lt low 1
        rw [Nat.mul_one] at beside
        rw [Nat.one_shiftLeft, Nat.or_comm, ← beside]
      refine ⟨⟨decide (x >>> (fmt.bits - 1) ≠ 0), fmt.exponent x, fmt.mantissa x ||| 1 <<< fmt.mantBits⟩, fun flags => ?_,
        small, rfl, ?_, ?_, ?_, ?_, ?_⟩
      · rw [unpack, if_pos nonzero]
      · dsimp only
        rw [joined]
        push_cast
        rfl
      · dsimp only
        omega
      · exact Int.ofNat_lt.mpr small
      · dsimp only
        omega
      · right
        dsimp only
        omega

theorem processAll_finite {operands : List ℕ} (finite : ∀ x ∈ operands, fmt.exponent x < fmt.expInf) (flags : ℕ) :
    fmt.processAll operands mode flags = (0, flags) := by
  have number : ∀ x ∈ operands, fmt.isNaN (fmt.exponent x) (fmt.mantissa x) = false := fun x mem => by
    have ne : ¬((fmt.exponent x : ℤ) = fmt.expInf) := by
      have := finite x mem
      omega
    rw [isNaN, decide_eq_false fun both => ne both.1]
  have quiet : operands.find? (fun x => fmt.isNaN (fmt.exponent x) (fmt.mantissa x)) = none :=
    List.find?_eq_none.mpr fun x mem => by simp [number x mem]
  have silent : operands.find? (fun x => fmt.isSignallingNaN (fmt.exponent x) (fmt.mantissa x)) = none :=
    List.find?_eq_none.mpr fun x mem => by simp [isSignallingNaN, number x mem]
  rw [processAll, silent, quiet]

end FPFormat

/-! ### Results with a bit for what is behind them -/

section Collapsed

variable {K : Type} [Field K] [LinearOrder K] [IsStrictOrderedRing K] [FloorRing K]

theorem cell_or_flag {x : K} {whole : ℕ} {p : Prop} [Decidable p] (above : whole ≤ x) (below : x < whole + 1)
    (more : p ↔ x ≠ whole) : SameCell 2 x ((whole ||| flag p : ℕ) : K) := by
  have bit := flag_lt (whole % 2 = 1 ∨ p)
  have parts := Nat.div_add_mod whole 2
  have parity := Nat.mod_lt whole two_pos
  have wholeK : (whole : K) = 2 * (whole / 2 : ℕ) + (whole % 2 : ℕ) := by exact_mod_cast parts.symm
  have bitK : ((flag (whole % 2 = 1 ∨ p) : ℕ) : K) < 2 := by exact_mod_cast bit
  have parityK : ((whole % 2 : ℕ) : K) ≤ 1 := by exact_mod_cast Nat.le_of_lt_succ parity
  have even : ((whole % 2 : ℕ) : K) = 0 ↔ whole % 2 = 0 := Nat.cast_eq_zero
  have nonneg := Nat.cast_nonneg (α := K) (whole % 2)
  have nonneg' := Nat.cast_nonneg (α := K) (flag (whole % 2 = 1 ∨ p))
  have positive : (0 : K) < 2 := two_pos
  rw [or_flag]
  push_cast
  refine @SameCell.of_floor K _ _ _ _ _ _ _ ((whole / 2 : ℕ) : ℤ) ?_ ?_ ?_ ?_ ?_
  · rw [le_div_iff₀ positive, Int.cast_natCast]
    linarith
  · rw [div_lt_iff₀ positive, Int.cast_natCast]
    linarith
  · rw [le_div_iff₀ positive, Int.cast_natCast]
    linarith
  · rw [div_lt_iff₀ positive, Int.cast_natCast]
    linarith
  · rw [div_eq_iff two_ne_zero, div_eq_iff two_ne_zero, Int.cast_natCast]
    have set : ((flag (whole % 2 = 1 ∨ p) : ℕ) : K) = 0 ↔ ¬(whole % 2 = 1 ∨ p) := by
      rw [Nat.cast_eq_zero, ← not_iff_not, not_not]
      exact flag_ne_zero
    have double : 2 * ((whole / 2 : ℕ) : K) + ((flag (whole % 2 = 1 ∨ p) : ℕ) : K) = (whole / 2 : ℕ) * 2
        ↔ ((flag (whole % 2 = 1 ∨ p) : ℕ) : K) = 0 := by
      constructor <;> intro is <;> linarith
    rw [double, set, not_or, more, not_not]
    constructor
    · intro is
      have none : ((whole % 2 : ℕ) : K) = 0 := le_antisymm (by linarith) nonneg
      have := even.mp none
      exact ⟨by omega, by linarith⟩
    · rintro ⟨notOdd, is⟩
      have none := even.mpr (by omega)
      rw [is]
      linarith

theorem cell_jam (x n : ℕ) : SameCell 2 ((x : K) / 2 ^ n)
    ((2 * (x / 2 ^ (n + 1)) + flag (x % 2 ^ (n + 1) ≠ 0) : ℕ) : K) := by
  have some : x % 2 ^ n ≠ 0 → x % 2 ^ (n + 1) ≠ 0 := fun some => by
    rw [pow_succ, Nat.mod_mul]
    omega
  have parts := Nat.div_add_mod x (2 ^ n)
  have rest := Nat.mod_lt x (Nat.two_pow_pos n)
  have positive : (0 : K) < 2 ^ n := by positivity
  have value : (x : K) / 2 ^ n = (x / 2 ^ n : ℕ) + ((x % 2 ^ n : ℕ) : K) / 2 ^ n := by
    conv_lhs => rw [← parts]
    push_cast
    field_simp
  rw [← jam id some]
  refine cell_or_flag ?_ ?_ ?_
  · rw [value]
    exact le_add_of_nonneg_right (by positivity)
  · rw [value, add_lt_add_iff_left, div_lt_one positive]
    exact_mod_cast rest
  · rw [value, ne_eq, ne_eq, add_eq_left, div_eq_zero_iff, or_iff_left positive.ne', Nat.cast_eq_zero]

namespace FPFormat

variable {fmt : FPFormat} {mode flags : ℕ} {sgn : Bool}

theorem round_top (plain : fmt.Plain mode) {x : ℕ} (low : 2 ^ (2 * fmt.bits - 1) ≤ x) (high : x < 2 ^ (2 * fmt.bits))
    (exp : ℤ) {y : K} (positive : 0 < y)
    (same : SameCell (2 ^ (fmt.expBits + (1 - exp).toNat + (fmt.bits - 1)) : K) y x) :
    fmt.RoundedOnce mode sgn (y * 2 ^ (exp - fmt.expBias - (2 * fmt.bits - 1 : ℕ))) flags
      (fmt.round sgn exp ((2 * (x / 2 ^ fmt.bits) + flag (x % 2 ^ fmt.bits ≠ 0)) % 2 ^ fmt.bits) mode flags) := by
  have split := fmt.bits_split
  obtain ⟨n, width⟩ : ∃ n, fmt.bits = n + 1 := ⟨fmt.bits - 1, by omega⟩
  have pred : fmt.bits - 1 = n := by omega
  have bit := flag_lt (x % 2 ^ fmt.bits ≠ 0)
  have double : 2 ^ fmt.bits = 2 * 2 ^ n := by rw [width, pow_succ']
  have bottom : 2 ^ n ≤ x / 2 ^ fmt.bits := by
    rw [Nat.le_div_iff_mul_le (Nat.two_pow_pos _), ← pow_add]
    refine le_trans (Nat.pow_le_pow_right two_pos ?_) low
    omega
  have top : x / 2 ^ fmt.bits < 2 ^ fmt.bits := by
    rw [Nat.div_lt_iff_lt_mul (Nat.two_pow_pos _), ← pow_add]
    exact lt_of_lt_of_eq high (by rw [two_mul])
  have leading : 2 ^ fmt.bits + (2 * (x / 2 ^ fmt.bits) + flag (x % 2 ^ fmt.bits ≠ 0)) % 2 ^ fmt.bits
      = 2 * (x / 2 ^ fmt.bits) + flag (x % 2 ^ fmt.bits ≠ 0) := by
    have above : 2 ^ fmt.bits ≤ 2 * (x / 2 ^ fmt.bits) + flag (x % 2 ^ fmt.bits ≠ 0) := by omega
    have below : 2 * (x / 2 ^ fmt.bits) + flag (x % 2 ^ fmt.bits ≠ 0) - 2 ^ fmt.bits < 2 ^ fmt.bits := by omega
    rw [Nat.mod_eq_sub_mod above, Nat.mod_eq_of_lt below]
    exact Nat.add_sub_cancel' above
  have scaled : SameCell (2 ^ (fmt.expBits + (1 - exp).toNat) : K) (y / 2 ^ n) ((x : K) / 2 ^ n) := by
    have nonzero : (2 ^ n : K)⁻¹ ≠ 0 := inv_ne_zero (by positivity)
    have down := same.scale nonzero
    rw [pred, pow_add, mul_assoc, mul_inv_cancel₀ (by positivity), mul_one] at down
    rw [div_eq_mul_inv, div_eq_mul_inv]
    exact down
  have collapsed : SameCell (2 ^ (fmt.expBits + (1 - exp).toNat) : K) ((x : K) / 2 ^ n)
      ((2 ^ fmt.bits + (2 * (x / 2 ^ fmt.bits) + flag (x % 2 ^ fmt.bits ≠ 0)) % 2 ^ fmt.bits : ℕ) : K) := by
    have enough := fmt.exp_pos
    have jammed : SameCell (2 ^ 1 : K) ((x : K) / 2 ^ n)
        ((2 * (x / 2 ^ (n + 1)) + flag (x % 2 ^ (n + 1) ≠ 0) : ℕ) : K) := by
      rw [pow_one (2 : K)]
      exact cell_jam x n
    rw [leading, width]
    exact jammed.coarsen_pow (by omega)
  have rounded := @round_rounded fmt K _ _ _ _ mode flags sgn plain exp _ (Nat.mod_lt _ (Nat.two_pow_pos _)) (y / 2 ^ n)
    (by positivity) (scaled.trans collapsed)
  have value : y / 2 ^ n * 2 ^ (exp - fmt.expBias - fmt.bits : ℤ)
      = y * 2 ^ (exp - fmt.expBias - (2 * fmt.bits - 1 : ℕ)) := by
    have exponents : exp - fmt.expBias - (2 * fmt.bits - 1 : ℕ) = exp - fmt.expBias - fmt.bits - n := by omega
    rw [exponents, zpow_sub₀ two_ne_zero _ (n : ℤ), zpow_natCast]
    ring
  rwa [value] at rounded

theorem round_double (plain : fmt.Plain mode) {x : ℕ} (nonzero : 0 < x) (word : x < 2 ^ (2 * fmt.bits)) (exp : ℤ)
    {y : K} (positive : 0 < y) (same : ∀ k : ℕ, x * 2 ^ k < 2 ^ (2 * fmt.bits) →
      SameCell (2 ^ (fmt.expBits + (1 - (exp - k)).toNat + (fmt.bits - 1)) : K) (y * 2 ^ k) (x * 2 ^ k)) :
    fmt.RoundedOnce mode sgn (y * 2 ^ (exp - fmt.expBias - (2 * fmt.bits - 1 : ℕ))) flags
      (fmt.round sgn (fmt.normaliseDouble x exp).2 (((fmt.normaliseDouble x exp).1 >>> (fmt.bits - 1)
          ||| flag (shl (2 * fmt.bits) (fmt.normaliseDouble x exp).1 1 % 2 ^ fmt.bits ≠ 0)) % 2 ^ fmt.bits)
        mode flags) := by
  obtain ⟨k, is, low, high⟩ := fmt.normaliseDouble_spec exp nonzero word
  have split := fmt.bits_split
  obtain ⟨n, width⟩ : ∃ n, fmt.bits = n + 1 := ⟨fmt.bits - 1, by omega⟩
  have pred : fmt.bits - 1 = n := by omega
  rw [is]
  dsimp only
  have shifted : shl (2 * fmt.bits) (x * 2 ^ k) 1 % 2 ^ fmt.bits ≠ 0 ↔ x * 2 ^ k % 2 ^ n ≠ 0 := by
    have divides : 2 ^ fmt.bits ∣ 2 ^ (2 * fmt.bits) := Nat.pow_dvd_pow 2 (by omega)
    rw [shl, Nat.mod_mod_of_dvd _ divides, Nat.shiftLeft_eq, pow_one, width, pow_succ, Nat.mul_mod_mul_right, ne_eq,
      mul_eq_zero, or_iff_left two_ne_zero]
  have collapsed : (x * 2 ^ k) >>> (fmt.bits - 1) ||| flag (shl (2 * fmt.bits) (x * 2 ^ k) 1 % 2 ^ fmt.bits ≠ 0)
      = 2 * (x * 2 ^ k / 2 ^ fmt.bits) + flag (x * 2 ^ k % 2 ^ fmt.bits ≠ 0) := by
    rw [flag_congr shifted, pred, Nat.shiftRight_eq_div_pow, width]
    refine jam id fun some => ?_
    rw [pow_succ, Nat.mod_mul]
    omega
  have cell := same k high
  have rounded := @round_top K _ _ _ _ fmt mode flags sgn plain _ low high (exp - k) (y * 2 ^ k) (by positivity)
    (by exact_mod_cast cell)
  have value : y * 2 ^ k * 2 ^ (exp - k - fmt.expBias - (2 * fmt.bits - 1 : ℕ))
      = y * 2 ^ (exp - fmt.expBias - (2 * fmt.bits - 1 : ℕ)) := by
    have exponents : exp - fmt.expBias - (2 * fmt.bits - 1 : ℕ) = k + (exp - k - fmt.expBias - (2 * fmt.bits - 1 : ℕ)) := by
      ring
    rw [exponents, zpow_add₀ two_ne_zero, zpow_natCast, mul_assoc]
  rw [collapsed]
  rwa [value] at rounded

theorem round_single (plain : fmt.Plain mode) {x : ℕ} (bottom : 2 ^ (fmt.bits - fmt.expBits) ≤ x)
    (word : x < 2 ^ fmt.bits) (exp : ℤ) {y : K} (above : x ≤ y) (below : y < x + 1) {p : Prop} [Decidable p]
    (more : p ↔ y ≠ x) :
    fmt.RoundedOnce mode sgn (y * 2 ^ (exp - fmt.expBias - (fmt.bits - 1 : ℕ))) flags
      (fmt.round sgn (fmt.normalise x exp).2 (shl fmt.bits (fmt.normalise x exp).1 1 ||| flag p) mode flags) := by
  have nonzero : 0 < x := lt_of_lt_of_le (Nat.two_pow_pos _) bottom
  obtain ⟨k, is, low, high⟩ := fmt.normalise_spec exp nonzero word
  have split := fmt.bits_split
  have near := shift_le bottom high
  obtain ⟨n, width⟩ : ∃ n, fmt.bits = n + 1 := ⟨fmt.bits - 1, by omega⟩
  have pred : fmt.bits - 1 = n := by omega
  have bit := flag_lt p
  have double : 2 ^ fmt.bits = 2 * 2 ^ n := by rw [width, pow_succ']
  rw [is]
  dsimp only
  rw [pred] at low
  have cut : shl fmt.bits (x * 2 ^ k) 1 = 2 * (x * 2 ^ k - 2 ^ n) := by
    have beyond : 2 ^ fmt.bits ≤ x * 2 ^ k * 2 := by omega
    have within : x * 2 ^ k * 2 - 2 ^ fmt.bits < 2 ^ fmt.bits := by omega
    rw [shl, Nat.shiftLeft_eq, pow_one, Nat.mod_eq_sub_mod beyond, Nat.mod_eq_of_lt within]
    omega
  have joined : shl fmt.bits (x * 2 ^ k) 1 ||| flag p = 2 * (x * 2 ^ k - 2 ^ n) + flag p := by
    rw [cut, or_flag, Nat.mul_mod_right, Nat.mul_div_cancel_left _ two_pos]
    congr 1
    exact flag_congr (by simp)
  have leading : 2 ^ fmt.bits + (2 * (x * 2 ^ k - 2 ^ n) + flag p) = x * 2 ^ (k + 1) + flag p := by
    rw [pow_succ, ← mul_assoc]
    omega
  have cell : SameCell (2 ^ (k + 1) : K) (y * 2 ^ (k + 1)) ((x * 2 ^ (k + 1) + flag p : ℕ) : K) := by
    have positive : (0 : K) < 2 ^ (k + 1) := by positivity
    have bitK : ((flag p : ℕ) : K) < 2 ^ (k + 1) := by
      have : flag p < 2 ^ (k + 1) := lt_of_lt_of_le bit (Nat.pow_le_pow_right two_pos (Nat.le_add_left 1 k))
      exact_mod_cast this
    have quotient : ((x * 2 ^ (k + 1) + flag p : ℕ) : K) / 2 ^ (k + 1) = x + (flag p : ℕ) / 2 ^ (k + 1) := by
      push_cast
      field_simp
    have fraction : ((flag p : ℕ) : K) / 2 ^ (k + 1) < 1 := (div_lt_one positive).mpr bitK
    have nonneg : (0 : K) ≤ (flag p : ℕ) / 2 ^ (k + 1) := by positivity
    refine @SameCell.of_floor K _ _ _ _ _ _ _ (x : ℤ) ?_ ?_ ?_ ?_ ?_
    · rwa [mul_div_cancel_right₀ _ positive.ne', Int.cast_natCast]
    · rwa [mul_div_cancel_right₀ _ positive.ne', Int.cast_natCast]
    · rw [quotient, Int.cast_natCast]
      linarith
    · rw [quotient, Int.cast_natCast]
      linarith
    · rw [mul_div_cancel_right₀ _ positive.ne', quotient, Int.cast_natCast, add_eq_left, div_eq_zero_iff,
        or_iff_left positive.ne', Nat.cast_eq_zero, ← not_iff_not]
      exact more.symm.trans flag_ne_zero.symm
  have positive : 0 < y := lt_of_lt_of_le (by exact_mod_cast nonzero) above
  have wordS : 2 * (x * 2 ^ k - 2 ^ n) + flag p < 2 ^ fmt.bits := by omega
  have rounded := @round_rounded fmt K _ _ _ _ mode flags sgn plain (exp - k) _ wordS (y * 2 ^ (k + 1)) (by positivity)
    (leading ▸ cell.coarsen_pow (by omega))
  have value : y * 2 ^ (k + 1) * 2 ^ (exp - k - fmt.expBias - fmt.bits : ℤ)
      = y * 2 ^ (exp - fmt.expBias - (fmt.bits - 1 : ℕ)) := by
    have exponents : exp - fmt.expBias - (fmt.bits - 1 : ℕ) = (k + 1 : ℕ) + (exp - k - fmt.expBias - fmt.bits) := by
      omega
    rw [exponents, zpow_add₀ two_ne_zero, zpow_natCast, mul_assoc]
  rw [joined]
  rwa [value] at rounded

end FPFormat

end Collapsed

end Emas.Gem5.Fplib

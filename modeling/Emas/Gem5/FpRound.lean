/-
**The rounding of the library.**

`decode` is what a pattern stands for, and `Rounded` says of a result and its flags that a magnitude was rounded once.

* `collapse_eq`, `intMant_eq`, `error_eq` — the mantissa with its leading one is cut at the digits of the format, or
  further to the left where the result is subnormal. `error` is a half and anything else of what is cut.
-/

import Emas.Gem5.Fplib

namespace Emas.Gem5.Fplib

/-! ### Bits that are collapsed -/

theorem flag_lt (p : Prop) [Decidable p] : flag p < 2 := by
  rw [flag]
  split <;> omega

theorem flag_ne_zero {p : Prop} [Decidable p] : flag p ≠ 0 ↔ p := by
  rw [flag]
  split
  next holds => exact iff_of_true one_ne_zero holds
  next fails => exact iff_of_false (fun ne => ne rfl) fails

theorem flag_congr {p q : Prop} [Decidable p] [Decidable q] (same : p ↔ q) : flag p = flag q := by
  rw [flag, flag]
  simp only [same]

theorem or_flag (x : ℕ) (p : Prop) [Decidable p] : x ||| flag p = 2 * (x / 2) + flag (x % 2 = 1 ∨ p) := by
  have split := Nat.div_add_mod x 2
  have parity := Nat.mod_two_eq_zero_or_one x
  have set : ∀ y b : ℕ, b < 2 → 2 * y ||| b = 2 * y + b := fun y b small => by
    have := Nat.two_pow_add_eq_or_of_lt (i := 1) (by simpa using small) y
    simpa using this.symm
  have low : x % 2 ||| flag p = flag (x % 2 = 1 ∨ p) := by
    rcases parity with zero | one
    · rw [zero, Nat.zero_or]
      exact flag_congr (by simp)
    · rw [one]
      by_cases holds : p <;> simp [flag, holds]
  calc x ||| flag p = 2 * (x / 2) ||| x % 2 ||| flag p := by rw [set _ _ (Nat.mod_lt _ two_pos), split]
    _ = 2 * (x / 2) ||| flag (x % 2 = 1 ∨ p) := by rw [Nat.or_assoc, low]
    _ = _ := set _ _ (flag_lt _)

theorem jam {x n : ℕ} {p : Prop} [Decidable p] (cut : x % 2 ^ n ≠ 0 → p) (some : p → x % 2 ^ (n + 1) ≠ 0) :
    x / 2 ^ n ||| flag p = 2 * (x / 2 ^ (n + 1)) + flag (x % 2 ^ (n + 1) ≠ 0) := by
  rw [or_flag, Nat.div_div_eq_div_mul, ← pow_succ]
  have split := Nat.mod_mul (a := 2 ^ n) (b := 2) (x := x)
  rw [← pow_succ] at split
  have bit := Nat.mod_two_eq_zero_or_one (x / 2 ^ n)
  have positive := Nat.two_pow_pos n
  congr 1
  apply flag_congr
  constructor
  · rintro (one | holds)
    · rw [split, one]
      omega
    · exact some holds
  · intro more
    rcases bit with zero | one
    · rw [split, zero] at more
      exact Or.inr (cut (by omega))
    · exact Or.inl one

theorem jam_jam (x n d : ℕ) :
    (2 * (x / 2 ^ n) + flag (x % 2 ^ n ≠ 0)) / 2 ^ (d + 1) = x / 2 ^ (n + d) ∧
      ((2 * (x / 2 ^ n) + flag (x % 2 ^ n ≠ 0)) % 2 ^ (d + 1) ≠ 0 ↔ x % 2 ^ (n + d) ≠ 0) := by
  have small := flag_lt (x % 2 ^ n ≠ 0)
  have half : (2 * (x / 2 ^ n) + flag (x % 2 ^ n ≠ 0)) / 2 = x / 2 ^ n := by omega
  have low : (2 * (x / 2 ^ n) + flag (x % 2 ^ n ≠ 0)) % 2 = flag (x % 2 ^ n ≠ 0) := by omega
  refine ⟨?_, ?_⟩
  · rw [pow_succ', ← Nat.div_div_eq_div_mul, half, Nat.div_div_eq_div_mul, ← pow_add]
  · have split : x % 2 ^ (n + d) = x % 2 ^ n + 2 ^ n * (x / 2 ^ n % 2 ^ d) := by
      rw [pow_add, Nat.mod_mul]
    rw [pow_succ', Nat.mod_mul, half, low, split]
    have nonzero := (Nat.two_pow_pos n).ne'
    have flagged := not_congr (flag_ne_zero (p := x % 2 ^ n ≠ 0))
    simp only [not_ne_iff] at flagged
    refine not_congr ?_
    simp only [Nat.add_eq_zero_iff, mul_eq_zero, two_ne_zero, nonzero, false_or, flagged]

theorem lsr_eq {w x : ℕ} (word : x < 2 ^ w) (d : ℕ) : lsr w x d = x / 2 ^ d := by
  rw [lsr, Nat.shiftRight_eq_div_pow]
  split
  next => rfl
  next far =>
    have beyond := Nat.pow_le_pow_right two_pos (not_lt.mp far)
    exact (Nat.div_eq_of_lt (by omega)).symm

theorem lsr_or_flag {w x : ℕ} (word : x < 2 ^ w) (d : ℕ) :
    lsr w x d ||| flag (x &&& sub w (lsl w 1 d) 1 ≠ 0) = 2 * (x / 2 ^ (d + 1)) + flag (x % 2 ^ (d + 1) ≠ 0) := by
  have masked : x &&& sub w (lsl w 1 d) 1 = x % 2 ^ d := by
    rw [lsl]
    split
    next near =>
      have below := Nat.pow_lt_pow_right one_lt_two near
      have positive := Nat.two_pow_pos d
      have mask : sub w (shl w 1 d) 1 = 2 ^ d - 1 := by
        rw [sub, shl, Nat.one_shiftLeft, Nat.mod_eq_of_lt below]
        have wraps : 2 ^ d + (2 ^ w - 1) = 2 ^ d - 1 + 2 ^ w := by omega
        rw [wraps, Nat.add_mod_right, Nat.mod_eq_of_lt (by omega)]
      rw [mask, Nat.and_two_pow_sub_one_eq_mod]
    next far =>
      have beyond := Nat.pow_le_pow_right two_pos (not_lt.mp far)
      have positive := Nat.two_pow_pos w
      have mask : sub w 0 1 = 2 ^ w - 1 := by
        rw [sub, Nat.zero_add, Nat.mod_eq_of_lt (by omega)]
      rw [mask, Nat.and_two_pow_sub_one_eq_mod, Nat.mod_eq_of_lt word, Nat.mod_eq_of_lt (by omega)]
  rw [lsr_eq word, masked]
  refine jam id fun some => ?_
  rw [pow_succ, Nat.mod_mul]
  omega

theorem mask_or_flag (x : ℕ) (p : Prop) [Decidable p] : (x &&& 3) ||| flag p = (x ||| flag p) % 4 := by
  have bit := flag_lt p
  have mask : ∀ y, y &&& 3 = y % 4 := fun y => Nat.and_two_pow_sub_one_eq_mod y 2
  rw [← mask, Nat.and_or_distrib_right, mask (flag p), Nat.mod_eq_of_lt (by omega)]

theorem low_guard (x : ℕ) (p : Prop) [Decidable p] : (2 * x + flag p) % 4 = 2 * (x % 2) + flag p := by
  have bit := flag_lt p
  omega

theorem guard_of_shift {K : Type} [Field K] [LinearOrder K] [IsStrictOrderedRing K] [FloorRing K] (x n : ℕ) :
    Guard ((x : K) / 2 ^ (n + 1)) (x / 2 ^ (n + 1)) (2 * (x / 2 ^ n % 2) + flag (x % 2 ^ n ≠ 0)) := by
  have bit := Nat.mod_two_eq_zero_or_one (x / 2 ^ n)
  have small := Nat.mod_lt x (Nat.two_pow_pos n)
  have parts := Nat.div_add_mod x (2 ^ (n + 1))
  have split : x % 2 ^ (n + 1) = x % 2 ^ n + 2 ^ n * (x / 2 ^ n % 2) := by
    rw [pow_succ, Nat.mod_mul]
  have flagged := flag_ne_zero (p := x % 2 ^ n ≠ 0)
  have bounded := flag_lt (x % 2 ^ n ≠ 0)
  have positive : (0 : K) < 2 ^ (n + 1) := by positivity
  have value : (x : K) / 2 ^ (n + 1) = (x / 2 ^ (n + 1) : ℕ) + ((x % 2 ^ (n + 1) : ℕ) : K) / 2 ^ (n + 1) := by
    conv_lhs => rw [← parts]
    push_cast
    field_simp
  have half : (1 : K) / 2 = (2 ^ n : ℕ) / 2 ^ (n + 1) := by
    push_cast
    rw [pow_succ]
    field_simp
  have rest : x % 2 ^ (n + 1) < 2 ^ (n + 1) := Nat.mod_lt _ (Nat.two_pow_pos _)
  generalize x % 2 ^ (n + 1) = cut at *
  constructor
  · rw [value]
    exact le_add_of_nonneg_right (by positivity)
  · rw [value, add_lt_add_iff_left, div_lt_one positive]
    exact_mod_cast rest
  · rw [value, add_eq_left, div_eq_zero_iff, or_iff_left positive.ne', Nat.cast_eq_zero]
    rcases bit with zero | one <;> grind
  · rw [value, half, add_lt_add_iff_left, div_lt_div_iff_of_pos_right positive, Nat.cast_lt]
    rcases bit with zero | one
    · rw [zero, Nat.mul_zero, Nat.add_zero] at split
      omega
    · rw [one] at split
      omega
  · rw [value, half, add_right_inj, div_left_inj' positive.ne', Nat.cast_inj]
    rcases bit with zero | one <;> grind

/-! ### Patterns -/

namespace FPFormat

variable (fmt : FPFormat)

theorem bits_split : fmt.bits = fmt.mantBits + fmt.expBits + 1 := by
  have := fmt.exp_le
  rw [mantBits]
  omega

theorem expBits_lt : fmt.expBits + 3 ≤ fmt.mantBits := by
  have := fmt.exp_le
  rw [mantBits]
  omega

theorem expBias_pos : 0 < fmt.expBias := by
  have bias := fmt.bias_eq
  have := Nat.pow_le_pow_right two_pos fmt.exp_pos
  omega

theorem expInf_eq : fmt.expInf = 2 * fmt.expBias + 1 := by
  have := fmt.bias_eq
  rw [expInf, Nat.one_shiftLeft]
  omega

theorem exponent_eq (x : ℕ) : fmt.exponent x = x / 2 ^ fmt.mantBits % 2 ^ fmt.expBits := by
  rw [exponent, Nat.one_shiftLeft, Nat.and_two_pow_sub_one_eq_mod, Nat.shiftRight_eq_div_pow]

theorem mantissa_eq (x : ℕ) : fmt.mantissa x = x % 2 ^ fmt.mantBits := by
  rw [mantissa, Nat.one_shiftLeft, Nat.and_two_pow_sub_one_eq_mod]

theorem mantissa_lt (x : ℕ) : fmt.mantissa x < 2 ^ fmt.mantBits := by
  rw [mantissa_eq]
  exact Nat.mod_lt _ (Nat.two_pow_pos _)

theorem pack_eq (sgn : Bool) {exp : ℕ} (mnt : ℕ) (small : exp ≤ fmt.expInf) :
    fmt.pack sgn exp mnt = (sgn.toNat * 2 ^ fmt.expBits + exp) * 2 ^ fmt.mantBits + fmt.mantissa mnt ∧
      sgn.toNat * 2 ^ fmt.expBits + exp < 2 ^ (fmt.expBits + 1) := by
  have bias := fmt.bias_eq
  have inf := fmt.expInf_eq
  have below : exp < 2 ^ fmt.expBits := by omega
  have top : sgn.toNat * 2 ^ fmt.expBits + exp < 2 ^ (fmt.expBits + 1) := by
    have := Bool.toNat_le sgn
    rw [pow_succ]
    nlinarith
  refine ⟨?_, top⟩
  have split := fmt.bits_split
  have position : fmt.bits - 1 = fmt.expBits + fmt.mantBits := by omega
  have high : sgn.toNat <<< (fmt.bits - 1) ||| exp <<< fmt.mantBits
      = (sgn.toNat * 2 ^ fmt.expBits + exp) <<< fmt.mantBits := by
    rw [position, Nat.shiftLeft_add, ← Nat.shiftLeft_or_distrib, Nat.shiftLeft_eq sgn.toNat, mul_comm,
      ← Nat.two_pow_add_eq_or_of_lt below]
  rw [pack, high, Nat.shiftLeft_eq, mul_comm, ← Nat.two_pow_add_eq_or_of_lt (fmt.mantissa_lt mnt), Nat.mod_eq_of_lt]
  have low := fmt.mantissa_lt mnt
  have width : 2 ^ fmt.bits = 2 ^ fmt.mantBits * 2 ^ (fmt.expBits + 1) := by
    rw [split, ← pow_add]
    rfl
  rw [width]
  calc _ < 2 ^ fmt.mantBits * (sgn.toNat * 2 ^ fmt.expBits + exp) + 2 ^ fmt.mantBits := Nat.add_lt_add_left low _
    _ = 2 ^ fmt.mantBits * (sgn.toNat * 2 ^ fmt.expBits + exp + 1) := by ring
    _ ≤ _ := Nat.mul_le_mul_left _ top

theorem pack_lt (sgn : Bool) (exp mnt : ℕ) : fmt.pack sgn exp mnt < 2 ^ fmt.bits := Nat.mod_lt _ (Nat.two_pow_pos _)

theorem exponent_pack (sgn : Bool) {exp : ℕ} (mnt : ℕ) (small : exp ≤ fmt.expInf) :
    fmt.exponent (fmt.pack sgn exp mnt) = exp := by
  have bias := fmt.bias_eq
  have inf := fmt.expInf_eq
  rw [exponent_eq, (fmt.pack_eq sgn mnt small).1, mul_comm, Nat.mul_add_div (Nat.two_pow_pos _),
    Nat.div_eq_of_lt (fmt.mantissa_lt mnt), Nat.add_zero, mul_comm, Nat.mul_add_mod, Nat.mod_eq_of_lt (by omega)]

theorem mantissa_pack (sgn : Bool) {exp : ℕ} (mnt : ℕ) (small : exp ≤ fmt.expInf) :
    fmt.mantissa (fmt.pack sgn exp mnt) = fmt.mantissa mnt := by
  rw [mantissa_eq, (fmt.pack_eq sgn mnt small).1, mul_comm, Nat.mul_add_mod, Nat.mod_eq_of_lt (fmt.mantissa_lt mnt)]

theorem sign_pack (sgn : Bool) {exp : ℕ} (mnt : ℕ) (small : exp ≤ fmt.expInf) :
    decide (fmt.pack sgn exp mnt >>> (fmt.bits - 1) ≠ 0) = sgn := by
  have bias := fmt.bias_eq
  have inf := fmt.expInf_eq
  have split := fmt.bits_split
  have position : fmt.bits - 1 = fmt.mantBits + fmt.expBits := by omega
  have sign : fmt.pack sgn exp mnt >>> (fmt.bits - 1) = sgn.toNat := by
    rw [position, Nat.shiftRight_eq_div_pow, pow_add, ← Nat.div_div_eq_div_mul, (fmt.pack_eq sgn mnt small).1, mul_comm,
      Nat.mul_add_div (Nat.two_pow_pos _), Nat.div_eq_of_lt (fmt.mantissa_lt mnt), Nat.add_zero, mul_comm,
      Nat.mul_add_div (Nat.two_pow_pos _), Nat.div_eq_of_lt (by omega), Nat.add_zero]
  rw [sign]
  cases sgn <;> rfl

/-! ### What a pattern stands for -/

/-- The format of the magnitudes. -/
def binary : BinaryFormat := ⟨fmt.mantBits, 1 - fmt.expBias, fmt.expBias⟩

/-- What a pattern stands for. -/
def decode (K : Type) [Field K] (x : ℕ) : Datum K :=
  let neg := decide (x >>> (fmt.bits - 1) ≠ 0)
  if fmt.exponent x = fmt.expInf then if fmt.mantissa x = 0 then .infinity neg else .nan
  else if fmt.exponent x = 0 then .finite neg (fmt.mantissa x * (2 : ℕ) ^ (1 - fmt.expBias - fmt.mantBits : ℤ))
  else .finite neg ((2 ^ fmt.mantBits + fmt.mantissa x : ℕ) * (2 : ℕ) ^ (fmt.exponent x - fmt.expBias - fmt.mantBits : ℤ))

/-- Neither the flush to zero nor the alternative format. -/
structure Plain (mode : ℕ) : Prop where
  flush : mode &&& fmt.flush = 0
  alternative : mode &&& fmt.alternative = 0

/-- A magnitude is rounded once, and the flag says whether that changes it. -/
structure Rounded {K : Type} [Field K] [LinearOrder K] [FloorRing K] (mode : ℕ) (neg : Bool) (v : K) (flags : ℕ)
    (result : ℕ × ℕ) : Prop where
  word : result.1 < 2 ^ fmt.bits
  rounded : fmt.decode K result.1 = fmt.binary.round (rounding mode) neg v
  inexact : result.2 &&& FPLIB_IXC ≠ 0 ↔ flags &&& FPLIB_IXC ≠ 0 ∨ fmt.decode K result.1 ≠ .finite neg v

/-- The flags of a magnitude that is rounded once: none, or the result is inexact, below the normal magnitudes or too
large. -/
structure Flagged {K : Type} [Field K] [LinearOrder K] [FloorRing K] (mode : ℕ) (neg : Bool) (v : K)
    (flags flags' : ℕ) : Prop where
  exact : fmt.binary.round (rounding mode) neg v = .finite neg v → flags' = flags
  inexact : fmt.binary.round (rounding mode) neg v ≠ .finite neg v → 2 ^ fmt.binary.emin ≤ v →
    fmt.binary.roundUnbounded (rounding mode) neg v < 2 ^ (fmt.binary.emax + 1) → flags' = flags ||| FPLIB_IXC
  underflow : fmt.binary.round (rounding mode) neg v ≠ .finite neg v → v < 2 ^ fmt.binary.emin →
    flags' = flags ||| (FPLIB_UFC ||| FPLIB_IXC)
  overflow : 2 ^ (fmt.binary.emax + 1) ≤ fmt.binary.roundUnbounded (rounding mode) neg v →
    flags' = flags ||| (FPLIB_OFC ||| FPLIB_IXC)

/-- Rounded once, with the flags of that. -/
structure RoundedOnce {K : Type} [Field K] [LinearOrder K] [FloorRing K] (mode : ℕ) (neg : Bool) (v : K) (flags : ℕ)
    (result : ℕ × ℕ) : Prop extends fmt.Rounded mode neg v flags result where
  flagged : fmt.Flagged mode neg v flags result.2

/-- A mantissa of a biased exponent has its leading one, or the exponent is the least. -/
def Fits (biasedExp mnt : ℕ) : Prop :=
  (biasedExp = 0 ∧ mnt < 2 ^ fmt.mantBits) ∨ (1 ≤ biasedExp ∧ 2 ^ fmt.mantBits ≤ mnt ∧ mnt < 2 ^ (fmt.mantBits + 1))

/-- The magnitude of a mantissa and a biased exponent. -/
def magnitude (K : Type) [Field K] (biasedExp mnt : ℕ) : K :=
  mnt * (2 : ℕ) ^ ((max biasedExp 1 : ℕ) - fmt.expBias - fmt.mantBits : ℤ)

section Decoding

variable {fmt} {K : Type} [Field K] {biasedExp mnt : ℕ} {sgn : Bool}

theorem decode_eq_ite (x : ℕ) : fmt.decode K x =
    let neg := decide (x >>> (fmt.bits - 1) ≠ 0)
    if fmt.exponent x = fmt.expInf then if fmt.mantissa x = 0 then .infinity neg else .nan
    else if fmt.exponent x = 0 then .finite neg (fmt.mantissa x * 2 ^ (1 - fmt.expBias - fmt.mantBits : ℤ))
    else .finite neg ((2 ^ fmt.mantBits + fmt.mantissa x) * 2 ^ (fmt.exponent x - fmt.expBias - fmt.mantBits : ℤ)) := by
  rw [decode, Nat.cast_add, Nat.cast_pow, Nat.cast_ofNat]

theorem magnitude_eq_mul : fmt.magnitude K biasedExp mnt =
    mnt * 2 ^ ((max biasedExp 1 : ℕ) - fmt.expBias - fmt.mantBits : ℤ) := by
  rw [magnitude, Nat.cast_ofNat]

theorem decode_pack (fits : fmt.Fits biasedExp mnt) (small : biasedExp < fmt.expInf) :
    fmt.decode K (fmt.pack sgn biasedExp mnt) = .finite sgn (fmt.magnitude K biasedExp mnt) := by
  rw [decode_eq_ite, exponent_pack _ _ _ small.le, mantissa_pack _ _ _ small.le, sign_pack _ _ _ small.le,
    if_neg small.ne, magnitude_eq_mul, mantissa_eq]
  rcases fits with ⟨rfl, below⟩ | ⟨above, low, high⟩
  · rw [if_pos rfl, Nat.mod_eq_of_lt below, Nat.max_eq_right (zero_le_one (α := ℕ))]
    norm_num
  · have digits : mnt % 2 ^ fmt.mantBits = mnt - 2 ^ fmt.mantBits := by
      rw [Nat.mod_eq_sub_mod low, Nat.mod_eq_of_lt]
      rw [pow_succ] at high
      omega
    rw [if_neg (by omega), digits, Nat.cast_sub low, Nat.max_eq_left above]
    push_cast
    rw [add_sub_cancel]

theorem decode_normal {x e m : ℕ} {neg : Bool} (sign : decide (x >>> (fmt.bits - 1) ≠ 0) = neg)
    (field : fmt.exponent x = e) (digits : fmt.mantissa x = m) (normal : e ≠ 0) (finite : e ≠ fmt.expInf) :
    fmt.decode K x = .finite neg ((2 ^ fmt.mantBits + m) * 2 ^ (e - fmt.expBias - fmt.mantBits : ℤ)) := by
  rw [decode_eq_ite, sign, field, digits, if_neg finite, if_neg normal]

theorem decode_zero : fmt.decode K (fmt.zero sgn) = .finite sgn 0 := by
  have inf := fmt.expInf_eq
  rw [zero, decode_pack (Or.inl ⟨rfl, Nat.two_pow_pos _⟩) (by omega), magnitude_eq_mul, Nat.cast_zero, zero_mul]

theorem decode_infinity : fmt.decode K (fmt.infinity sgn) = .infinity sgn := by
  rw [infinity, decode_eq_ite, exponent_pack _ _ _ le_rfl, mantissa_pack _ _ _ le_rfl, sign_pack _ _ _ le_rfl,
    if_pos rfl, if_pos (by rw [mantissa_eq, Nat.zero_mod])]

theorem decode_maxNormal : fmt.decode K (fmt.maxNormal sgn) = .finite sgn (fmt.binary.largest K) := by
  have inf := fmt.expInf_eq
  have bias := fmt.bias_eq
  have split := fmt.bits_split
  have positive := Nat.two_pow_pos fmt.mantBits
  have wide : 2 ≤ 2 * (fmt.expBias + 1) := by omega
  have ones : fmt.mantissa (2 ^ fmt.bits - 1) = 2 ^ fmt.mantBits - 1 := by
    have width : 2 ^ fmt.bits = 2 ^ fmt.mantBits * 2 ^ (fmt.expBits + 1) := by
      rw [split, ← pow_add]
      rfl
    have last : 2 ^ fmt.bits - 1 = 2 ^ fmt.mantBits - 1 + 2 ^ fmt.mantBits * (2 ^ (fmt.expBits + 1) - 1) := by
      rw [width, Nat.mul_sub]
      have := Nat.mul_le_mul_left (2 ^ fmt.mantBits) (Nat.one_le_two_pow (n := fmt.expBits + 1))
      omega
    rw [mantissa_eq, last, Nat.add_mul_mod_self_left, Nat.mod_eq_of_lt (by omega)]
  have bias_pos := fmt.expBias_pos
  rw [maxNormal, decode_eq_ite, exponent_pack _ _ _ (by omega), mantissa_pack _ _ _ (by omega), sign_pack _ _ _ (by omega),
    if_neg (by omega), if_neg (by omega), ones, BinaryFormat.largest, BinaryFormat.quantum, binary, inf]
  have top : ((2 * fmt.expBias + 1 - 1 : ℕ) : ℤ) - fmt.expBias = fmt.expBias := by omega
  rw [top, Nat.cast_sub positive]
  push_cast
  congr 2
  ring

variable [LinearOrder K] [IsStrictOrderedRing K] [FloorRing K]

theorem Fits.magnitude_lt_iff (fits : fmt.Fits biasedExp mnt) :
    fmt.magnitude K biasedExp mnt < 2 ^ (fmt.binary.emax + 1) ↔ biasedExp < fmt.expInf := by
  have inf := fmt.expInf_eq
  have scale : ∀ (e : ℤ) (n : ℕ), (2 : K) ^ (e + n) = 2 ^ n * 2 ^ e := fun e n => by
    rw [zpow_add₀ two_ne_zero, zpow_natCast, mul_comm]
  have positive : (0 : K) < 2 ^ ((max biasedExp 1 : ℕ) - fmt.expBias - fmt.mantBits : ℤ) := zpow_pos two_pos _
  have below : fmt.magnitude K biasedExp mnt < 2 ^ ((max biasedExp 1 : ℕ) - fmt.expBias + 1 : ℤ) := by
    have exponent : ((max biasedExp 1 : ℕ) - fmt.expBias + 1 : ℤ)
        = ((max biasedExp 1 : ℕ) - fmt.expBias - fmt.mantBits : ℤ) + (fmt.mantBits + 1 : ℕ) := by
      push_cast
      ring
    rw [exponent, scale, magnitude_eq_mul, mul_lt_mul_iff_left₀ positive]
    have small : mnt < 2 ^ (fmt.mantBits + 1) := by
      rw [pow_succ]
      rcases fits with ⟨-, below⟩ | ⟨-, -, high⟩
      · omega
      · rwa [pow_succ] at high
    exact_mod_cast small
  constructor
  · intro small
    rcases fits with ⟨rfl, -⟩ | ⟨above, low, -⟩
    · omega
    · by_contra large
      have atLeast : (2 : K) ^ ((biasedExp : ℤ) - fmt.expBias) ≤ fmt.magnitude K biasedExp mnt := by
        have exponent : (biasedExp : ℤ) - fmt.expBias = (biasedExp - fmt.expBias - fmt.mantBits : ℤ) + fmt.mantBits := by
          ring
        rw [Nat.max_eq_left above] at positive
        rw [exponent, scale, magnitude_eq_mul, Nat.max_eq_left above, mul_le_mul_iff_left₀ positive]
        exact_mod_cast low
      have exponents := (zpow_lt_zpow_iff_right₀ (one_lt_two (α := K))).mp (lt_of_le_of_lt atLeast small)
      rw [binary] at exponents
      dsimp only at exponents
      omega
  · intro small
    have bias := fmt.expBias_pos
    refine lt_of_lt_of_le below (zpow_le_zpow_right₀ one_le_two ?_)
    rw [binary]
    dsimp only
    omega

theorem Fits.increment (fits : fmt.Fits biasedExp mnt) :
    fmt.Fits (fmt.increment biasedExp mnt).1 (fmt.increment biasedExp mnt).2 ∧
      fmt.magnitude K (fmt.increment biasedExp mnt).1 (fmt.increment biasedExp mnt).2
        = fmt.magnitude K biasedExp (mnt + 1) := by
  have positive := Nat.two_pow_pos fmt.mantBits
  have double : 2 ^ (fmt.mantBits + 1) = 2 * 2 ^ fmt.mantBits := pow_succ' 2 _
  rw [FPFormat.increment, Nat.one_shiftLeft, Nat.shiftLeft_eq]
  rcases fits with ⟨rfl, below⟩ | ⟨above, low, high⟩
  · rw [if_neg (by omega)]
    split
    next full => exact ⟨Or.inr ⟨le_rfl, full.ge, by omega⟩, rfl⟩
    next partly => exact ⟨Or.inl ⟨rfl, by omega⟩, rfl⟩
  · have single : ¬mnt + 1 = 2 ^ fmt.mantBits := by omega
    rw [if_neg single]
    split
    next full =>
      have half : (mnt + 1) >>> 1 = 2 ^ fmt.mantBits := by
        rw [Nat.shiftRight_eq_div_pow, full]
        omega
      rw [half]
      refine ⟨Or.inr ⟨by omega, le_rfl, by omega⟩, ?_⟩
      rw [magnitude_eq_mul, magnitude_eq_mul, full, Nat.max_eq_left above, Nat.max_eq_left (by omega)]
      have exponent : ((biasedExp + 1 : ℕ) - fmt.expBias - fmt.mantBits : ℤ)
          = (biasedExp - fmt.expBias - fmt.mantBits : ℤ) + 1 := by
        push_cast
        ring
      rw [exponent, zpow_add_one₀ two_pos.ne']
      push_cast
      ring
    next partly => exact ⟨Or.inr ⟨above, by omega, by omega⟩, rfl⟩

end Decoding

/-! ### The digits that are kept -/

section Digits

variable {fmt} {mnt : ℕ} (word : mnt < 2 ^ fmt.bits) (exp : ℤ)

include word

theorem collapse_eq : fmt.collapse mnt = 2 * ((2 ^ fmt.bits + mnt) / 2 ^ fmt.expBits)
    + flag ((2 ^ fmt.bits + mnt) % 2 ^ fmt.expBits ≠ 0) := by
  have split := fmt.bits_split
  have enough := fmt.exp_pos
  have digits := fmt.expBits_lt
  obtain ⟨level, is⟩ : ∃ level, fmt.expBits = level + 1 := ⟨fmt.expBits - 1, by omega⟩
  have width : 2 ^ fmt.bits = 2 ^ level * 2 ^ (fmt.mantBits + 2) := by
    rw [split, is, ← pow_add]
    congr 1
    omega
  have whole : (2 ^ fmt.bits + mnt) / 2 ^ level = 2 ^ (fmt.mantBits + 2) + mnt / 2 ^ level := by
    rw [width, Nat.mul_add_div (Nat.two_pow_pos _)]
  have below : mnt / 2 ^ level < 2 ^ (fmt.mantBits + 2) := by
    rw [Nat.div_lt_iff_lt_mul (Nat.two_pow_pos _), mul_comm, ← width]
    exact word
  have high : 4 <<< fmt.mantBits ||| mnt >>> level = (2 ^ fmt.bits + mnt) / 2 ^ level := by
    rw [whole, Nat.shiftRight_eq_div_pow, Nat.shiftLeft_eq]
    have position : 4 * 2 ^ fmt.mantBits = 2 ^ (fmt.mantBits + 2) * 1 := by
      rw [pow_add]
      ring
    rw [position, ← Nat.two_pow_add_eq_or_of_lt below, mul_one]
  have cut : (2 ^ fmt.bits + mnt) % 2 ^ fmt.expBits = mnt % 2 ^ fmt.expBits := by
    have width' : 2 ^ fmt.bits = 2 ^ fmt.expBits * 2 ^ (fmt.mantBits + 1) := by
      rw [split, ← pow_add]
      congr 1
      omega
    rw [width', Nat.mul_add_mod]
  have collected := jam (x := 2 ^ fmt.bits + mnt) (n := level) (p := mnt &&& (1 <<< fmt.expBits - 1) ≠ 0)
    (fun more => by
      rw [Nat.one_shiftLeft, Nat.and_two_pow_sub_one_eq_mod, ← cut, is, pow_succ, Nat.mod_mul]
      omega)
    (fun more => by
      rw [Nat.one_shiftLeft, Nat.and_two_pow_sub_one_eq_mod, ← cut, is] at more
      exact more)
  have pred : fmt.expBits - 1 = level := by omega
  rw [collapse, pred, high, collected, ← is, Nat.mod_eq_of_lt]
  have top : (2 ^ fmt.bits + mnt) / 2 ^ fmt.expBits < 2 ^ (fmt.mantBits + 2) := by
    rw [Nat.div_lt_iff_lt_mul (Nat.two_pow_pos _), ← pow_add]
    have wider : 2 ^ (fmt.mantBits + 2 + fmt.expBits) = 2 * 2 ^ fmt.bits := by
      rw [split, ← pow_succ']
      congr 1
      omega
    omega
  have small := flag_lt ((2 ^ fmt.bits + mnt) % 2 ^ fmt.expBits ≠ 0)
  have fits : 2 * 2 ^ (fmt.mantBits + 2) ≤ 2 ^ fmt.bits := by
    rw [← pow_succ']
    exact Nat.pow_le_pow_right two_pos (by omega)
  omega

omit word in
theorem collapse_lt : fmt.collapse mnt < 2 ^ fmt.bits := Nat.mod_lt _ (Nat.two_pow_pos _)

theorem intMant_eq : fmt.intMant exp (fmt.collapse mnt)
    = (2 ^ fmt.bits + mnt) / 2 ^ (fmt.expBits + (1 - exp).toNat + 1) := by
  rw [intMant]
  split
  next normal =>
    have none : (1 - exp).toNat = 0 := by omega
    rw [Nat.shiftRight_eq_div_pow, collapse_eq word, none]
    exact (jam_jam _ _ 1).1
  next subnormal =>
    have more : (3 - exp).toNat = (1 - exp).toNat + 1 + 1 := by omega
    rw [lsr_eq collapse_lt, collapse_eq word, more]
    exact (jam_jam _ _ ((1 - exp).toNat + 1)).1

theorem error_eq : fmt.error exp (fmt.collapse mnt)
    = 2 * ((2 ^ fmt.bits + mnt) / 2 ^ (fmt.expBits + (1 - exp).toNat) % 2)
      + flag ((2 ^ fmt.bits + mnt) % 2 ^ (fmt.expBits + (1 - exp).toNat) ≠ 0) := by
  rw [error]
  split
  next normal =>
    have none : (1 - exp).toNat = 0 := by omega
    rw [none, Nat.add_zero, ← low_guard, ← collapse_eq word]
    exact Nat.and_two_pow_sub_one_eq_mod _ 2
  next subnormal =>
    obtain ⟨whole, rest⟩ := jam_jam (2 ^ fmt.bits + mnt) fmt.expBits (1 - exp).toNat
    rw [mask_or_flag, lsr_or_flag collapse_lt, collapse_eq word, whole, flag_congr rest, low_guard]

end Digits

/-! ### The result -/

section Round

variable {fmt} {K : Type} [Field K] [LinearOrder K] [IsStrictOrderedRing K] [FloorRing K] {mode flags : ℕ} {sgn : Bool}

theorem zero_rounded (neg : Bool) : fmt.RoundedOnce mode neg (0 : K) flags (fmt.zero neg, flags) := by
  have zero : fmt.binary.round (rounding mode) neg (0 : K) = .finite neg 0 := BinaryFormat.round_zero
  refine ⟨⟨pack_lt .., ?_, ?_⟩, fun _ => rfl, fun ne => absurd zero ne, fun ne => absurd zero ne, fun large => ?_⟩
  · rw [decode_zero, zero]
  · rw [decode_zero]
    simp
  · rw [BinaryFormat.roundUnbounded_zero] at large
    exact absurd (zpow_pos two_pos _) (not_lt.mpr large)

theorem mode_cases (mode : ℕ) : mode &&& 3 = 0 ∨ mode &&& 3 = 1 ∨ mode &&& 3 = 2 ∨ mode &&& 3 = 3 := by
  have mask : mode &&& 3 = mode % 4 := Nat.and_two_pow_sub_one_eq_mod mode 2
  omega

theorem roundsUp_iff {whole error : ℕ} (small : error < 4) :
    FPFormat.roundsUp (mode &&& 3) sgn whole error = true ↔ Emas.roundsUp (rounding mode) sgn whole error := by
  have odd : whole &&& 1 = whole % 2 := Nat.and_two_pow_sub_one_eq_mod whole 1
  have large : 2 < error ↔ error = 3 := by omega
  rw [FPFormat.roundsUp, Emas.roundsUp, rounding, odd, large, decide_eq_true_iff]
  rcases mode_cases mode with is | is | is | is <;> rw [is] <;> cases sgn <;>
    simp [FPLIB_RN, FPLIB_RP, FPLIB_RM, RoundingMode.outward]

theorem overflows_iff : (mode &&& 3 = FPLIB_RN ∨ (mode &&& 3 = FPLIB_RP ∧ sgn = false)
    ∨ (mode &&& 3 = FPLIB_RM ∧ sgn = true)) ↔ (rounding mode).overflows sgn := by
  rw [rounding, RoundingMode.overflows]
  rcases mode_cases mode with is | is | is | is <;> rw [is] <;> cases sgn <;>
    simp [FPLIB_RN, FPLIB_RP, FPLIB_RM, RoundingMode.outward]

theorem inexact_set (flags : ℕ) {other : ℕ} (sets : other &&& FPLIB_IXC = FPLIB_IXC) :
    (flags ||| other) &&& FPLIB_IXC ≠ 0 := by
  rw [Nat.and_or_distrib_right, sets]
  exact fun none => absurd (Nat.or_eq_zero_iff.mp none).2 (by decide)

theorem finish_spec (plain : fmt.Plain mode) {biasedExp mnt error : ℕ} (fits : fmt.Fits biasedExp mnt) :
    fmt.decode K (fmt.finish sgn biasedExp mnt error (mode &&& 3) mode flags).1
        = (if fmt.magnitude K biasedExp mnt < 2 ^ (fmt.binary.emax + 1) then
            .finite sgn (fmt.magnitude K biasedExp mnt) else fmt.binary.overflow K (rounding mode) sgn) ∧
      (fmt.finish sgn biasedExp mnt error (mode &&& 3) mode flags).2
        = (if fmt.magnitude K biasedExp mnt < 2 ^ (fmt.binary.emax + 1) then
            if error ≠ 0 then flags ||| FPLIB_IXC else flags else flags ||| (FPLIB_OFC ||| FPLIB_IXC)) ∧
      (fmt.finish sgn biasedExp mnt error (mode &&& 3) mode flags).1 < 2 ^ fmt.bits := by
  rw [finish, plain.alternative]
  simp only [fits.magnitude_lt_iff, true_and, ne_eq, not_true_eq_false, false_and, if_false]
  by_cases large : biasedExp ≥ fmt.expInf
  · rw [if_pos large, if_neg (not_lt.mpr large)]
    refine ⟨?_, (if_neg (not_lt.mpr large)).symm, ?_⟩
    · rw [BinaryFormat.overflow]
      simp only [overflows_iff]
      split
      next => exact decode_infinity
      next => exact decode_maxNormal
    · dsimp only
      split
      next => exact pack_lt ..
      next => exact pack_lt ..
  · have small := not_le.mp large
    rw [if_neg large, if_pos small]
    exact ⟨decode_pack fits small, (if_pos small).symm, pack_lt ..⟩

theorem fits_digits {mnt : ℕ} (word : mnt < 2 ^ fmt.bits) (exp : ℤ) : fmt.Fits (if exp > 0 then exp.toNat else 0)
    ((2 ^ fmt.bits + mnt) / 2 ^ (fmt.expBits + (1 - exp).toNat + 1)) := by
  have split := fmt.bits_split
  have width : ∀ n, 2 ^ (fmt.mantBits + n) * 2 ^ (fmt.expBits + 1) = 2 ^ n * 2 ^ fmt.bits := fun n => by
    rw [← pow_add, ← pow_add, split]
    congr 1
    omega
  by_cases normal : exp > 0
  · have none : (1 - exp).toNat = 0 := by omega
    rw [if_pos normal, none, Nat.add_zero]
    refine Or.inr ⟨by omega, ?_, ?_⟩
    · rw [Nat.le_div_iff_mul_le (Nat.two_pow_pos _), ← Nat.add_zero fmt.mantBits, width]
      omega
    · rw [Nat.div_lt_iff_lt_mul (Nat.two_pow_pos _), width]
      omega
  · rw [if_neg normal]
    refine Or.inl ⟨rfl, ?_⟩
    rw [Nat.div_lt_iff_lt_mul (Nat.two_pow_pos _), ← pow_add]
    have wider : 2 * 2 ^ fmt.bits ≤ 2 ^ (fmt.mantBits + (fmt.expBits + (1 - exp).toNat + 1)) := by
      rw [← pow_succ']
      exact Nat.pow_le_pow_right two_pos (by omega)
    omega

theorem round_eq (plain : fmt.Plain mode) {exp : ℤ} {mnt : ℕ} (word : mnt < 2 ^ fmt.bits) {whole error biasedExp : ℕ}
    {rounded : ℕ × ℕ} (digits : whole = (2 ^ fmt.bits + mnt) / 2 ^ (fmt.expBits + (1 - exp).toNat + 1))
    (guard : error = 2 * ((2 ^ fmt.bits + mnt) / 2 ^ (fmt.expBits + (1 - exp).toNat) % 2)
      + flag ((2 ^ fmt.bits + mnt) % 2 ^ (fmt.expBits + (1 - exp).toNat) ≠ 0))
    (biased : biasedExp = if exp > 0 then exp.toNat else 0)
    (stepped : rounded = if FPFormat.roundsUp (mode &&& 3) sgn whole error then fmt.increment biasedExp whole
      else (biasedExp, whole)) :
    fmt.round sgn exp mnt mode flags = fmt.finish sgn rounded.1 rounded.2 error (mode &&& 3) mode
      (if biasedExp = 0 ∧ error ≠ 0 then flags ||| FPLIB_UFC else flags) := by
  have even : ¬mode &&& 3 = FPRounding_ODD := fun is => by
    rcases mode_cases mode with is' | is' | is' | is' <;> exact absurd (is'.symm.trans is) (by decide)
  rw [FPFormat.round, round_, plain.flush, if_neg (fun both => both.1 rfl)]
  simp only [intMant_eq word, error_eq word, ← digits, ← guard, ← biased, ← stepped, even, and_false, if_false]

omit [IsStrictOrderedRing K] in
theorem flags_of {v : K} {flags' error biasedExp : ℕ}
    (raised : flags' = if fmt.binary.roundUnbounded (rounding mode) sgn v < 2 ^ (fmt.binary.emax + 1) then
        if error ≠ 0 then (if biasedExp = 0 ∧ error ≠ 0 then flags ||| FPLIB_UFC else flags) ||| FPLIB_IXC
        else if biasedExp = 0 ∧ error ≠ 0 then flags ||| FPLIB_UFC else flags
      else (if biasedExp = 0 ∧ error ≠ 0 then flags ||| FPLIB_UFC else flags) ||| (FPLIB_OFC ||| FPLIB_IXC))
    (self : fmt.binary.round (rounding mode) sgn v = .finite sgn v ↔
      error = 0 ∧ fmt.binary.roundUnbounded (rounding mode) sgn v < 2 ^ (fmt.binary.emax + 1))
    (tiny : v < 2 ^ fmt.binary.emin ↔ biasedExp = 0)
    (large : ¬fmt.binary.roundUnbounded (rounding mode) sgn v < 2 ^ (fmt.binary.emax + 1) → biasedExp ≠ 0) :
    fmt.Flagged mode sgn v flags flags' ∧
      (flags' &&& FPLIB_IXC ≠ 0 ↔ flags &&& FPLIB_IXC ≠ 0 ∨ fmt.binary.round (rounding mode) sgn v ≠ .finite sgn v) := by
  have flagged : fmt.Flagged mode sgn v flags flags' := by
    refine ⟨fun is => ?_, fun ne above inside => ?_, fun ne below => ?_, fun beyond => ?_⟩
    · rw [raised, if_pos (self.mp is).2, if_neg (not_not.mpr (self.mp is).1), if_neg fun both => both.2 (self.mp is).1]
    · rw [raised, if_pos inside, if_pos fun zero => ne (self.mpr ⟨zero, inside⟩), if_neg fun both => ?_]
      exact absurd (tiny.mpr both.1) (not_lt.mpr above)
    · have zero := tiny.mp below
      have inside := by_contra fun beyond => large beyond zero
      have some : error ≠ 0 := fun zero => ne (self.mpr ⟨zero, inside⟩)
      rw [raised, if_pos inside, if_pos some, if_pos ⟨zero, some⟩, Nat.or_assoc]
    · have beyond := not_lt.mpr beyond
      rw [raised, if_neg beyond, if_neg fun both => large beyond both.1]
  refine ⟨flagged, ?_⟩
  by_cases is : fmt.binary.round (rounding mode) sgn v = .finite sgn v
  · rw [flagged.exact is, iff_self_or]
    exact fun ne => absurd is ne
  · refine iff_of_true ?_ (Or.inr is)
    by_cases inside : fmt.binary.roundUnbounded (rounding mode) sgn v < 2 ^ (fmt.binary.emax + 1)
    · by_cases below : v < 2 ^ fmt.binary.emin
      · rw [flagged.underflow is below]
        exact inexact_set flags (by decide)
      · rw [flagged.inexact is (not_lt.mp below) inside]
        exact inexact_set flags (by decide)
    · rw [flagged.overflow (not_lt.mp inside)]
      exact inexact_set flags (by decide)

/-- **`round` rounds once.** It is enough that its mantissa is in the same cell of half a quantum. -/
theorem round_rounded (plain : fmt.Plain mode) {exp : ℤ} {mnt : ℕ} (word : mnt < 2 ^ fmt.bits) {y : K}
    (positive : 0 < y) (same : SameCell (2 ^ (fmt.expBits + (1 - exp).toNat) : K) y ((2 ^ fmt.bits + mnt : ℕ) : K)) :
    fmt.RoundedOnce mode sgn (y * 2 ^ (exp - fmt.expBias - fmt.bits : ℤ)) flags (fmt.round sgn exp mnt mode flags) := by
  have split := fmt.bits_split
  set d := (1 - exp).toNat with shift
  set S := 2 ^ fmt.bits + mnt with sum
  set u : K := 2 ^ (exp - fmt.expBias - fmt.bits : ℤ) with unit
  have unit_pos : 0 < u := zpow_pos two_pos _
  have scaled : ∀ n : ℕ, (2 : K) ^ (exp - fmt.expBias - fmt.bits + n) = 2 ^ n * u := fun n => by
    rw [zpow_add₀ two_ne_zero, zpow_natCast, mul_comm]
  have quantum : fmt.binary.quantum K (exp + d - fmt.expBias) = 2 ^ (fmt.expBits + d + 1) * u := by
    rw [BinaryFormat.quantum, ← scaled]
    congr 1
    rw [split, binary]
    push_cast
    ring
  have cell : SameCell (fmt.binary.quantum K (exp + d - fmt.expBias) / 2) (y * u) ((S : K) * u) := by
    have half : fmt.binary.quantum K (exp + d - fmt.expBias) / 2 = 2 ^ (fmt.expBits + d) * u := by
      rw [quantum, pow_succ]
      ring
    rw [half]
    exact same.scale unit_pos.ne'
  have below : (S : K) * u < 2 ^ (exp + d - fmt.expBias + 1) := by
    have exponent : exp + d - fmt.expBias + 1 = exp - fmt.expBias - fmt.bits + (fmt.bits + 1 + d : ℕ) := by
      push_cast
      ring
    rw [exponent, scaled, mul_lt_mul_iff_left₀ unit_pos]
    have small : S < 2 ^ (fmt.bits + 1 + d) := by
      have wider := Nat.pow_le_pow_right two_pos (Nat.le_add_right (fmt.bits + 1) d)
      rw [pow_succ] at wider
      omega
    exact_mod_cast small
  have normal_above : exp > 0 → 2 ^ (exp + d - fmt.expBias) ≤ (S : K) * u := by
    intro normal
    have exponent : exp + d - fmt.expBias = exp - fmt.expBias - fmt.bits + fmt.bits := by
      omega
    rw [exponent, scaled, mul_le_mul_iff_left₀ unit_pos]
    exact_mod_cast Nat.le_add_right (2 ^ fmt.bits) mnt
  have least_exponent : ¬exp > 0 → exp + d - fmt.expBias = fmt.binary.emin := by
    intro subnormal
    rw [binary]
    dsimp only
    omega
  have above : 2 ^ (exp + d - fmt.expBias) ≤ (S : K) * u ∨ exp + d - fmt.expBias = fmt.binary.emin := by
    by_cases normal : exp > 0
    · exact Or.inl (normal_above normal)
    · exact Or.inr (least_exponent normal)
  have least : fmt.binary.emin ≤ exp + d - fmt.expBias := by
    rw [binary]
    dsimp only
    omega
  have guard : Guard ((S : K) * u / fmt.binary.quantum K (exp + d - fmt.expBias)) (S / 2 ^ (fmt.expBits + d + 1))
      (2 * (S / 2 ^ (fmt.expBits + d) % 2) + flag (S % 2 ^ (fmt.expBits + d) ≠ 0)) := by
    rw [quantum, mul_div_mul_right _ _ unit_pos.ne']
    exact guard_of_shift S (fmt.expBits + d)
  have ordered : fmt.binary.emin ≤ fmt.binary.emax := by
    have := fmt.expBias_pos
    rw [binary]
    dsimp only
    omega
  set whole := S / 2 ^ (fmt.expBits + d + 1) with whole_def
  set error := 2 * (S / 2 ^ (fmt.expBits + d) % 2) + flag (S % 2 ^ (fmt.expBits + d) ≠ 0) with error_def
  have small : error < 4 := by
    have := flag_lt (S % 2 ^ (fmt.expBits + d) ≠ 0)
    omega
  have magnitude_pos : 0 < y * u := mul_pos positive unit_pos
  obtain ⟨-, unbounded⟩ := BinaryFormat.round_guarded (rounding mode) sgn magnitude_pos cell below above least guard
  have self := @BinaryFormat.round_eq_self_iff K _ _ _ _ _ (rounding mode) sgn _ _ _ _ _ ordered magnitude_pos cell
    below above least guard
  set biasedExp := if exp > 0 then exp.toNat else 0 with biased
  have fits : fmt.Fits biasedExp whole := fits_digits word exp
  have magnitude : ∀ n, fmt.magnitude K biasedExp n = n * fmt.binary.quantum K (exp + d - fmt.expBias) := fun n => by
    have exponent : ((max biasedExp 1 : ℕ) : ℤ) = exp + d := by
      rw [biased]
      split <;> omega
    rw [FPFormat.magnitude_eq_mul, exponent]
    rfl
  set rounded := if FPFormat.roundsUp (mode &&& 3) sgn whole error then fmt.increment biasedExp whole
    else (biasedExp, whole) with stepped
  have exact : fmt.Fits rounded.1 rounded.2 ∧
      fmt.magnitude K rounded.1 rounded.2 = fmt.binary.roundUnbounded (rounding mode) sgn (y * u) := by
    rw [unbounded, stepped]
    by_cases up : FPFormat.roundsUp (mode &&& 3) sgn whole error
    · rw [if_pos up, if_pos ((roundsUp_iff small).mp up), ← magnitude]
      exact fits.increment
    · rw [if_neg up, if_neg (fun up' => up ((roundsUp_iff small).mpr up')), ← magnitude]
      exact ⟨fits, rfl⟩
  have is := @round_eq _ _ flags sgn plain _ _ word _ _ _ _ whole_def error_def biased stepped
  obtain ⟨decoded, raised, fitting⟩ := @finish_spec _ K _ _ _ _ _
    (if biasedExp = 0 ∧ error ≠ 0 then flags ||| FPLIB_UFC else flags) sgn plain _ _ error exact.1
  rw [← is, exact.2] at decoded raised
  rw [← is] at fitting
  have result : fmt.decode K (fmt.round sgn exp mnt mode flags).1 = fmt.binary.round (rounding mode) sgn (y * u) :=
    decoded
  -- below the normal magnitudes, the biased exponent is zero
  have tiny : y * u < 2 ^ fmt.binary.emin ↔ biasedExp = 0 := by
    have power := @BinaryFormat.pow_le_iff K _ _ _ _ fmt.binary _ _ _ cell 0
    rw [Nat.cast_zero, add_zero] at power
    rw [biased]
    by_cases normal : exp > 0
    · rw [if_pos normal]
      refine iff_of_false (not_lt.mpr ?_) (by omega)
      exact (zpow_le_zpow_right₀ one_le_two least).trans (power.mpr (normal_above normal))
    · rw [if_neg normal]
      refine iff_of_true ?_ rfl
      rw [← least_exponent normal, ← not_le, power, not_le]
      have exponent : exp - fmt.expBias - fmt.bits + (fmt.bits + 1 : ℕ) ≤ exp + d - fmt.expBias := by
        push_cast
        omega
      refine lt_of_lt_of_le ?_ (zpow_le_zpow_right₀ one_le_two exponent)
      rw [scaled, mul_lt_mul_iff_left₀ unit_pos]
      have small : S < 2 ^ (fmt.bits + 1) := by
        rw [pow_succ]
        omega
      exact_mod_cast small
  have large : ¬fmt.binary.roundUnbounded (rounding mode) sgn (y * u) < 2 ^ (fmt.binary.emax + 1) → biasedExp ≠ 0 := by
    intro beyond zero
    rw [← exact.2, exact.1.magnitude_lt_iff] at beyond
    have inf := fmt.expInf_eq
    have bias := fmt.expBias_pos
    rw [stepped, zero] at beyond
    have one : (fmt.increment 0 whole).1 ≤ 2 := by
      rw [FPFormat.increment]
      split <;> split <;> omega
    split at beyond <;> omega
  obtain ⟨flagged, inexact⟩ := flags_of raised self tiny large
  exact ⟨⟨fitting, result, by rw [inexact, result]⟩, flagged⟩

end Round

end FPFormat

end Emas.Gem5.Fplib

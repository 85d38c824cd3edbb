/-
**Conversions round and saturate once.**

`fixedPoint` is what a conversion to a word of fixed point gives: the integer that a number is rounded to, within the
integers of the word, and the flag of what was lost.
-/

import Emas.Gem5.FpAdd
import Emas.Gem5.FplibConversions

namespace Emas.Gem5.Fplib

/-! ### The rounding and the status -/

/-- The mode of a rounding; `ODD` is none. -/
def FPRounding.mode : FPRounding → Option IntegerMode
  | TIEEVEN => some (.basic .nearestEven)
  | POSINF => some (.basic .up)
  | NEGINF => some (.basic .down)
  | ZERO => some (.basic .zero)
  | TIEAWAY => some .nearestAway
  | ODD => none

variable {rounding : FPRounding}

theorem FPRounding.increment_eq {mode : IntegerMode} (is : rounding.mode = some mode)
    (sgn : Bool) (x : ℕ) {err : ℕ} (small : err < 4) :
    rounding.increment sgn x err = some (if mode.roundsUp sgn x err then 1 else 0) := by
  have odd : x &&& 1 = x % 2 := Nat.and_two_pow_sub_one_eq_mod x 1
  have parity := Nat.mod_two_eq_zero_or_one x
  have large : 2 < err ↔ err = 3 := by omega
  cases rounding with
  | ODD => cases is
  | TIEAWAY =>
    cases is
    have half : err >>> 1 = if 2 ≤ err then 1 else 0 := by
      rw [Nat.shiftRight_eq_div_pow]
      split <;> omega
    exact congrArg some half
  | TIEEVEN =>
    cases is
    simp [increment, flag, IntegerMode.roundsUp, Emas.roundsUp, RoundingMode.outward, odd, large]
  | POSINF =>
    cases is
    cases sgn <;> simp [increment, flag, IntegerMode.roundsUp, Emas.roundsUp, RoundingMode.outward]
  | NEGINF =>
    cases is
    cases sgn <;> simp [increment, flag, IntegerMode.roundsUp, Emas.roundsUp, RoundingMode.outward]
  | ZERO =>
    cases is
    simp [increment, IntegerMode.roundsUp, Emas.roundsUp, RoundingMode.outward]

theorem setFpscr0_eq (fpscr : ℕ) {flags : ℕ} (is : flags = 0 ∨ flags = FPLIB_IOC ∨ flags = FPLIB_IXC) :
    setFpscr0 fpscr flags = fpscr ||| flags := by
  rcases is with rfl | rfl | rfl
  · exact (Nat.or_zero fpscr).symm
  · rfl
  · rfl

/-! ### To fixed point -/

section FixedPoint

variable {K : Type} [Field K] [LinearOrder K] [IsStrictOrderedRing K] [FloorRing K]

/-- A number in fixed point: the pattern of its integer within a word, and what that raises. -/
def fixedPoint (mode : IntegerMode) (neg : Bool) (v : K) (u : Bool) (bits : ℕ) : ℕ × ℕ :=
  ((BitVec.ofInt bits (saturate u bits (mode.roundSigned neg v))).toNat,
    if saturate u bits (mode.roundSigned neg v) ≠ mode.roundSigned neg v then FPLIB_IOC
    else if (mode.round neg v : K) ≠ v then FPLIB_IXC
    else 0)

theorem sub_eq_ofInt {w y : ℕ} (word : y ≤ 2 ^ w) (x : ℕ) : sub w x y = (BitVec.ofInt w (x - y)).toNat := by
  have wrapped : ((sub w x y : ℕ) : ℤ) = (x - y) % 2 ^ w := by
    rw [sub, Int.natCast_emod, Nat.cast_add, Nat.cast_sub word, ← Int.add_emod_right (x - y : ℤ)]
    push_cast
    congr 1
    ring
  rw [BitVec.toNat_ofInt, Nat.cast_pow, Nat.cast_ofNat, ← wrapped, Int.toNat_natCast]

theorem saturation_eq {w : ℕ} (positive : 0 < w) (sgn u : Bool) :
    saturation w sgn u = (BitVec.ofInt w (if sgn then wordMin u w else wordMax u w)).toNat := by
  have below : 2 ^ (w - 1) < 2 ^ w := Nat.pow_lt_pow_right one_lt_two (by omega)
  have double : (2 : ℤ) ^ w = 2 * 2 ^ (w - 1) := by rw [← pow_succ', Nat.sub_add_cancel positive]
  have shifted : ∀ b : Bool, shl w b.toNat (w - 1) = b.toNat * 2 ^ (w - 1) := fun b => by
    rw [shl, Nat.shiftLeft_eq]
    cases b
    · rw [Bool.toNat_false, Nat.zero_mul, Nat.zero_mod]
    · rw [Bool.toNat_true, Nat.one_mul, Nat.mod_eq_of_lt below]
  have small : (!sgn).toNat ≤ 2 ^ w := (Bool.toNat_le _).trans Nat.one_le_two_pow
  rw [saturation, shifted, sub_eq_ofInt small, BitVec.toNat_ofInt, BitVec.toNat_ofInt]
  congr 1
  push_cast
  cases sgn <;> cases u <;> simp only [wordMin, wordMax, Bool.not_true, Bool.not_false, Bool.toNat_true,
    Bool.toNat_false, if_true, Bool.false_eq_true, if_false]
  · norm_num
  · rw [← Int.add_emod_right]
    congr 1
    push_cast
    ring
  · rw [← Int.add_emod_right (-_), double]
    congr 1
    push_cast
    ring
  · norm_num

/-- An integer is beyond a word of a width. -/
def Beyond (w : ℕ) (neg u : Bool) (n : ℕ) : Prop :=
  if u then if neg then n ≠ 0 else 2 ^ w ≤ n else 2 ^ (w - 1) - (!neg).toNat < n

theorem saturate_ne_iff {w : ℕ} (neg u : Bool) (n : ℕ) :
    saturate u w (if neg then -(n : ℤ) else n) ≠ (if neg then -(n : ℤ) else n) ↔ Beyond w neg u n := by
  have positive := Nat.two_pow_pos (w - 1)
  have positive' := Nat.two_pow_pos w
  have cast : ((2 ^ (w - 1) : ℕ) : ℤ) = 2 ^ (w - 1) := by push_cast; rfl
  have cast' : ((2 ^ w : ℕ) : ℤ) = 2 ^ w := by push_cast; rfl
  rw [ne_eq, saturate_eq_self_iff, Beyond, wordMin, wordMax, ← cast, ← cast']
  cases neg <;> cases u <;> simp only [Bool.not_true, Bool.not_false, Bool.toNat_true, Bool.toNat_false,
    if_true, Bool.false_eq_true, if_false] <;> omega

theorem beyond_of_le {w : ℕ} (positive : 0 < w) {n : ℕ} (large : 2 ^ w ≤ n) (neg u : Bool) : Beyond w neg u n := by
  have width : 2 ^ w = 2 * 2 ^ (w - 1) := by rw [← pow_succ', Nat.sub_add_cancel positive]
  have one := Nat.two_pow_pos (w - 1)
  rw [Beyond]
  cases neg <;> cases u <;> simp only [Bool.not_true, Bool.not_false, Bool.toNat_true, Bool.toNat_false,
    if_true, Bool.false_eq_true, if_false] <;> omega

variable {mode : IntegerMode} {neg u : Bool} {v : K} {w n err : ℕ}

omit [IsStrictOrderedRing K] in
theorem fixedPoint_eq (positive : 0 < w) (rounded : mode.round neg v = n)
    (exact : (mode.round neg v : K) = v ↔ err = 0) : (Beyond w neg u n → fixedPoint mode neg v u w
        = (saturation w neg u, FPLIB_IOC)) ∧ (¬Beyond w neg u n → fixedPoint mode neg v u w
        = (if neg then sub w 0 n else n, if err ≠ 0 then FPLIB_IXC else 0)) := by
  have ends := saturate_ne_iff (w := w) neg u n
  have signs : mode.roundSigned neg v = if neg then -(n : ℤ) else n := by rw [IntegerMode.roundSigned, rounded]
  have nonneg := Int.natCast_nonneg n
  refine ⟨fun beyond => ?_, fun inside => ?_⟩
  · have moved := ends.mpr beyond
    rw [fixedPoint, signs, if_pos moved, saturation_eq positive]
    congr 3
    cases neg with
    | true => exact saturate_of_nonpos (by simp) moved
    | false => exact saturate_of_nonneg (by simp) moved
  · have kept := not_not.mp (ends.not.mpr inside)
    have small : n ≤ 2 ^ w ∧ (neg = false → n < 2 ^ w) := by
      have width : 2 ^ w = 2 * 2 ^ (w - 1) := by rw [← pow_succ', Nat.sub_add_cancel positive]
      have one := Nat.two_pow_pos (w - 1)
      rw [Beyond] at inside
      clear kept signs ends
      cases neg <;> cases u <;> simp only [Bool.not_true, Bool.not_false, Bool.toNat_true, Bool.toNat_false,
        if_true, Bool.false_eq_true, if_false] at inside <;> omega
    rw [fixedPoint, signs, if_neg (not_not.mpr kept), kept]
    refine Prod.ext ?_ (if_congr exact.not rfl rfl)
    cases neg with
    | true =>
      simp only [if_true]
      rw [sub_eq_ofInt small.1, Nat.cast_zero, zero_sub]
    | false =>
      simp only [Bool.false_eq_true, if_false]
      have less : (n : ℤ) < 2 ^ w := by exact_mod_cast small.2 rfl
      exact Int.ofNat_inj.mp (toNat_ofInt_of_nonneg nonneg less)

theorem fixedPoint_of_large (positive : 0 < w) (is : v = n) (large : 2 ^ w ≤ n) (mode : IntegerMode) (neg u : Bool) :
    fixedPoint mode neg v u w = (saturation w neg u, FPLIB_IOC) := by
  have rounded : mode.round neg v = n := by rw [is, mode.round_natCast]
  have exact := (Guard.of_eq is).integer_eq_iff mode neg
  exact (fixedPoint_eq positive rounded exact).1 (beyond_of_le positive large neg u)

theorem guard_of_top {x : ℕ} (word : x < 2 ^ 64) (even : 2 ∣ x) (d : ℕ) {err : ℕ} (is : err = if d < 2 then 0 else
      lsr 64 x (d - 2) &&& 3 ||| flag (x &&& sub 64 (lsl 64 1 (d - 2)) 1 ≠ 0)) :
    Guard ((x : K) / 2 ^ d) (x / 2 ^ d) err ∧ err < 4 := by
  subst is
  split
  next near =>
    have whole : (x : K) / 2 ^ d = (x / 2 ^ d : ℕ) := by
      have divides : 2 ^ d ∣ x := by
        have one : d = 0 ∨ d = 1 := by omega
        rcases one with rfl | rfl
        · exact one_dvd x
        · rwa [pow_one]
      rw [div_eq_iff (by positivity)]
      exact_mod_cast (Nat.div_mul_cancel divides).symm
    exact ⟨Guard.of_eq whole, by norm_num⟩
  next far =>
    obtain ⟨k, rfl⟩ := Nat.exists_eq_add_of_le (not_lt.mp far)
    have bit := flag_lt (x % 2 ^ (k + 1) ≠ 0)
    rw [Nat.add_sub_cancel_left, mask_or_flag, lsr_or_flag word, low_guard, Nat.add_comm]
    exact ⟨guard_of_shift x (k + 1), by omega⟩

/-- **The conversion to 64 bits** rounds once, and saturates what is beyond the word. -/
theorem fpToFixed64_spec {exp : ℤ} {mnt : ℕ} (short : mnt < 2 ^ 53) (large : exp > 1086 → 2 ^ 52 ≤ mnt)
    (is : rounding.mode = some mode) (neg u : Bool) :
    fpToFixed64 neg exp mnt u rounding 0 = some (fixedPoint mode neg ((mnt : K) * 2 ^ (exp - 1075)) u 64) := by
  have maximum : (FP64.expBias + FP64.bits - 1 : ℤ) = 1086 := rfl
  rw [fpToFixed64, maximum]
  by_cases beyond : exp > 1086
  · rw [if_pos beyond]
    obtain ⟨j, far⟩ : ∃ j : ℕ, exp - 1075 = (j + 12 : ℕ) := ⟨(exp - 1087).toNat, by omega⟩
    have value : (mnt : K) * 2 ^ (exp - 1075) = (mnt * 2 ^ (j + 12) : ℕ) := by
      rw [far, zpow_natCast]
      push_cast
      rfl
    have top : 2 ^ 64 ≤ mnt * 2 ^ (j + 12) := by
      calc 2 ^ 64 = 2 ^ 52 * 2 ^ 12 := by norm_num
        _ ≤ mnt * 2 ^ (j + 12) := Nat.mul_le_mul (large beyond) (Nat.pow_le_pow_right two_pos (Nat.le_add_left 12 j))
    rw [fixedPoint_of_large (by norm_num) value top]
  · rw [if_neg beyond]
    set d := (1086 - exp).toNat with distance
    have top : shl 64 mnt FP64.expBits = mnt * 2 ^ 11 := shl_eq (show mnt * 2 ^ 11 < 2 ^ 64 by omega)
    have word : mnt * 2 ^ 11 < 2 ^ 64 := by omega
    have value : (mnt : K) * 2 ^ (exp - 1075) = ((mnt * 2 ^ 11 : ℕ) : K) / 2 ^ d := by
      have exponent : exp - 1075 = 11 - (d : ℤ) := by omega
      rw [exponent, zpow_sub₀ two_ne_zero, zpow_natCast, mul_div_assoc']
      push_cast
      norm_num
    dsimp only
    rw [top, lsr_eq word d]
    generalize found : (if exp > 1086 - 2 then 0 else lsr 64 (mnt * 2 ^ 11) (1086 - 2 - exp).toNat &&& 3
      ||| flag (mnt * 2 ^ 11 &&& sub 64 (lsl 64 1 (1086 - 2 - exp).toNat) 1 ≠ 0)) = err
    have near : d < 2 ↔ exp > 1086 - 2 := by omega
    have back : d - 2 = (1086 - 2 - exp).toNat := by omega
    obtain ⟨guard, small⟩ := @guard_of_top K _ _ _ _ _ word ⟨mnt * 2 ^ 10, by ring⟩ d err
      (by rw [← found, back]; exact if_congr near.symm rfl rfl)
    set n := mnt * 2 ^ 11 / 2 ^ d + if mode.roundsUp neg (mnt * 2 ^ 11 / 2 ^ d) err then 1 else 0 with integer
    -- the increment cannot leave the word, as nothing is cut off where the shift is zero
    have fits : n < 2 ^ 64 := by
      rcases Nat.eq_zero_or_pos d with zero | some
      · have none : err = 0 := by rw [← found, if_pos (near.mp (by omega))]
        rw [integer, none, if_neg (mode.not_roundsUp neg _), Nat.add_zero]
        exact lt_of_le_of_lt (Nat.div_le_self ..) word
      · have half : mnt * 2 ^ 11 / 2 ^ d ≤ mnt * 2 ^ 11 / 2 ^ 1 :=
          Nat.div_le_div_left (Nat.pow_le_pow_right two_pos some) (by norm_num)
        rw [integer]
        split <;> omega
    have comparison : (if u = true then neg = true ∧ n ≠ 0 else n > 1 <<< (FP64.bits - 1) - (!neg).toNat)
        ↔ Beyond 64 neg u n := by
      show (if u = true then neg = true ∧ n ≠ 0 else n > 2 ^ 63 - (!neg).toNat) ↔ _
      have within := not_le.mpr fits
      rw [Beyond]
      clear_value n
      cases neg <;> cases u <;> simp only [Bool.not_true, Bool.not_false, Bool.toNat_true, Bool.toNat_false, if_true,
        Bool.false_eq_true, if_false, true_and, false_and, within]
    obtain ⟨outside, inside⟩ := @fixedPoint_eq K _ _ _ mode neg u _ 64 n err (by norm_num) (guard.integer mode neg)
      (guard.integer_eq_iff mode neg)
    rw [FPRounding.increment_eq is neg _ small, Option.map_some, ← integer, Nat.mod_eq_of_lt fits, value]
    by_cases out : Beyond 64 neg u n
    · rw [if_pos (comparison.mpr out), outside out]
    · rw [if_neg (comparison.not.mpr out), inside out]

theorem narrow_iff {w : ℕ} (narrow : w < 64) {u : Bool} {c : ℤ} (within : wordMin u 64 ≤ c ∧ c ≤ wordMax u 64) {x : ℕ}
    (is : x = (BitVec.ofInt 64 c).toNat) :
    (if u = true then x ≥ 1 <<< w else ¬(x < 1 <<< (w - 1) ∨ sub 64 0 x ≤ 1 <<< (w - 1))) ↔ saturate u w c ≠ c := by
  have below : 2 ^ (w - 1) ≤ 2 ^ 62 := Nat.pow_le_pow_right two_pos (by omega)
  have positive := Nat.two_pow_pos (w - 1)
  have cast : ((2 ^ (w - 1) : ℕ) : ℤ) = 2 ^ (w - 1) := by push_cast; rfl
  have cast' : ((2 ^ w : ℕ) : ℤ) = 2 ^ w := by push_cast; rfl
  rw [ne_eq, saturate_eq_self_iff, Nat.one_shiftLeft, Nat.one_shiftLeft]
  cases u with
  | true =>
    simp only [wordMin, wordMax, if_true, ← cast'] at within ⊢
    have value := @toNat_ofInt_of_nonneg 64 _ within.1 (by omega)
    rw [← is] at value
    omega
  | false =>
    simp only [wordMin, wordMax, Bool.false_eq_true, if_false, ← cast] at within ⊢
    rw [sub]
    rcases le_or_gt 0 c with nonneg | neg
    · have value := @toNat_ofInt_of_nonneg 64 _ nonneg (by omega)
      rw [← is] at value
      omega
    · have value := @toNat_ofInt_of_neg 64 _ neg (by omega)
      rw [← is] at value
      omega

/-- **The conversion to a shorter word** neither rounds nor raises twice. -/
theorem fpToFixedNarrow_spec (positive : 0 < w) (narrow : w < 64) {exp : ℤ} {mnt : ℕ} (short : mnt < 2 ^ 53)
    (large : exp > 1086 → 2 ^ 52 ≤ mnt) (is : rounding.mode = some mode) (neg u : Bool) :
    fpToFixedNarrow w neg exp mnt u rounding 0 = some (fixedPoint mode neg ((mnt : K) * 2 ^ (exp - 1075)) u w) := by
  have nonneg : (0 : K) ≤ mnt * 2 ^ (exp - 1075) := mul_nonneg (Nat.cast_nonneg _) (zpow_nonneg zero_le_two _)
  have integer := mode.round_nonneg neg nonneg
  rw [fpToFixedNarrow, fpToFixed64_spec (K := K) short large is neg u, Option.map_some]
  congr 1
  generalize (mnt : K) * 2 ^ (exp - 1075) = v at *
  have signs : mode.roundSigned neg v = if neg then -mode.round neg v else mode.round neg v := rfl
  have twice := @saturate_saturate u _ _ (mode.roundSigned neg v) narrow.le
  have wider := @saturate_eq_self_of_le u _ _ (mode.roundSigned neg v) narrow.le
  rw [fixedPoint, fixedPoint]
  generalize mode.roundSigned neg v = n at *
  have comparison := narrow_iff narrow (saturate_mem u 64 n) rfl
  rw [twice] at comparison
  dsimp only
  by_cases moved : saturate u w n = saturate u 64 n
  · rw [if_neg (comparison.not.mpr (not_not.mpr moved)), moved, toNat_ofInt_mod narrow.le]
  · have beyond : saturate u w n ≠ n := fun fits => moved (fits.trans (wider fits).symm)
    rw [if_pos (comparison.mpr moved), if_pos beyond, saturation_eq positive]
    congr 3
    cases neg with
    | true => exact (saturate_of_nonpos (by simp [signs, integer]) beyond).symm
    | false => exact (saturate_of_nonneg (by simp [signs, integer]) beyond).symm

omit [IsStrictOrderedRing K] in
theorem fixedPoint_flags (mode : IntegerMode) (neg : Bool) (v : K) (u : Bool) (bits : ℕ) :
    (fixedPoint mode neg v u bits).2 = 0 ∨ (fixedPoint mode neg v u bits).2 = FPLIB_IOC ∨
      (fixedPoint mode neg v u bits).2 = FPLIB_IXC := by
  rw [fixedPoint]
  dsimp only
  split
  next => exact Or.inr (Or.inl rfl)
  next =>
    split
    next => exact Or.inr (Or.inr rfl)
    next => exact Or.inl rfl

end FixedPoint

/-- **A conversion to fixed point** rounds to an integer and saturates, with the flag of what was lost. -/
structure ToFixed (fmt : FPFormat) (bits : ℕ) (convert : ℕ → ℕ → Bool → FPRounding → ℕ → Option (ℕ × ℕ)) : Prop where
  finite : ∀ {op fbits fpscr : ℕ} {neg : Bool} {v : ℚ} {rounding : FPRounding} {mode : IntegerMode} (u : Bool),
    fmt.decode ℚ op = .finite neg v → fbits ≤ 64 → rounding.mode = some mode → modeConv fpscr &&& fmt.flush = 0 →
    convert op fbits u rounding fpscr = some ((fixedPoint mode neg (v * 2 ^ fbits) u bits).1,
      fpscr ||| (fixedPoint mode neg (v * 2 ^ fbits) u bits).2)
  infinity : ∀ {op : ℕ} {neg : Bool} {rounding : FPRounding} {mode : IntegerMode} (fbits : ℕ) (u : Bool) (fpscr : ℕ),
    fmt.decode ℚ op = .infinity neg → rounding.mode = some mode →
    convert op fbits u rounding fpscr
      = some ((BitVec.ofInt bits (if neg then wordMin u bits else wordMax u bits)).toNat, fpscr ||| FPLIB_IOC)

theorem FPFormat.unpack_infinity {fmt : FPFormat} {K : Type} [Field K] {op : ℕ} {neg : Bool}
    (decoded : fmt.decode K op = .infinity neg) (mode : ℕ) :
    (∀ flags, fmt.unpack op mode flags = (⟨neg, fmt.expInf, 2 ^ fmt.mantBits⟩, flags)) ∧
      ¬fmt.isNaN fmt.expInf (2 ^ fmt.mantBits) = true := by
  have inf := fmt.expInf_eq
  rw [decode_eq_ite] at decoded
  split at decoded
  next infinite =>
    split at decoded
    next empty =>
      obtain rfl := Datum.infinity.inj decoded
      refine ⟨fun flags => ?_, ?_⟩
      · rw [unpack, infinite, empty, if_pos (by omega), Nat.zero_or, Nat.one_shiftLeft]
      · simp [isNaN, mantissa_eq]
    next => cases decoded
  next => split at decoded <;> cases decoded

section ToFixed

/-- What the conversions of a mantissa and an exponent of a double have in common. -/
def ConvertsTo (bits : ℕ) (convert : Bool → ℤ → ℕ → Bool → FPRounding → ℕ → Option (ℕ × ℕ)) : Prop :=
  ∀ {exp : ℤ} {mnt : ℕ} {rounding : FPRounding} {mode : IntegerMode} (neg u : Bool), mnt < 2 ^ 53 →
    (exp > 1086 → 2 ^ 52 ≤ mnt) → rounding.mode = some mode →
    convert neg exp mnt u rounding 0 = some (fixedPoint mode neg ((mnt : ℚ) * 2 ^ (exp - 1075)) u bits)

theorem Width.mantBits_le (T : Width) : T.format.mantBits ≤ 52 := by
  cases T <;> decide

theorem align_mnt {digits mnt : ℕ} (le : digits ≤ 52) (short : mnt < 2 ^ (digits + 1)) :
    shl 64 mnt (52 - digits) = mnt * 2 ^ (52 - digits) ∧ mnt * 2 ^ (52 - digits) < 2 ^ 53 := by
  have below : mnt * 2 ^ (52 - digits) < 2 ^ 53 := by
    calc mnt * 2 ^ (52 - digits) < 2 ^ (digits + 1) * 2 ^ (52 - digits) :=
          Nat.mul_lt_mul_of_pos_right short (Nat.two_pow_pos _)
      _ = 2 ^ 53 := by
          rw [← pow_add]
          congr 1
          omega
  exact ⟨shl_eq (below.trans (by norm_num)), below⟩

theorem Width.toFixed_spec (T : Width) {bits infExp : ℕ}
    {convert : Bool → ℤ → ℕ → Bool → FPRounding → ℕ → Option (ℕ × ℕ)} (converts : ConvertsTo bits convert)
    (positive : 0 < bits) (far : T.format.expBias + bits ≤ infExp) :
    ToFixed T.format bits (T.format.toFixed convert infExp) := by
  have digits := T.mantBits_le
  have bias : 15 ≤ T.format.expBias := by cases T <;> decide
  have double : FP64.mantBits = 52 ∧ FP64.expBias = 1023 := ⟨rfl, rfl⟩
  refine ⟨fun {op fbits fpscr neg v rounding mode} u decoded points is noFlush => ?_,
    fun {op neg rounding mode} fbits u fpscr decoded is => ?_⟩
  · obtain ⟨x, unpacked, operand⟩ := FPFormat.exists_operand (T.plain_modeConv noFlush) decoded
    obtain ⟨aligned, short⟩ := align_mnt digits operand.mnt_lt
    have finite : x.exp ≠ T.format.expInf := operand.exp_lt.ne
    have number : ¬T.format.isNaN x.exp x.mnt = true := by simp [FPFormat.isNaN, finite]
    rw [FPFormat.toFixed, unpacked 0]
    dsimp only
    rw [if_neg number, if_neg finite, operand.sgn, double.1, double.2, aligned, converts neg u short ?_ is,
      Option.map_some]
    · have value : ((x.mnt * 2 ^ (52 - T.format.mantBits) : ℕ) : ℚ)
          * 2 ^ (x.exp + (1023 : ℕ) - T.format.expBias + fbits - 1075) = v * 2 ^ fbits := by
        have exponent : x.exp + (1023 : ℕ) - T.format.expBias + fbits - 1075
            = x.exp - T.format.expBias - T.format.mantBits + fbits - (52 - T.format.mantBits : ℕ) := by
          omega
        rw [exponent, zpow_sub₀ two_ne_zero, zpow_add₀ two_ne_zero, zpow_natCast, zpow_natCast, operand.value]
        push_cast
        field_simp
      rw [value, setFpscr0_eq fpscr (fixedPoint_flags ..)]
    · intro large
      have leading : 2 ^ T.format.mantBits ≤ x.mnt := operand.normal.resolve_left (by omega)
      calc 2 ^ 52 = 2 ^ T.format.mantBits * 2 ^ (52 - T.format.mantBits) := by
            rw [← pow_add]
            congr 1
            omega
        _ ≤ _ := Nat.mul_le_mul_right _ leading
  · obtain ⟨unpacked, zero⟩ := FPFormat.unpack_infinity decoded (modeConv fpscr)
    have inf := T.format.expInf_eq
    obtain ⟨aligned, short⟩ := align_mnt digits (show 2 ^ T.format.mantBits < 2 ^ (T.format.mantBits + 1) by
      rw [pow_succ]
      have := Nat.two_pow_pos T.format.mantBits
      omega)
    have top : 2 ^ T.format.mantBits * 2 ^ (52 - T.format.mantBits) = 2 ^ 52 := by
      rw [← pow_add]
      congr 1
      omega
    obtain ⟨j, large⟩ := Nat.exists_eq_add_of_le far
    have value : ((2 ^ T.format.mantBits * 2 ^ (52 - T.format.mantBits) : ℕ) : ℚ)
        * 2 ^ ((infExp : ℤ) + (1023 : ℕ) - T.format.expBias + fbits - 1075) = (2 ^ (bits + j + fbits) : ℕ) := by
      have exponent : (infExp : ℤ) + (1023 : ℕ) - T.format.expBias + fbits - 1075
          = (bits + j + fbits : ℕ) - (52 : ℕ) := by
        omega
      rw [top, exponent, zpow_sub₀ two_ne_zero, zpow_natCast, zpow_natCast]
      rw [Nat.cast_pow, Nat.cast_pow, Nat.cast_ofNat, mul_div_cancel₀ _ (by norm_num)]
    rw [FPFormat.toFixed, unpacked 0]
    dsimp only
    rw [if_neg zero, if_pos rfl, double.1, double.2, aligned, converts neg u short (fun _ => top.ge) is,
      fixedPoint_of_large positive value (Nat.pow_le_pow_right two_pos (by omega)), Option.map_some,
      saturation_eq positive, setFpscr0_eq fpscr (Or.inr (Or.inl rfl))]

theorem converts_fpToFixed64 : ConvertsTo 64 fpToFixed64 := fun neg u short large is =>
  fpToFixed64_spec short large is neg u

theorem converts_fpToFixed32 : ConvertsTo 32 fpToFixed32 := fun neg u short large is =>
  fpToFixedNarrow_spec (by norm_num) (by norm_num) short large is neg u

theorem converts_fpToFixed16 : ConvertsTo 16 fpToFixed16 := fun neg u short large is =>
  fpToFixedNarrow_spec (by norm_num) (by norm_num) short large is neg u

end ToFixed

/-! ### To integral values -/

/-- **A rounding to an integral value** of the same format. The sign stays, also that of a zero. -/
structure ToIntegral (fmt : FPFormat) (round : ℕ → FPRounding → Bool → ℕ → Option (ℕ × ℕ)) : Prop where
  finite : ∀ {op fpscr : ℕ} {neg : Bool} {v : ℚ} {rounding : FPRounding} {mode : IntegerMode} (exact : Bool),
    fmt.decode ℚ op = .finite neg v → rounding.mode = some mode → modeConv fpscr &&& fmt.flush = 0 →
    ∃ result, round op rounding exact fpscr = some (result,
        fpscr ||| if (mode.round neg v : ℚ) ≠ v ∧ exact = true then FPLIB_IXC else 0) ∧
      fmt.decode ℚ result = .finite neg (mode.round neg v)

theorem roundInt_error {bits mnt n : ℕ} (some : 0 < mnt) (word : mnt < 2 ^ bits) : (if bits < n + 1 then 1 else
      (mnt <<< 1 >>> n &&& 3) ||| flag (shl bits (mnt <<< 2) (bits - (n + 1)) ≠ 0))
    = 2 * (mnt / 2 ^ n % 2) + flag (mnt % 2 ^ n ≠ 0) := by
  split
  next far =>
    have small : mnt < 2 ^ n := lt_of_lt_of_le word (Nat.pow_le_pow_right two_pos (Nat.le_of_lt_succ far))
    rw [Nat.div_eq_of_lt small, Nat.mod_eq_of_lt small, flag, if_pos some.ne']
  next near =>
    obtain ⟨j, rfl⟩ := Nat.exists_eq_add_of_le (not_lt.mp near)
    have cut : shl (n + 1 + j) (mnt <<< 2) j ≠ 0 ↔ 2 * mnt % 2 ^ n ≠ 0 := by
      have aligned : mnt <<< 2 <<< j = 2 * mnt * 2 ^ (j + 1) := by
        rw [Nat.shiftLeft_eq, Nat.shiftLeft_eq]
        ring
      have width : 2 ^ (n + 1 + j) = 2 ^ n * 2 ^ (j + 1) := by
        rw [← pow_add]
        congr 1
        ring
      rw [shl, aligned, width, Nat.mul_mod_mul_right, ne_eq, mul_eq_zero, or_iff_left (Nat.two_pow_pos _).ne']
    have collected := jam (x := 2 * mnt) (n := n) (p := shl (n + 1 + j) (mnt <<< 2) j ≠ 0) cut.mpr fun more => by
      rw [pow_succ, Nat.mod_mul]
      have := cut.mp more
      omega
    have double : mnt <<< 1 >>> n = 2 * mnt / 2 ^ n := by
      rw [Nat.shiftRight_eq_div_pow, Nat.shiftLeft_eq, pow_one, Nat.mul_comm]
    rw [Nat.add_sub_cancel_left, double, mask_or_flag, collected, pow_succ', Nat.mul_div_mul_left _ _ two_pos,
      Nat.mul_mod_mul_left, low_guard]
    congr 1
    exact flag_congr (by simp)

namespace FPFormat

variable {fmt : FPFormat} {K : Type} [Field K] [LinearOrder K] [IsStrictOrderedRing K] [FloorRing K]

theorem decode_integral (digits : fmt.mantBits ≤ fmt.expBias) {n : ℕ} (positive : 0 < n) (le : n ≤ 2 ^ fmt.mantBits)
    (sgn : Bool) : fmt.decode K (fmt.pack sgn ((fmt.normalise n fmt.expint).2 + fmt.expBits).toNat
      ((fmt.normalise n fmt.expint).1 >>> fmt.expBits)) = .finite sgn n := by
  have split := fmt.bits_split
  have bias := fmt.expBias_pos
  have inf := fmt.expInf_eq
  have word : n < 2 ^ fmt.bits := lt_of_le_of_lt le (Nat.pow_lt_pow_right one_lt_two (by omega))
  obtain ⟨k, is, low, high⟩ := fmt.normalise_spec fmt.expint positive word
  have near := shift_le (n := 0) (by rwa [pow_zero]) high
  obtain ⟨j, rfl⟩ : ∃ j, k = j + fmt.expBits := by
    have top : 2 ^ (fmt.bits - 1) ≤ 2 ^ (fmt.mantBits + k) := by
      rw [pow_add]
      exact low.trans (Nat.mul_le_mul_right _ le)
    have := (Nat.pow_le_pow_iff_right one_lt_two).mp top
    exact ⟨k - fmt.expBits, by omega⟩
  have exponent : (fmt.expint - (j + fmt.expBits : ℕ) + fmt.expBits).toNat = fmt.expBias + fmt.mantBits - j := by
    rw [expint]
    omega
  have shifted : (n * 2 ^ (j + fmt.expBits)) >>> fmt.expBits = n * 2 ^ j := by
    rw [Nat.shiftRight_eq_div_pow, pow_add, ← mul_assoc, Nat.mul_div_cancel _ (Nat.two_pow_pos _)]
  have scaled : ∀ m, 2 ^ m * 2 ^ fmt.expBits = 2 ^ (m + fmt.expBits) := fun m => (pow_add ..).symm
  have fits : fmt.Fits (fmt.expBias + fmt.mantBits - j) (n * 2 ^ j) := by
    rw [pow_add, ← mul_assoc] at low high
    refine Or.inr ⟨by omega, ?_, ?_⟩
    · refine Nat.le_of_mul_le_mul_right (le_trans (le_of_eq ?_) low) (Nat.two_pow_pos fmt.expBits)
      rw [scaled]
      congr 1
      omega
    · refine Nat.lt_of_mul_lt_mul_right (lt_of_lt_of_eq high ?_) (a := 2 ^ fmt.expBits)
      rw [scaled]
      congr 1
      omega
  rw [is]
  dsimp only
  rw [exponent, shifted, decode_pack fits (by omega), magnitude_eq_mul, Nat.max_eq_left (by omega)]
  have power : ((fmt.expBias + fmt.mantBits - j : ℕ) - fmt.expBias - fmt.mantBits : ℤ) = -(j : ℤ) := by omega
  rw [power, zpow_neg, zpow_natCast]
  push_cast
  rw [mul_assoc, mul_inv_cancel₀ (pow_ne_zero _ two_ne_zero), mul_one]

/-- **The arithmetic of `fplibRoundInt`** on a number with fractional bits. -/
theorem roundIntFinite_spec (digits : fmt.mantBits ≤ fmt.expBias) {x : Unpacked} (some : 0 < x.mnt)
    (short : x.mnt < 2 ^ (fmt.mantBits + 1)) (fractional : x.exp < fmt.expint)
    {mode : IntegerMode} (is : rounding.mode = Option.some mode) (exact : Bool) {v : K}
    (value : v = x.mnt * 2 ^ (x.exp - fmt.expBias - fmt.mantBits)) :
    ∃ result, fmt.roundIntFinite x rounding exact 0 = Option.some (result,
        if (mode.round x.sgn v : K) ≠ v ∧ exact = true then FPLIB_IXC else 0) ∧
      fmt.decode K result = .finite x.sgn (mode.round x.sgn v) := by
  have split := fmt.bits_split
  have word : x.mnt < 2 ^ fmt.bits := lt_of_lt_of_le short (Nat.pow_le_pow_right two_pos (by omega))
  obtain ⟨k, distance⟩ : ∃ k : ℕ, (fmt.expint - x.exp).toNat = k + 1 :=
    ⟨(fmt.expint - x.exp).toNat - 1, by omega⟩
  have shifted : v = (x.mnt : K) / 2 ^ (k + 1) := by
    have exponent : x.exp - fmt.expBias - fmt.mantBits = -(k + 1 : ℕ) := by
      rw [expint] at distance fractional
      omega
    rw [value, exponent, zpow_neg, zpow_natCast, div_eq_mul_inv]
  have guard := guard_of_shift (K := K) x.mnt k
  rw [← shifted] at guard
  have far : x.exp < fmt.expint - fmt.bits ↔ fmt.bits < k + 1 := by omega
  have whole : (if k + 1 ≥ fmt.bits then 0 else x.mnt >>> (k + 1)) = x.mnt / 2 ^ (k + 1) := by
    rw [Nat.shiftRight_eq_div_pow]
    split
    next beyond => exact (Nat.div_eq_of_lt (lt_of_lt_of_le word (Nat.pow_le_pow_right two_pos beyond))).symm
    next => rfl
  have bit := flag_lt (x.mnt % 2 ^ k ≠ 0)
  have error := roundInt_error some word (n := k)
  have self := guard.integer_eq_iff mode x.sgn
  have rounded := guard.integer mode x.sgn
  rw [roundIntFinite]
  simp only [distance, far, Nat.add_sub_cancel, whole, error]
  generalize is' : 2 * (x.mnt / 2 ^ k % 2) + flag (x.mnt % 2 ^ k ≠ 0) = err at *
  rw [FPRounding.increment_eq is _ _ (by omega), Option.map_some]
  set n := x.mnt / 2 ^ (k + 1) + if mode.roundsUp x.sgn (x.mnt / 2 ^ (k + 1)) err then 1 else 0 with integer
  have le : n ≤ 2 ^ fmt.mantBits := by
    have half : x.mnt / 2 ^ (k + 1) ≤ x.mnt / 2 ^ 1 :=
      Nat.div_le_div_left (Nat.pow_le_pow_right two_pos (Nat.le_add_left 1 k)) (by norm_num)
    rw [pow_succ] at short
    rw [integer]
    split <;> omega
  have fits : n < 2 ^ fmt.bits := lt_of_le_of_lt le (Nat.pow_lt_pow_right one_lt_two (by omega))
  rw [Nat.mod_eq_of_lt fits]
  refine ⟨_, congrArg Option.some (Prod.ext rfl ?_), ?_⟩
  · rw [Nat.zero_or]
    exact if_congr (and_congr_left fun _ => self.not.symm) rfl rfl
  · rw [rounded]
    split
    next zero => rw [decode_zero, zero, Nat.cast_zero, Int.cast_zero]
    next nonzero => rw [decode_integral digits (Nat.pos_of_ne_zero nonzero) le, Int.cast_natCast]

end FPFormat

theorem Width.roundInt_spec (T : Width) : ToIntegral T.format T.format.roundInt := by
  have digits : T.format.mantBits ≤ T.format.expBias := by cases T <;> decide
  refine ⟨fun {op fpscr neg v rounding mode} exact decoded is noFlush => ?_⟩
  obtain ⟨x, unpacked, operand⟩ := FPFormat.exists_operand (T.plain_modeConv noFlush) decoded
  have finite : x.exp ≠ T.format.expInf := operand.exp_lt.ne
  have number : ¬T.format.isNaN x.exp x.mnt = true := by simp [FPFormat.isNaN, finite]
  -- what is exact keeps the status
  have unchanged : ∀ {n : ℕ}, v = n → mode.round neg v = n ∧
      (if (mode.round neg v : ℚ) ≠ v ∧ exact = true then FPLIB_IXC else 0) = 0 := fun {n} whole => by
    have same := mode.round_natCast neg (K := ℚ) n
    rw [whole, same, Int.cast_natCast]
    exact ⟨rfl, if_neg fun both => both.1 rfl⟩
  rw [FPFormat.roundInt, unpacked 0]
  dsimp only
  rw [if_neg number, if_neg finite]
  by_cases zero : x.mnt = 0
  · obtain ⟨same, status⟩ := unchanged (n := 0) (by rw [operand.value, zero, Nat.cast_zero, zero_mul])
    rw [if_pos zero, Option.map_some, operand.sgn, setFpscr0_eq fpscr (Or.inl rfl), status, same]
    exact ⟨_, rfl, by rw [FPFormat.decode_zero, Nat.cast_zero, Int.cast_zero]⟩
  · rw [if_neg zero]
    by_cases integral : x.exp ≥ T.format.expint
    · obtain ⟨j, up⟩ : ∃ j : ℕ, x.exp - T.format.expBias - T.format.mantBits = j := by
        rw [FPFormat.expint] at integral
        exact ⟨(x.exp - T.format.expBias - T.format.mantBits).toNat, by omega⟩
      have whole : v = (x.mnt * 2 ^ j : ℕ) := by
        rw [operand.value, up, zpow_natCast]
        push_cast
        rfl
      obtain ⟨same, status⟩ := unchanged whole
      rw [if_pos integral, Option.map_some, setFpscr0_eq fpscr (Or.inl rfl), status, same]
      exact ⟨_, rfl, by rw [decoded, whole, Int.cast_natCast]⟩
    · obtain ⟨result, found, rounded⟩ := FPFormat.roundIntFinite_spec digits (Nat.pos_of_ne_zero zero) operand.mnt_lt
        (not_le.mp integral) is exact operand.value
      rw [operand.sgn] at found rounded
      rw [if_neg integral, found, Option.map_some]
      refine ⟨result, ?_, rounded⟩
      rw [setFpscr0_eq]
      split
      next => exact Or.inr (Or.inr rfl)
      next => exact Or.inl rfl

/-! ### From fixed point -/

/-- The integer of a word. -/
def integerOf (u : Bool) (op : BitVec 64) : ℤ := if u then op.toNat else op.toInt

/-- **A conversion from fixed point** rounds the number once. -/
structure FromFixed (fmt : FPFormat) (convert : ℕ → ℕ → Bool → FPRounding → ℕ → ℕ × ℕ) : Prop where
  rounded : ∀ {fbits : ℕ} {r : FPRounding} {mode : RoundingMode} (op : BitVec 64) (u : Bool) (fpscr : ℕ),
    r.mode = some (.basic mode) → fbits ≤ 64 → ∃ flags,
      (convert op.toNat fbits u r fpscr).2 = setFpscr0 fpscr flags ∧
        fmt.RoundedOnce r.toNat (decide (integerOf u op < 0)) ((integerOf u op).natAbs / 2 ^ fbits : ℚ) 0
          ((convert op.toNat fbits u r fpscr).1, flags)

theorem integerOf_parts (u : Bool) (op : BitVec 64) :
    decide (u = false ∧ op.toNat >>> 63 ≠ 0) = decide (integerOf u op < 0) ∧
      (if decide (integerOf u op < 0) = true then sub 64 0 op.toNat else op.toNat) = (integerOf u op).natAbs := by
  have word := op.isLt
  have signed := BitVec.toInt_eq_toNat_cond op
  rw [integerOf, Nat.shiftRight_eq_div_pow, sub]
  cases u with
  | true => simp
  | false =>
    rw [signed]
    refine ⟨decide_eq_decide.mpr ?_, ?_⟩
    · simp only [Bool.false_eq_true, if_false, true_and]
      split <;> omega
    · simp only [Bool.false_eq_true, if_false, decide_eq_true_eq]
      split <;> split <;> omega

namespace FPFormat

variable {fmt : FPFormat}

theorem round_congr {sgn : Bool} {exp : ℤ} {mode mode' : ℕ} (direction : mode &&& 3 = mode' &&& 3)
    (alternative : mode &&& fmt.alternative = mode' &&& fmt.alternative)
    (flush : 1 ≤ exp ∨ mode &&& fmt.flush = mode' &&& fmt.flush) (mnt flags : ℕ) :
    fmt.round sgn exp mnt mode flags = fmt.round sgn exp mnt mode' flags := by
  have flushed : (mode &&& fmt.flush ≠ 0 ∧ exp < 1) ↔ (mode' &&& fmt.flush ≠ 0 ∧ exp < 1) := by
    rcases flush with normal | same
    · exact iff_of_false (fun both => by omega) (fun both => by omega)
    · rw [same]
  rw [FPFormat.round, FPFormat.round, round_, round_, direction]
  simp only [flushed, finish, alternative]

/-- What the digits of a normalised mantissa are for. -/
def DigitsOf (fmt : FPFormat) (digits : ℕ → ℕ) : Prop :=
  ∀ x, 2 ^ 63 ≤ x → x < 2 ^ 64 → digits x < 2 ^ fmt.bits ∧
    SameCell (2 : ℚ) (x * 2 ^ (fmt.bits - 63 : ℤ)) ((2 ^ fmt.bits + digits x : ℕ) : ℚ)

/-- **The conversion of a magnitude** of 64 bits. -/
theorem cvtf_rounded {digits : ℕ → ℕ} (short : fmt.DigitsOf digits) {mode fbits : ℕ}
    (direction : fmt.Plain (mode &&& 3)) (same : ∀ exp : ℤ, fmt.expBias - fbits ≤ exp → ∀ sgn mnt flags,
      fmt.round sgn exp mnt mode flags = fmt.round sgn exp mnt (mode &&& 3) flags) (op : BitVec 64) (u : Bool) :
    fmt.RoundedOnce (mode &&& 3) (decide (integerOf u op < 0)) ((integerOf u op).natAbs / 2 ^ fbits : ℚ) 0
      (fmt.cvtf digits op.toNat fbits u mode 0) := by
  obtain ⟨sign, magnitude⟩ := integerOf_parts u op
  have word : (integerOf u op).natAbs < 2 ^ 64 := by
    rw [← magnitude]
    split
    · exact Nat.mod_lt _ (Nat.two_pow_pos 64)
    · exact op.isLt
  have unsigned : (integerOf u op).natAbs = 0 → decide (integerOf u op < 0) = false := fun zero => by
    rw [Int.natAbs_eq_zero.mp zero]
    rfl
  have width : FP64.bits = 64 := rfl
  rw [cvtf]
  simp only [width, Nat.reduceSub, sign, magnitude]
  generalize (integerOf u op).natAbs = n at *
  generalize decide (integerOf u op < 0) = sgn at *
  split
  next zero =>
    rw [unsigned zero, zero, Nat.cast_zero, zero_div]
    exact zero_rounded false
  next nonzero =>
    have some := Nat.pos_of_ne_zero nonzero
    obtain ⟨k, is, low, high⟩ := FP64.normalise_spec (fmt.expBias + (64 : ℕ) - 1 - fbits) some word
    have near : 0 + k < 64 := shift_le (n := 0) (by rwa [pow_zero]) high
    obtain ⟨fits, cell⟩ := short _ low high
    rw [fp64Normalise, is]
    dsimp only
    rw [same _ (by push_cast; omega)]
    have enough := fmt.exp_pos
    have positive : (0 : ℚ) < (n * 2 ^ k : ℕ) * 2 ^ (fmt.bits - 63 : ℤ) :=
      mul_pos (Nat.cast_pos.mpr (lt_of_lt_of_le (by norm_num) low)) (zpow_pos two_pos _)
    have cell' : SameCell (2 ^ 1 : ℚ) ((n * 2 ^ k : ℕ) * 2 ^ (fmt.bits - 63 : ℤ))
        ((2 ^ fmt.bits + digits (n * 2 ^ k) : ℕ) : ℚ) := by
      rwa [pow_one (2 : ℚ)]
    have rounded := @round_rounded fmt ℚ _ _ _ _ (mode &&& 3) 0 sgn direction
      (fmt.expBias + (64 : ℕ) - 1 - fbits - k) _ fits _ positive (cell'.coarsen_pow (by omega))
    have value : ((n * 2 ^ k : ℕ) : ℚ) * 2 ^ (fmt.bits - 63 : ℤ)
        * 2 ^ (fmt.expBias + (64 : ℕ) - 1 - fbits - k - fmt.expBias - fmt.bits : ℤ) = n / 2 ^ fbits := by
      have exponent : (fmt.expBias + (64 : ℕ) - 1 - fbits - k - fmt.expBias - fmt.bits : ℤ)
          = -(fmt.bits - 63 : ℤ) - k - fbits := by
        push_cast
        ring
      rw [exponent]
      generalize (fmt.bits - 63 : ℤ) = e
      have scale : (2 : ℚ) ^ e ≠ 0 := zpow_ne_zero _ two_ne_zero
      rw [zpow_sub₀ two_ne_zero, zpow_sub₀ two_ne_zero, zpow_neg, zpow_natCast, zpow_natCast]
      push_cast
      field_simp
    rwa [value] at rounded

theorem digitsOf_cvtfDigits (narrow : fmt.bits < 64) : fmt.DigitsOf fmt.cvtfDigits := by
  intro x low high
  have split := fmt.bits_split
  obtain ⟨n, rest⟩ : ∃ n, 64 = fmt.bits + n + 1 := ⟨63 - fmt.bits, by omega⟩
  have width : FP64.bits - fmt.bits - 1 = n := by
    show 64 - fmt.bits - 1 = n
    omega
  have collected := jam (x := x) (n := n) (p := x % 2 ^ n ≠ 0) id fun some => by
    rw [pow_succ, Nat.mod_mul]
    omega
  have bit := flag_lt (x % 2 ^ (n + 1) ≠ 0)
  have double : 2 ^ fmt.bits = 2 * 2 ^ (fmt.bits - 1) := by
    rw [← pow_succ', Nat.sub_add_cancel (by omega)]
  have bottom : 2 ^ (fmt.bits - 1) ≤ x / 2 ^ (n + 1) := by
    rw [Nat.le_div_iff_mul_le (Nat.two_pow_pos _), ← pow_add]
    refine le_trans (Nat.pow_le_pow_right two_pos ?_) low
    omega
  have top : x / 2 ^ (n + 1) < 2 ^ fmt.bits := by
    rw [Nat.div_lt_iff_lt_mul (Nat.two_pow_pos _), ← pow_add]
    refine lt_of_lt_of_le high (Nat.pow_le_pow_right two_pos ?_)
    omega
  have digits : fmt.cvtfDigits x = 2 * (x / 2 ^ (n + 1)) + flag (x % 2 ^ (n + 1) ≠ 0) - 2 ^ fmt.bits := by
    rw [cvtfDigits, width, Nat.one_shiftLeft, Nat.and_two_pow_sub_one_eq_mod, Nat.shiftRight_eq_div_pow, collected,
      Nat.mod_eq_sub_mod (by omega), Nat.mod_eq_of_lt (by omega)]
  have leading : 2 ^ fmt.bits + fmt.cvtfDigits x = 2 * (x / 2 ^ (n + 1)) + flag (x % 2 ^ (n + 1) ≠ 0) := by
    rw [digits]
    omega
  have exponent : (fmt.bits - 63 : ℤ) = -(n : ℤ) := by omega
  refine ⟨Nat.mod_lt _ (Nat.two_pow_pos _), ?_⟩
  rw [leading, exponent, zpow_neg, zpow_natCast, ← div_eq_mul_inv]
  exact cell_jam x n

end FPFormat

theorem digitsOf_double : FP64.DigitsOf fun mnt => shl 64 mnt 1 := by
  intro x low high
  have cut : shl 64 x 1 = 2 * x - 2 ^ 64 := by
    rw [shl, Nat.shiftLeft_eq]
    omega
  have width : FP64.bits = 64 := rfl
  dsimp only
  rw [width]
  refine ⟨shl_lt 64 x 1, ?_⟩
  have whole : ((2 ^ 64 + shl 64 x 1 : ℕ) : ℚ) = x * 2 ^ ((64 : ℕ) - 63 : ℤ) := by
    have sum : 2 ^ 64 + shl 64 x 1 = 2 * x := by omega
    rw [sum]
    push_cast
    ring
  rw [whole]
  exact SameCell.refl ..

/-- **The conversions from fixed point** in the basic modes. Flushing to zero does not matter: the shorter formats that
look at the bit of `FPLIB_FZ` have room for the exponents. -/
theorem Width.fixedToFP_spec (T : Width) {digits : ℕ → ℕ} (short : T.format.DigitsOf digits) :
    FromFixed T.format (fixedToFP (T.format.cvtf digits)) := by
  refine ⟨fun {fbits r mode} op u fpscr is points => ?_⟩
  have masked : ∀ bit, 12 &&& bit = 0 → (r.toNat ||| (fpscr >>> 22 &&& 12)) &&& bit = r.toNat &&& bit := by
    intro bit apart
    rw [Nat.and_or_distrib_right, Nat.and_assoc, apart, Nat.and_zero, Nat.or_zero]
  have direction : (r.toNat ||| (fpscr >>> 22 &&& 12)) &&& 3 = r.toNat := by
    rw [masked 3 (by decide)]
    cases r <;> first | rfl | cases is
  have plain : T.format.Plain r.toNat := by
    cases r <;> first | (cases T <;> exact ⟨by decide, by decide⟩) | cases is
  have same : ∀ exp : ℤ, T.format.expBias - fbits ≤ exp → ∀ sgn mnt flags,
      T.format.round sgn exp mnt (r.toNat ||| (fpscr >>> 22 &&& 12)) flags
        = T.format.round sgn exp mnt r.toNat flags := by
    intro exp far sgn mnt flags
    refine FPFormat.round_congr (by rw [masked 3 (by decide)]) ?_ ?_ mnt flags
    · cases T
      · exact masked FPLIB_AHP (by decide)
      · exact masked 0 (by decide)
      · exact masked 0 (by decide)
    · cases T
      · exact Or.inr (masked FPLIB_FZ16 (by decide))
      · left
        have bias : Width.single.format.expBias = 127 := rfl
        omega
      · left
        have bias : Width.double.format.expBias = 1023 := rfl
        omega
  have rounded := @FPFormat.cvtf_rounded _ _ short (r.toNat ||| (fpscr >>> 22 &&& 12)) fbits (direction.symm ▸ plain)
    (by rwa [direction]) op u
  rw [direction] at rounded
  exact ⟨_, rfl, rounded⟩

/-! ### The conversions -/

/-- **Every conversion rounds exactly once**, and saturates what does not fit its word. -/
theorem conversions_exact :
    (ToFixed FP16 16 fplibFPToFixed16From16 ∧ ToFixed FP16 32 fplibFPToFixed32From16 ∧
      ToFixed FP16 64 fplibFPToFixed64From16 ∧ ToFixed FP32 32 fplibFPToFixed32From32 ∧
      ToFixed FP32 64 fplibFPToFixed64From32 ∧ ToFixed FP64 32 fplibFPToFixed32From64 ∧
      ToFixed FP64 64 fplibFPToFixed64From64) ∧
    (ToIntegral FP16 fplibRoundInt16 ∧ ToIntegral FP32 fplibRoundInt32 ∧ ToIntegral FP64 fplibRoundInt64) ∧
    (FromFixed FP16 fplibFixedToFP16 ∧ FromFixed FP32 fplibFixedToFP32 ∧ FromFixed FP64 fplibFixedToFP64) := by
  refine ⟨⟨?_, ?_, ?_, ?_, ?_, ?_, ?_⟩, ⟨?_, ?_, ?_⟩, ?_, ?_, ?_⟩
  · exact Width.toFixed_spec .half converts_fpToFixed16 (by norm_num) (by decide)
  · exact Width.toFixed_spec .half converts_fpToFixed32 (by norm_num) (by decide)
  · exact Width.toFixed_spec .half converts_fpToFixed64 (by norm_num) (by decide)
  · exact Width.toFixed_spec .single converts_fpToFixed32 (by norm_num) (by decide)
  · exact Width.toFixed_spec .single converts_fpToFixed64 (by norm_num) (by decide)
  · exact Width.toFixed_spec .double converts_fpToFixed32 (by norm_num) (by decide)
  · exact Width.toFixed_spec .double converts_fpToFixed64 (by norm_num) (by decide)
  · exact Width.roundInt_spec .half
  · exact Width.roundInt_spec .single
  · exact Width.roundInt_spec .double
  · exact Width.fixedToFP_spec .half (FPFormat.digitsOf_cvtfDigits (by decide))
  · exact Width.fixedToFP_spec .single (FPFormat.digitsOf_cvtfDigits (by decide))
  · exact Width.fixedToFP_spec .double digitsOf_double

/-- Two and a half to a word of 32 bits: the ties go to the even integer, or away from zero. -/
example : fplibFPToFixed32From64 0x4004000000000000 0 false .TIEEVEN 0 = some (2, FPLIB_IXC) ∧
    fplibFPToFixed32From64 0x4004000000000000 0 false .TIEAWAY 0 = some (3, FPLIB_IXC) := by
  decide

end Emas.Gem5.Fplib

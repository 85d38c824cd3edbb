/-
**Fused multiplication and addition.**

The addend and the product are aligned in a word of twice the width, or in two words. Which digits the addend is moved
to differs between the widths, `aligned_terms` has that as a parameter.

* `FPFormat.muladd_cell`: **the cell of half a quantum** is kept by what was cut off, for any cancellation.
-/

import Emas.Gem5.FpAdd

namespace Emas.Gem5.Fplib

section Muladd

variable {K : Type} [Field K] [LinearOrder K] [IsStrictOrderedRing K] [FloorRing K]

omit [LinearOrder K] [IsStrictOrderedRing K] [FloorRing K] in
theorem signed_mul_signed (neg neg' : Bool) (v w : K) :
    signed neg v * signed neg' w = signed (neg ^^ neg') (v * w) := by
  cases neg <;> cases neg' <;> simp [signed]

namespace FPFormat

variable {fmt : FPFormat} {mode flags : ℕ} {sgn : Bool}

theorem muladd_cell {sx mnt k : ℕ} {exp : ℤ} {r : K} (moved : 2 ≤ sx) (same : SameCell 2 r (mnt : K))
    (word : mnt * 2 ^ k < 2 ^ (2 * fmt.bits))
    (room : r = mnt ∨ exp = 2 * fmt.bits - fmt.mantBits - sx ∨ 2 ^ (fmt.mantBits + 2) ≤ mnt) :
    SameCell (2 ^ (fmt.expBits + (1 - (exp - k)).toNat + (fmt.bits - 1)) : K) (r * 2 ^ k) (mnt * 2 ^ k) := by
  have split := fmt.bits_split
  rcases room with exact | least | far
  · rw [exact]
    exact SameCell.refl ..
  · exact same.shift (by omega)
  · have near := shift_le far word
    exact same.shift (by omega)

/-- The addend and the product at one exponent, `sx` of the digits below the addend. -/
structure Aligns (fmt : FPFormat) (x y : K) (X Y sx : ℕ) (exp : ℤ) : Prop where
  aligned : Aligned x y X Y
  nonneg : 0 ≤ x
  nonneg' : 0 ≤ y
  word : X + Y < 2 ^ (2 * fmt.bits)
  room : (x = X ∧ y = Y) ∨ exp = 2 * fmt.bits - fmt.mantBits - sx ∨ 2 ^ (fmt.mantBits + 2) + Y ≤ X ∨
    2 ^ (fmt.mantBits + 2) + X ≤ Y

/-- **Aligned terms are added and rounded once**, if what is left is normalised and rounded. -/
theorem Aligns.rounded {x y : K} {X Y sx mnt : ℕ} {exp : ℤ} (aligns : fmt.Aligns x y X Y sx exp) (moved : 2 ≤ sx)
    {neg neg' : Bool} (differ : X = 0 → Y = 0 → neg ≠ neg') (sign : sgn = if neg = neg' ∨ X ≥ Y then neg else !neg)
    (magnitude : mnt = if neg = neg' then X + Y else if X ≥ Y then X - Y else Y - X) {result : ℕ × ℕ}
    (normalised : 0 < mnt → ∀ r : K, 0 < r → (∀ k : ℕ, mnt * 2 ^ k < 2 ^ (2 * fmt.bits) →
        SameCell (2 ^ (fmt.expBits + (1 - (exp - k)).toNat + (fmt.bits - 1)) : K) (r * 2 ^ k) (mnt * 2 ^ k)) →
      fmt.RoundedOnce mode sgn (r * 2 ^ (exp - fmt.expBias - (2 * fmt.bits - 1 : ℕ))) flags result) :
    fmt.RoundedOnce mode (sumSign mode neg neg' (signed neg (x * 2 ^ (exp - fmt.expBias - (2 * fmt.bits - 1 : ℕ)))
        + signed neg' (y * 2 ^ (exp - fmt.expBias - (2 * fmt.bits - 1 : ℕ)))))
      |signed neg (x * 2 ^ (exp - fmt.expBias - (2 * fmt.bits - 1 : ℕ)))
        + signed neg' (y * 2 ^ (exp - fmt.expBias - (2 * fmt.bits - 1 : ℕ)))| flags
      (if mnt = 0 then (fmt.zero (mode &&& 3 = 2), flags) else result) := by
  refine sum_rounded aligns.aligned aligns.nonneg aligns.nonneg' (zpow_pos two_pos _) differ sign magnitude
    fun some r positive same exact => normalised some r positive fun k word => muladd_cell moved same word ?_
  have leading := Nat.two_pow_pos (fmt.mantBits + 2)
  rcases aligns.room with ⟨is, is'⟩ | least | above | above
  · exact Or.inl (exact is is')
  · exact Or.inr (Or.inl least)
  · right; right
    rw [magnitude]
    split
    · omega
    · rw [if_pos (by omega)]
      omega
  · right; right
    rw [magnitude]
    split
    · omega
    · rw [if_neg (by omega)]
      omega

theorem magnitude_lt {X Y n : ℕ} (less : X + Y < n) (neg neg' : Bool) :
    (if neg = neg' then X + Y else if X ≥ Y then X - Y else Y - X) < n := by
  split
  · exact less
  · split <;> omega

section Terms

variable {xa xb xc : ℕ} {na nb nc : Bool} {va vb vc : K} {a b c : Unpacked} {sx : ℕ}

/-- The exponent of the addend, that of the product, and the greater one. -/
def addendExp (fmt : FPFormat) (sx : ℕ) (a : Unpacked) : ℤ := a.exp + (2 * fmt.bits - 1 - fmt.mantBits - sx)

/-- The exponent of the product, or that of the addend where it is zero. -/
def productExp (fmt : FPFormat) (sx : ℕ) (a b c : Unpacked) : ℤ :=
  if b.mnt * c.mnt = 0 then fmt.addendExp sx a else b.exp + c.exp - fmt.expBias + 2 * fmt.expBits - 2

omit [FloorRing K] in
theorem Operand.addend_value (addend : fmt.Operand xa na va a) (sx : ℕ) :
    va = ((a.mnt * 2 ^ sx : ℕ) : K) * 2 ^ (fmt.addendExp sx a - fmt.expBias - (2 * fmt.bits - 1 : ℕ)) := by
  have split := fmt.bits_split
  have exponent : a.exp - fmt.expBias - fmt.mantBits
      = sx + (fmt.addendExp sx a - fmt.expBias - (2 * fmt.bits - 1 : ℕ)) := by
    rw [addendExp]
    omega
  rw [addend.value, exponent, zpow_add₀ two_ne_zero, zpow_natCast]
  push_cast
  ring

omit [FloorRing K] in
theorem Operand.product_value (first : fmt.Operand xb nb vb b) (second : fmt.Operand xc nc vc c)
    (a : Unpacked) (sx : ℕ) : vb * vc = ((b.mnt * c.mnt * 2 ^ 3 : ℕ) : K)
      * 2 ^ (fmt.productExp sx a b c - fmt.expBias - (2 * fmt.bits - 1 : ℕ)) := by
  have split := fmt.bits_split
  rw [first.value, second.value, productExp]
  split
  next none =>
    rw [none, Nat.zero_mul, Nat.cast_zero, zero_mul, mul_mul_mul_comm, ← Nat.cast_mul, none, Nat.cast_zero, zero_mul]
  next =>
    have exponent : b.exp - fmt.expBias - fmt.mantBits + (c.exp - fmt.expBias - fmt.mantBits)
        = (3 : ℕ) + (b.exp + c.exp - fmt.expBias + 2 * fmt.expBits - 2 - fmt.expBias - (2 * fmt.bits - 1 : ℕ)) := by
      omega
    rw [mul_mul_mul_comm, ← zpow_add₀ two_ne_zero, exponent, zpow_add₀ two_ne_zero, zpow_natCast]
    push_cast
    ring

theorem jammed_value {w X d : ℕ} (word : X < 2 ^ w) {e e' : ℤ} (shift : d = (e' - e).toNat) (le : e ≤ e') :
    SameCell 2 ((X : K) / 2 ^ d) (shiftRightJam w X d : ℕ) ∧
      (X : K) / 2 ^ d * 2 ^ e' = X * 2 ^ e ∧ (shiftRightJam w X d = 0 → X = 0) ∧
      shiftRightJam w X d ≤ X / 2 ^ d + 1 := by
  have cell := shiftRightJam_cell (K := K) word d
  refine ⟨cell, ?_, fun none => ?_, shiftRightJam_le word d⟩
  · have exponent : e' = e + d := by omega
    rw [exponent, zpow_add₀ two_ne_zero, zpow_natCast]
    field_simp
  · have zero := (cell.eq_iff two_pos 0).mpr (by rw [none, Nat.cast_zero, Int.cast_zero, mul_zero])
    rwa [Int.cast_zero, mul_zero, div_eq_zero_iff, or_iff_left (by positivity), Nat.cast_eq_zero] at zero

/-- **The addend and the product are aligned.** -/
theorem aligned_terms (addend : fmt.Operand xa na va a) (first : fmt.Operand xb nb vb b)
    (second : fmt.Operand xc nc vc c) (room : fmt.mantBits + 4 ≤ sx) (fits : fmt.mantBits + sx + 2 ≤ 2 * fmt.bits)
    (subnormal : (2 * fmt.expBits - fmt.expBias : ℤ) ≤ 2 * fmt.bits - fmt.mantBits - sx) {X Y : ℕ} {exp : ℤ}
    (is : X = if fmt.addendExp sx a ≥ fmt.productExp sx a b c then a.mnt * 2 ^ sx
      else shiftRightJam (2 * fmt.bits) (a.mnt * 2 ^ sx) (fmt.productExp sx a b c - fmt.addendExp sx a).toNat)
    (is' : Y = if fmt.addendExp sx a ≥ fmt.productExp sx a b c then
        shiftRightJam (2 * fmt.bits) (b.mnt * c.mnt * 2 ^ 3) (fmt.addendExp sx a - fmt.productExp sx a b c).toNat
      else b.mnt * c.mnt * 2 ^ 3)
    (top : exp = if fmt.addendExp sx a ≥ fmt.productExp sx a b c then fmt.addendExp sx a else fmt.productExp sx a b c) :
    ∃ x y : K, fmt.Aligns x y X Y sx exp ∧ va = x * 2 ^ (exp - fmt.expBias - (2 * fmt.bits - 1 : ℕ)) ∧
      vb * vc = y * 2 ^ (exp - fmt.expBias - (2 * fmt.bits - 1 : ℕ)) ∧ (X = 0 → a.mnt = 0) ∧
      (Y = 0 → b.mnt = 0 ∨ c.mnt = 0) := by
  have split := fmt.bits_split
  have short := addend.mnt_lt
  have product := first.product_lt second
  have power : ∀ m n, 2 ^ m * 2 ^ n = 2 ^ (m + n) := fun m n => (pow_add ..).symm
  have largest : a.mnt * 2 ^ sx < 2 ^ (fmt.mantBits + 1 + sx) := by
    rw [← power]
    exact Nat.mul_lt_mul_of_pos_right short (Nat.two_pow_pos sx)
  have largest' : b.mnt * c.mnt * 2 ^ 3 < 2 ^ (2 * fmt.mantBits + 5) := by
    have scaled := Nat.mul_lt_mul_of_pos_right product (Nat.two_pow_pos 3)
    rwa [power] at scaled
  have wide : 2 ^ (fmt.mantBits + 1 + sx) + 2 ^ (2 * fmt.mantBits + 5) ≤ 2 ^ (2 * fmt.bits) := by
    have one := Nat.pow_le_pow_right two_pos (show fmt.mantBits + 1 + sx ≤ 2 * fmt.bits - 1 by omega)
    have other := Nat.pow_le_pow_right two_pos (show 2 * fmt.mantBits + 5 ≤ 2 * fmt.bits - 1 by omega)
    have double : 2 ^ (2 * fmt.bits) = 2 * 2 ^ (2 * fmt.bits - 1) := by
      rw [← pow_succ', Nat.sub_add_cancel (by omega)]
    omega
  have word : a.mnt * 2 ^ sx < 2 ^ (2 * fmt.bits) := by omega
  have word' : b.mnt * c.mnt * 2 ^ 3 < 2 ^ (2 * fmt.bits) := by omega
  have value := addend.addend_value sx
  have value' := first.product_value second a sx
  have empty : b.mnt * c.mnt * 2 ^ 3 = 0 → b.mnt = 0 ∨ c.mnt = 0 := fun none =>
    mul_eq_zero.mp ((mul_eq_zero.mp none).resolve_right (Nat.two_pow_pos 3).ne')
  have empty' : a.mnt * 2 ^ sx = 0 → a.mnt = 0 := fun none =>
    (mul_eq_zero.mp none).resolve_right (Nat.two_pow_pos sx).ne'
  have least : a.exp = 1 → fmt.addendExp sx a = 2 * fmt.bits - fmt.mantBits - sx := fun least => by
    rw [addendExp, least]
    ring
  have digits := addend.normal
  -- a product that is not zero and has a greater exponent has a leading one
  have leading : fmt.addendExp sx a < fmt.productExp sx a b c → 2 ^ (fmt.mantBits + 3) ≤ b.mnt * c.mnt * 2 ^ 3 := by
    intro less
    have lowest := addend.exp_pos
    have some : 2 ^ fmt.mantBits ≤ b.mnt * c.mnt := by
      rw [productExp] at less
      split at less
      next => exact absurd less (lt_irrefl _)
      next nonzero =>
        obtain ⟨one, one'⟩ := mul_ne_zero_iff.mp nonzero
        rcases first.normal with low | normal
        · rcases second.normal with low' | normal'
          · rw [addendExp, low, low'] at less
            omega
          · exact le_trans normal' (Nat.le_mul_of_pos_left _ (Nat.pos_of_ne_zero one))
        · exact le_trans normal (Nat.le_mul_of_pos_right _ (Nat.pos_of_ne_zero one'))
    rw [← power]
    exact Nat.mul_le_mul_right _ some
  generalize fmt.addendExp sx a = e at *
  generalize fmt.productExp sx a b c = e' at *
  have apart : ∀ f f' : ℤ, (f - f').toNat
      = (f - fmt.expBias - (2 * fmt.bits - 1 : ℕ) - (f' - fmt.expBias - (2 * fmt.bits - 1 : ℕ))).toNat := by
    intro f f'
    congr 1
    ring
  by_cases le : e ≥ e'
  · rw [if_pos le] at is is' top
    obtain ⟨cell, moved, none, bound⟩ := @jammed_value K _ _ _ _ _ _ _ word' _ _ (apart e e') (by omega)
    rw [← is'] at cell none bound
    have less := Nat.div_le_self (b.mnt * c.mnt * 2 ^ 3) (2 ^ (e - e').toNat)
    refine ⟨X, _, ⟨Aligned.of_even ?_ cell, Nat.cast_nonneg _, by positivity, by omega, ?_⟩, ?_, ?_, ?_, ?_⟩
    · rw [is]
      exact Dvd.dvd.mul_left (dvd_pow_self 2 (by omega)) _
    · by_cases near : (e - e').toNat ≤ 3
      · left
        have divides : 2 ^ (e - e').toNat ∣ b.mnt * c.mnt * 2 ^ 3 := Dvd.dvd.mul_left (Nat.pow_dvd_pow 2 near) _
        have whole := shiftRightJam_exact word' divides
        refine ⟨rfl, ?_⟩
        rw [is', whole, div_eq_iff (by positivity)]
        exact_mod_cast (Nat.div_mul_cancel divides).symm
      · right
        rcases digits with low | normal
        · exact Or.inl (top.trans (least low))
        · refine Or.inr (Or.inl ?_)
          have far : b.mnt * c.mnt * 2 ^ 3 / 2 ^ (e - e').toNat ≤ b.mnt * c.mnt * 2 ^ 3 / 2 ^ 4 :=
            Nat.div_le_div_left (Nat.pow_le_pow_right two_pos (by omega)) (Nat.two_pow_pos 4)
          have above : 2 ^ (2 * fmt.mantBits + 4) ≤ X := by
            rw [is]
            refine le_trans (Nat.pow_le_pow_right two_pos ?_) (le_trans (power fmt.mantBits sx).ge
              (Nat.mul_le_mul_right _ normal))
            omega
          have small : 2 ^ (fmt.mantBits + 2) ≤ 2 ^ (2 * fmt.mantBits + 2) := Nat.pow_le_pow_right two_pos (by omega)
          have scaled : ∀ n, 2 ^ (2 * fmt.mantBits + n) = 2 ^ n * 2 ^ (2 * fmt.mantBits) := fun n => by
            rw [pow_add, mul_comm]
          have one := Nat.two_pow_pos (2 * fmt.mantBits)
          rw [scaled] at above small largest'
          omega
    · rw [value, is, top]
    · rw [value', top, moved]
    · rw [is]
      exact empty'
    · exact fun zero => empty (none zero)
  · rw [if_neg le] at is is' top
    obtain ⟨cell, moved, none, bound⟩ := @jammed_value K _ _ _ _ _ _ _ word _ _ (apart e' e) (by omega)
    rw [← is] at cell none bound
    have less := Nat.div_le_self (a.mnt * 2 ^ sx) (2 ^ (e' - e).toNat)
    refine ⟨_, Y, ⟨(Aligned.of_even ?_ cell).swap, by positivity, Nat.cast_nonneg _, by omega, ?_⟩, ?_, ?_, ?_, ?_⟩
    · rw [is']
      exact Dvd.dvd.mul_left (dvd_pow_self 2 (by omega)) _
    · by_cases near : (e' - e).toNat ≤ sx
      · left
        have divides : 2 ^ (e' - e).toNat ∣ a.mnt * 2 ^ sx := Dvd.dvd.mul_left (Nat.pow_dvd_pow 2 near) _
        have whole := shiftRightJam_exact word divides
        refine ⟨?_, rfl⟩
        rw [is, whole, div_eq_iff (by positivity)]
        exact_mod_cast (Nat.div_mul_cancel divides).symm
      · right; right; right
        have far : a.mnt * 2 ^ sx / 2 ^ (e' - e).toNat ≤ a.mnt * 2 ^ sx / 2 ^ (sx + 1) :=
          Nat.div_le_div_left (Nat.pow_le_pow_right two_pos (by omega)) (Nat.two_pow_pos _)
        have below : a.mnt * 2 ^ sx / 2 ^ (sx + 1) < 2 ^ fmt.mantBits := by
          rw [Nat.div_lt_iff_lt_mul (Nat.two_pow_pos _), power]
          refine lt_of_lt_of_eq largest ?_
          congr 1
          ring
        have above := leading (not_le.mp le)
        rw [← is'] at above
        rw [pow_succ _ (fmt.mantBits + 2), pow_succ _ (fmt.mantBits + 1), pow_succ] at above
        rw [pow_succ, pow_succ]
        omega
    · rw [value, top, moved]
    · rw [value', is', top]
    · exact fun zero => empty' (none zero)
    · rw [is']
      exact empty

/-- **The arithmetic of `muladd` in a word of twice the width.** -/
theorem muladdFinite_rounded (plain : fmt.Plain mode) (addend : fmt.Operand xa na va a) (first : fmt.Operand xb nb vb b)
    (second : fmt.Operand xc nc vc c) (differ : a.mnt = 0 → b.mnt = 0 ∨ c.mnt = 0 → na ≠ (nb ^^ nc)) :
    fmt.RoundedOnce mode (sumSign mode na (nb ^^ nc) (signed na va + signed (nb ^^ nc) (vb * vc)))
      |signed na va + signed (nb ^^ nc) (vb * vc)| flags (fmt.muladdFinite a b c 0 mode flags) := by
  have split := fmt.bits_split
  have enough := fmt.exp_pos
  have bias := fmt.bias_eq
  have large := Nat.pow_le_pow_right two_pos fmt.exp_pos
  have short := addend.mnt_lt
  have product := first.product_lt second
  have shifted : shl (2 * fmt.bits) a.mnt (fmt.mantBits + 4) = a.mnt * 2 ^ (fmt.mantBits + 4) := by
    refine shl_eq (lt_of_lt_of_le (Nat.mul_lt_mul_of_pos_right short (Nat.two_pow_pos _)) ?_)
    rw [← pow_add]
    exact Nat.pow_le_pow_right two_pos (by omega)
  have word : b.mnt * c.mnt < 2 ^ (2 * fmt.bits) := lt_of_lt_of_le product (Nat.pow_le_pow_right two_pos (by omega))
  have shifted' : shl (2 * fmt.bits) (b.mnt * c.mnt) 3 = b.mnt * c.mnt * 2 ^ 3 := by
    refine shl_eq (lt_of_lt_of_le (Nat.mul_lt_mul_of_pos_right product (Nat.two_pow_pos _)) ?_)
    rw [← pow_add]
    exact Nat.pow_le_pow_right two_pos (by omega)
  have exponent : a.exp + 2 * fmt.expBits - 3 = fmt.addendExp (fmt.mantBits + 4) a := by
    rw [addendExp]
    omega
  have exponent' : (if b.mnt * c.mnt * 2 ^ 3 = 0 then fmt.addendExp (fmt.mantBits + 4) a
      else b.exp + c.exp - fmt.expBias + 2 * fmt.expBits + 1 - 3) = fmt.productExp (fmt.mantBits + 4) a b c := by
    rw [productExp]
    refine if_congr (by rw [mul_eq_zero, or_iff_left (Nat.two_pow_pos 3).ne']) rfl ?_
    ring
  obtain ⟨x, y, aligns, value, value', zero, zero'⟩ := aligned_terms addend first second (le_refl (fmt.mantBits + 4))
    (by omega) (by push_cast; omega) rfl rfl rfl
  rw [value, value']
  rw [muladdFinite]
  simp only [Nat.mod_eq_of_lt word, shifted, shifted', exponent, exponent', addend.sgn, first.sgn, second.sgn,
    magnitude_eq aligns.word, add_zero]
  refine aligns.rounded (by omega) (fun none none' => differ (zero none) (zero' none')) rfl rfl
    fun some r positive same => ?_
  exact round_double plain some (magnitude_lt aligns.word _ _) _ positive same

end Terms

end FPFormat

/-! ### Two words -/

theorem Wide.toNat_or_flag (x : Wide) (p : Prop) [Decidable p] :
    (⟨x.x0 ||| flag p, x.x1⟩ : Wide).toNat = x.toNat ||| flag p := by
  have parity : x.toNat % 2 = 1 ↔ x.x0 % 2 = 1 := by
    rw [Wide.toNat]
    omega
  rw [or_flag x.toNat, flag_congr (or_congr parity Iff.rfl), Wide.toNat, Wide.toNat]
  dsimp only
  rw [or_flag x.x0]
  omega

/-- Two words are shifted as one. -/
theorem shiftRightJam128_spec {x : Wide} (valid : x.Valid) (d : ℕ) :
    (shiftRightJam128 x d).Valid ∧ (shiftRightJam128 x d).toNat = shiftRightJam 128 x.toNat d := by
  have word := valid.toNat_lt
  have left := lsl128_spec valid (if d < 128 then 128 - d else 0)
  have right := lsr128_spec valid d
  have parts : shiftRightJam128 x d = ⟨(lsr128 x d).x0 ||| flag
      ((lsl128 x (if d < 128 then 128 - d else 0)).x0 ||| (lsl128 x (if d < 128 then 128 - d else 0)).x1 ≠ 0),
    (lsr128 x d).x1⟩ := rfl
  generalize lsl128 x (if d < 128 then 128 - d else 0) = t at *
  have lost : t.x0 ||| t.x1 ≠ 0 ↔ x.toNat % 2 ^ d ≠ 0 := by
    have zero : t.x0 ||| t.x1 = 0 ↔ t.toNat = 0 := by rw [Nat.or_eq_zero_iff, t.toNat_eq_zero]
    rw [ne_eq, ne_eq, zero, left.2, not_iff_not]
    split
    next near =>
      have width : 2 ^ 128 = 2 ^ d * 2 ^ (128 - d) := by rw [← pow_add, Nat.add_sub_cancel' near.le]
      rw [width, Nat.mul_mod_mul_right, mul_eq_zero, or_iff_left (Nat.two_pow_pos _).ne']
    next far =>
      have beyond := Nat.pow_le_pow_right two_pos (not_lt.mp far)
      rw [pow_zero, mul_one, Nat.mod_eq_of_lt word, Nat.mod_eq_of_lt (by omega)]
  have collected := jam (x := x.toNat) (n := d) (p := x.toNat % 2 ^ d ≠ 0) id fun some => by
    rw [pow_succ, Nat.mod_mul]
    omega
  have bit := flag_lt (x.toNat % 2 ^ d ≠ 0)
  rw [parts, Wide.toNat_or_flag, right.2, flag_congr lost, collected, shiftRightJam_eq word]
  exact ⟨⟨Nat.or_lt_two_pow right.1.x0 (by omega), right.1.x1⟩, rfl⟩

theorem magnitude128 {x y : Wide} (valid : x.Valid) (valid' : y.Valid) (fits : x.toNat + y.toNat < 2 ^ 128)
    (neg neg' : Bool) {mnt : Wide} (is : mnt = if neg = neg' then add128 x y else if cmp128 x y ≥ 0 then sub128 x y
      else sub128 y x) : mnt.Valid ∧ mnt.toNat = if neg = neg' then x.toNat + y.toNat
        else if x.toNat ≥ y.toNat then x.toNat - y.toNat else y.toNat - x.toNat := by
  have above := (cmp128_spec valid valid').2
  rw [is]
  by_cases same : neg = neg'
  · rw [if_pos same, if_pos same]
    exact add128_spec valid valid' fits
  · rw [if_neg same, if_neg same]
    by_cases le : y.toNat ≤ x.toNat
    · rw [if_pos (above.mpr le), if_pos le]
      exact sub128_spec valid valid' le
    · rw [if_neg (above.not.mpr le), if_neg le]
      exact sub128_spec valid' valid (not_le.mp le).le

variable {na nb nc : Bool}

/-- **The arithmetic of `fp64_muladd`.** -/
theorem fp64MuladdFinite_rounded {mode flags : ℕ} (plain : FP64.Plain mode) {xa xb xc : ℕ}
    {va vb vc : K} {a b c : Unpacked} (addend : FP64.Operand xa na va a) (first : FP64.Operand xb nb vb b)
    (second : FP64.Operand xc nc vc c) (differ : a.mnt = 0 → b.mnt = 0 ∨ c.mnt = 0 → na ≠ (nb ^^ nc)) :
    FP64.RoundedOnce mode (sumSign mode na (nb ^^ nc) (signed na va + signed (nb ^^ nc) (vb * vc)))
      |signed na va + signed (nb ^^ nc) (vb * vc)| flags (fp64MuladdFinite a b c 0 mode flags) := by
  have digits : FP64.mantBits = 52 := rfl
  have double : 2 * FP64.bits = 128 := rfl
  have short : a.mnt < 2 ^ 53 := addend.mnt_lt
  have short' : b.mnt < 2 ^ 53 := first.mnt_lt
  have short'' : c.mnt < 2 ^ 53 := second.mnt_lt
  have shifted : shl 64 c.mnt 3 = c.mnt * 2 ^ 3 := shl_eq (by omega)
  obtain ⟨valid', product⟩ := mul62x62_spec (a := b.mnt) (b := c.mnt * 2 ^ 3) (by omega) (by omega)
  rw [← mul_assoc] at product
  have valid : (⟨0, a.mnt⟩ : Wide).Valid := ⟨by norm_num, by dsimp only; omega⟩
  have top : (⟨0, a.mnt⟩ : Wide).toNat = a.mnt * 2 ^ 64 := by
    rw [Wide.toNat, Nat.add_zero, mul_comm]
  have exponent : a.exp + FP64.expBits = FP64.addendExp 64 a := by
    rw [FPFormat.addendExp]
    rfl
  have exponent' : (if (mul62x62 b.mnt (c.mnt * 2 ^ 3)).x0 = 0 ∧ (mul62x62 b.mnt (c.mnt * 2 ^ 3)).x1 = 0
      then FP64.addendExp 64 a else b.exp + c.exp - FP64.expBias + 2 * FP64.expBits + 1 - 3)
      = FP64.productExp 64 a b c := by
    rw [FPFormat.productExp]
    refine if_congr ?_ rfl (by ring)
    rw [← Wide.toNat_eq_zero, product, mul_eq_zero, or_iff_left (Nat.two_pow_pos 3).ne']
  rw [fp64MuladdFinite]
  simp only [shifted, exponent, exponent', addend.sgn, first.sgn, second.sgn, add_zero]
  generalize mul62x62 b.mnt (c.mnt * 2 ^ 3) = z at *
  generalize (⟨0, a.mnt⟩ : Wide) = s at *
  set X := if FP64.addendExp 64 a ≥ FP64.productExp 64 a b c then s
    else shiftRightJam128 s (FP64.productExp 64 a b c - FP64.addendExp 64 a).toNat with hX
  set Y := if FP64.addendExp 64 a ≥ FP64.productExp 64 a b c then
      shiftRightJam128 z (FP64.addendExp 64 a - FP64.productExp 64 a b c).toNat
    else z with hY
  have addends : X.Valid ∧ X.toNat = if FP64.addendExp 64 a ≥ FP64.productExp 64 a b c then a.mnt * 2 ^ 64
      else shiftRightJam 128 (a.mnt * 2 ^ 64) (FP64.productExp 64 a b c - FP64.addendExp 64 a).toNat := by
    rw [hX]
    split
    · exact ⟨valid, top⟩
    · rw [← top]
      exact shiftRightJam128_spec valid _
  have products : Y.Valid ∧ Y.toNat = if FP64.addendExp 64 a ≥ FP64.productExp 64 a b c then
      shiftRightJam 128 (b.mnt * c.mnt * 2 ^ 3) (FP64.addendExp 64 a - FP64.productExp 64 a b c).toNat
      else b.mnt * c.mnt * 2 ^ 3 := by
    rw [hY]
    split
    · rw [← product]
      exact shiftRightJam128_spec valid' _
    · exact ⟨valid', product⟩
  clear_value X Y
  obtain ⟨x, y, aligns, value, value', zero, zero'⟩ := FPFormat.aligned_terms addend first second
    (show FP64.mantBits + 4 ≤ 64 by decide) (by decide) (by decide) addends.2 products.2 rfl
  have fits := aligns.word
  rw [double] at fits
  have sign : (if na = (nb ^^ nc) ∨ cmp128 X Y ≥ 0 then na else !na)
      = if na = (nb ^^ nc) ∨ X.toNat ≥ Y.toNat then na else !na :=
    if_congr (or_congr_right (cmp128_spec addends.1 products.1).2) rfl rfl
  generalize is : (if na = (nb ^^ nc) then add128 X Y else if cmp128 X Y ≥ 0 then sub128 X Y else sub128 Y X) = mnt
  obtain ⟨keeps, magnitude⟩ := magnitude128 addends.1 products.1 fits na (nb ^^ nc) is.symm
  rw [value, value', sign]
  simp only [← Wide.toNat_eq_zero]
  refine aligns.rounded (by norm_num) (fun none none' => differ (zero none) (zero' none')) rfl magnitude
    fun some r positive same => ?_
  exact round_wide plain keeps some _ positive fun k less => same k (by rwa [double])

omit [LinearOrder K] [IsStrictOrderedRing K] [FloorRing K] in
theorem muladdSpecial_finite {fmt : FPFormat} {mode flags xa xb xc : ℕ} {va vb vc : K}
    {a b c : Unpacked} (addend : fmt.Operand xa na va a) (first : fmt.Operand xb nb vb b)
    (second : fmt.Operand xc nc vc c) : fmt.muladdSpecial xa xb xc a b c mode flags
      = if a.mnt = 0 ∧ (b.mnt = 0 ∨ c.mnt = 0) ∧ na = (nb ^^ nc) then some (fmt.zero na, flags) else none := by
  have numbers : fmt.processNaNs3 xa xb xc mode flags = (0, flags) :=
    FPFormat.processAll_finite (by simpa using ⟨addend.finite, first.finite, second.finite⟩) flags
  have finite : ¬a.exp = fmt.expInf := addend.exp_lt.ne
  have finite' : ¬b.exp = fmt.expInf := first.exp_lt.ne
  have finite'' : ¬c.exp = fmt.expInf := second.exp_lt.ne
  have quiet : fmt.isQuietNaN a.exp a.mnt = false := by simp [FPFormat.isQuietNaN, finite]
  rw [FPFormat.muladdSpecial, numbers, quiet]
  simp only [ne_eq, not_true_eq_false, if_false, Bool.false_eq_true, finite, finite', finite'', false_and, or_self,
    addend.sgn, first.sgn, second.sgn]

/-- **The fused operation** on finite patterns. -/
theorem Width.muladd_rounds (T : Width) {mode : ℕ} (plain : T.format.Plain mode) {a b c : ℕ}
    {v w z : K} (addend : T.format.decode K a = .finite na v) (first : T.format.decode K b = .finite nb w)
    (second : T.format.decode K c = .finite nc z) (flags : ℕ) :
    T.format.RoundedOnce mode (sumSign mode na (nb ^^ nc) (signed na v + signed (nb ^^ nc) (w * z)))
      |signed na v + signed (nb ^^ nc) (w * z)| flags (T.muladd a b c 0 mode flags) := by
  obtain ⟨u, unpacked, operand⟩ := FPFormat.exists_operand plain addend
  obtain ⟨u', unpacked', operand'⟩ := FPFormat.exists_operand plain first
  obtain ⟨u'', unpacked'', operand''⟩ := FPFormat.exists_operand plain second
  have outcome : (∃ result, T.format.muladdSpecial a b c u u' u'' mode flags = some result ∧
      T.format.RoundedOnce mode (sumSign mode na (nb ^^ nc) (signed na v + signed (nb ^^ nc) (w * z)))
        |signed na v + signed (nb ^^ nc) (w * z)| flags result) ∨
      T.format.muladdSpecial a b c u u' u'' mode flags = none ∧
        (u.mnt = 0 → u'.mnt = 0 ∨ u''.mnt = 0 → na ≠ (nb ^^ nc)) := by
    rw [muladdSpecial_finite operand operand' operand'']
    by_cases zeros : u.mnt = 0 ∧ (u'.mnt = 0 ∨ u''.mnt = 0) ∧ na = (nb ^^ nc)
    · obtain ⟨zero, zero', same⟩ := id zeros
      have product : w * z = 0 := mul_eq_zero.mpr (zero'.imp operand'.eq_zero_iff.mpr operand''.eq_zero_iff.mpr)
      have none : signed na v + signed (nb ^^ nc) (w * z) = 0 := by
        rw [operand.eq_zero_iff.mpr zero, product, signed_eq_zero.mpr rfl, signed_eq_zero.mpr rfl, add_zero]
      rw [if_pos zeros, none, abs_zero, sumSign, if_pos rfl, if_pos same]
      exact .inl ⟨_, rfl, FPFormat.zero_rounded na⟩
    · exact .inr ⟨if_neg zeros, fun zero zero' same => zeros ⟨zero, zero', same⟩⟩
  cases T with
  | half =>
    simp only [Width.format] at unpacked unpacked' unpacked'' outcome ⊢
    rw [Width.muladd, fp16Muladd, FPFormat.muladd, unpacked, unpacked', unpacked'']
    dsimp only
    obtain ⟨result, special, rounded⟩ | ⟨special, differ⟩ := outcome
    · rw [special]
      exact rounded
    · rw [special]
      exact FPFormat.muladdFinite_rounded plain operand operand' operand'' differ
  | single =>
    simp only [Width.format] at unpacked unpacked' unpacked'' outcome ⊢
    rw [Width.muladd, fp32Muladd, FPFormat.muladd, unpacked, unpacked', unpacked'']
    dsimp only
    obtain ⟨result, special, rounded⟩ | ⟨special, differ⟩ := outcome
    · rw [special]
      exact rounded
    · rw [special]
      exact FPFormat.muladdFinite_rounded plain operand operand' operand'' differ
  | double =>
    simp only [Width.format] at unpacked unpacked' unpacked'' outcome ⊢
    rw [Width.muladd, fp64Muladd, fp64Unpack, unpacked, unpacked', unpacked'']
    dsimp only
    obtain ⟨result, special, rounded⟩ | ⟨special, differ⟩ := outcome
    · rw [special]
      exact rounded
    · rw [special]
      exact fp64MuladdFinite_rounded plain operand operand' operand'' differ

end Muladd

/-- **A product and a sum are rounded once** in all widths and modes, with their flags. -/
theorem muladd_rounded (T : Width) {mode : ℕ} (plain : T.format.Plain mode) {a b c : ℕ} {na nb nc : Bool} {v w z : ℚ}
    (addend : T.format.decode ℚ a = .finite na v) (first : T.format.decode ℚ b = .finite nb w)
    (second : T.format.decode ℚ c = .finite nc z) (flags : ℕ) :
    T.format.RoundedOnce mode (sumSign mode na (nb ^^ nc) (signed na v + signed nb w * signed nc z))
      |signed na v + signed nb w * signed nc z| flags (T.muladd a b c 0 mode flags) := by
  rw [signed_mul_signed]
  exact T.muladd_rounds plain addend first second flags

/-- One and half a quantum of it, upward. -/
theorem muladd_rounded_half :
    FP32.RoundedOnce 1 (sumSign 1 false false (signed false (1 : ℚ) + signed false (2 ^ (-24 : ℤ)) * signed false 1))
      |signed false (1 : ℚ) + signed false (2 ^ (-24 : ℤ)) * signed false 1| 0
      (Width.single.muladd 0x3f800000 0x33800000 0x3f800000 0 1 0) := by
  have one : FP32.decode ℚ 0x3f800000 = .finite false 1 := by
    rw [@FPFormat.decode_normal _ ℚ _ _ 127 0 false (by decide) (by decide) (by decide) (by decide) (by decide)]
    norm_num [FPFormat.mantBits, FP32]
  have small : FP32.decode ℚ 0x33800000 = .finite false (2 ^ (-24 : ℤ)) := by
    rw [@FPFormat.decode_normal _ ℚ _ _ 103 0 false (by decide) (by decide) (by decide) (by decide) (by decide)]
    norm_num [FPFormat.mantBits, FP32]
  exact @muladd_rounded .single 1 ⟨rfl, rfl⟩ _ _ _ _ _ _ _ _ _ one small one 0

end Emas.Gem5.Fplib

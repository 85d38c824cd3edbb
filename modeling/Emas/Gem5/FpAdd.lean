/-
**Sums and products of the library.**

The operands of a sum are aligned: the one with the smaller exponent is shifted to the right, and what is cut off is
orred into its last bit. `Aligned` says that neither the sum nor the difference leaves its cell by that, so one rounding
is left to do.

* `Aligned.total`: **the sign and the magnitude of a sum**, whether it is one of the mantissas or a difference.
-/

import Emas.Gem5.FplibOps
import Emas.Gem5.Fp128
import Mathlib.Data.Rat.Floor

namespace Emas.Gem5.Fplib

section Sums

variable {K : Type} [Field K]

/-! ### Signs -/

/-- A magnitude with its sign. -/
def signed (neg : Bool) (v : K) : K := if neg then -v else v

theorem signed_not (neg : Bool) (v : K) : signed (!neg) v = -signed neg v := by
  cases neg <;> simp [signed]

theorem signed_mul (neg : Bool) (v u : K) : signed neg (v * u) = signed neg v * u := by
  cases neg <;> simp [signed]

theorem signed_eq_zero {neg : Bool} {v : K} : signed neg v = 0 ↔ v = 0 := by
  cases neg <;> simp [signed]

variable [LinearOrder K]

/-- The sign of a sum. An exact zero has that of both terms, or it is negative when rounding down. -/
def sumSign (mode : ℕ) (neg neg' : Bool) (t : K) : Bool :=
  if t = 0 then if neg = neg' then neg else decide (mode &&& 3 = FPLIB_RM) else decide (t < 0)

variable [IsStrictOrderedRing K]

theorem abs_signed (neg : Bool) {v : K} (nonneg : 0 ≤ v) : |signed neg v| = v := by
  cases neg <;> simp [signed, abs_of_nonneg nonneg]

theorem sumSign_signed {mode : ℕ} {neg neg' sgn : Bool} {v : K} (positive : 0 < v) :
    sumSign mode neg neg' (signed sgn v) = sgn := by
  rw [sumSign, if_neg (signed_eq_zero.not.mpr positive.ne')]
  cases sgn
  · exact decide_eq_false (not_lt.mpr positive.le)
  · exact decide_eq_true (neg_lt_zero.mpr positive)

variable [FloorRing K]

/-! ### Aligned terms -/

/-- The sum and the difference of two integers are in the cells of those of two numbers. -/
structure Aligned (x y : K) (X Y : ℕ) : Prop where
  sum : SameCell 2 (x + y) (X + Y)
  diff : SameCell 2 (x - y) (X - Y)

namespace Aligned

variable {x y : K} {X Y : ℕ}

theorem swap (aligned : Aligned x y X Y) : Aligned y x Y X := by
  refine ⟨?_, ?_⟩
  · rw [add_comm y, add_comm (Y : K)]
    exact aligned.sum
  · rw [← neg_sub x, ← neg_sub (X : K)]
    exact aligned.diff.neg

theorem of_even (even : 2 ∣ X) (same : SameCell 2 y (Y : K)) : Aligned (X : K) y X Y := by
  obtain ⟨half, rfl⟩ := even
  have whole : ((2 * half : ℕ) : K) = 2 * ((half : ℤ) : K) := by
    push_cast
    rfl
  refine ⟨?_, ?_⟩
  · rw [whole, add_comm, add_comm _ (Y : K)]
    exact same.add_mul two_pos half
  · rw [whole, sub_eq_neg_add, sub_eq_neg_add]
    exact same.neg.add_mul two_pos half

theorem le_iff (aligned : Aligned x y X Y) : Y ≤ X ↔ y ≤ x := by
  have same := aligned.diff.lt_iff two_pos 0
  rw [Int.cast_zero, mul_zero, sub_neg, sub_neg, Nat.cast_lt] at same
  rw [← not_lt, ← not_lt, same]

/-- **The sum of two signed terms** as the code gets it from their magnitudes. -/
theorem total (aligned : Aligned x y X Y) (nonneg : 0 ≤ x) (nonneg' : 0 ≤ y) {neg neg' sgn : Bool} {mnt : ℕ}
    (sign : sgn = if neg = neg' ∨ X ≥ Y then neg else !neg)
    (magnitude : mnt = if neg = neg' then X + Y else if X ≥ Y then X - Y else Y - X) :
    ∃ r : K, 0 ≤ r ∧ signed neg x + signed neg' y = signed sgn r ∧ SameCell 2 r mnt ∧ (x = X → y = Y → r = mnt) := by
  by_cases same : neg = neg'
  · rw [if_pos (Or.inl same)] at sign
    rw [if_pos same] at magnitude
    rw [sign, magnitude, ← same]
    refine ⟨x + y, add_nonneg nonneg nonneg', ?_, by exact_mod_cast aligned.sum, fun is is' => by rw [is, is', Nat.cast_add]⟩
    cases neg <;> simp [signed, add_comm]
  · have opposite : neg' = !neg := by
      cases neg <;> cases neg' <;> first | rfl | exact absurd rfl same
    rw [if_neg same] at magnitude
    rw [opposite, signed_not, ← sub_eq_add_neg]
    by_cases le : X ≥ Y
    · rw [if_pos (Or.inr le)] at sign
      rw [if_pos le] at magnitude
      rw [sign, magnitude]
      refine ⟨x - y, sub_nonneg.mpr (aligned.le_iff.mp le), ?_, ?_, fun is is' => by rw [is, is', Nat.cast_sub le]⟩
      · cases neg
        · rfl
        · simp only [signed, if_true]
          ring
      · rw [Nat.cast_sub le]
        exact aligned.diff
    · rw [if_neg (not_or.mpr ⟨same, le⟩)] at sign
      rw [if_neg le] at magnitude
      have below := (not_le.mp le).le
      rw [sign, magnitude]
      refine ⟨y - x, sub_nonneg.mpr (not_le.mp (mt aligned.le_iff.mpr le)).le, ?_, ?_,
        fun is is' => by rw [is, is', Nat.cast_sub below]⟩
      · rw [signed_not]
        cases neg
        · simp [signed]
        · simp only [signed, if_true]
          ring
      · rw [Nat.cast_sub below]
        exact aligned.swap.diff

end Aligned

theorem shiftRightJam_eq {w x : ℕ} (word : x < 2 ^ w) (d : ℕ) :
    shiftRightJam w x d = 2 * (x / 2 ^ (d + 1)) + flag (x % 2 ^ (d + 1) ≠ 0) := lsr_or_flag word d

theorem shiftRightJam_cell {w x : ℕ} (word : x < 2 ^ w) (d : ℕ) :
    SameCell 2 ((x : K) / 2 ^ d) (shiftRightJam w x d : ℕ) := by
  rw [shiftRightJam_eq word]
  exact cell_jam x d

theorem shiftRightJam_le {w x : ℕ} (word : x < 2 ^ w) (d : ℕ) : shiftRightJam w x d ≤ x / 2 ^ d + 1 := by
  have bit := flag_lt (x % 2 ^ (d + 1) ≠ 0)
  have half : x / 2 ^ (d + 1) = x / 2 ^ d / 2 := by rw [pow_succ, Nat.div_div_eq_div_mul]
  rw [shiftRightJam_eq word, half]
  omega

theorem shiftRightJam_exact {w x d : ℕ} (word : x < 2 ^ w) (divides : 2 ^ d ∣ x) : shiftRightJam w x d = x / 2 ^ d := by
  obtain ⟨q, rfl⟩ := divides
  have positive := Nat.two_pow_pos d
  have cut : 2 ^ d * q % 2 ^ (d + 1) ≠ 0 ↔ q % 2 ≠ 0 := by
    rw [pow_succ, Nat.mul_mod_mul_left, ne_eq, mul_eq_zero, or_iff_right positive.ne']
  have whole : 2 ^ d * q / 2 ^ (d + 1) = q / 2 := by
    rw [pow_succ, Nat.mul_div_mul_left _ _ positive]
  rw [shiftRightJam_eq word, flag_congr cut, whole, Nat.mul_div_cancel_left _ positive]
  have bit := Nat.mod_two_eq_zero_or_one q
  rw [flag]
  split <;> omega

variable {neg neg' : Bool} {x x' : ℕ} {v v' : K} {a b : Unpacked}

namespace FPFormat

variable {fmt : FPFormat} {mode flags : ℕ} {sgn : Bool}

/-- **A sum is rounded**, if its magnitude is. An exact zero has a sign of its own. -/
theorem sum_rounded {x y u : K} {X Y mnt : ℕ} (aligned : Aligned x y X Y) (nonneg : 0 ≤ x)
    (nonneg' : 0 ≤ y) (unit : 0 < u) (differ : X = 0 → Y = 0 → neg ≠ neg')
    (sign : sgn = if neg = neg' ∨ X ≥ Y then neg else !neg)
    (magnitude : mnt = if neg = neg' then X + Y else if X ≥ Y then X - Y else Y - X) {result : ℕ × ℕ}
    (arithmetic : 0 < mnt → ∀ r : K, 0 < r → SameCell 2 r mnt → (x = X → y = Y → r = mnt) →
      fmt.RoundedOnce mode sgn (r * u) flags result) :
    fmt.RoundedOnce mode (sumSign mode neg neg' (signed neg (x * u) + signed neg' (y * u)))
      |signed neg (x * u) + signed neg' (y * u)| flags
      (if mnt = 0 then (fmt.zero (mode &&& 3 = 2), flags) else result) := by
  obtain ⟨r, nonneg'', total, same, exact⟩ := aligned.total nonneg nonneg' sign magnitude
  have zero : r = 0 ↔ mnt = 0 := by
    have cell := same.eq_iff two_pos 0
    rwa [Int.cast_zero, mul_zero, Nat.cast_eq_zero] at cell
  rw [signed_mul, signed_mul, ← add_mul, total, ← signed_mul, abs_signed _ (mul_nonneg nonneg'' unit.le)]
  by_cases none : mnt = 0
  · have apart : neg ≠ neg' := by
      intro same
      rw [if_pos same] at magnitude
      exact differ (by omega) (by omega) same
    rw [if_pos none, zero.mpr none, zero_mul, sumSign, if_pos (signed_eq_zero.mpr rfl), if_neg apart]
    exact zero_rounded _
  · have positive : 0 < r := lt_of_le_of_ne nonneg'' fun is => none (zero.mp is.symm)
    rw [if_neg none, sumSign_signed (mul_pos positive unit)]
    exact arithmetic (Nat.pos_of_ne_zero none) r positive same exact

/-- Three more bits are enough. Where bits were cut off, the leading one is far above them. -/
theorem round_sum (plain : fmt.Plain mode) {mnt : ℕ} (nonzero : 0 < mnt) (word : mnt < 2 ^ fmt.bits) (exp : ℤ) {r : K}
    (positive : 0 < r) (same : SameCell 2 r (mnt : K)) (room : r = mnt ∨ 2 ^ (fmt.mantBits + 2) ≤ mnt) :
    fmt.RoundedOnce mode sgn (r * 2 ^ (exp - fmt.expBias - fmt.mantBits - 3 : ℤ)) flags
      (fmt.round sgn ((fmt.normalise mnt exp).2 + fmt.expBits - 3) (shl fmt.bits (fmt.normalise mnt exp).1 1) mode
        flags) := by
  obtain ⟨k, is, low, high⟩ := fmt.normalise_spec exp nonzero word
  have split := fmt.bits_split
  obtain ⟨n, width⟩ : ∃ n, fmt.bits = n + 1 := ⟨fmt.bits - 1, by omega⟩
  have pred : fmt.bits - 1 = n := by omega
  have double : 2 ^ fmt.bits = 2 * 2 ^ n := by rw [width, pow_succ']
  rw [is]
  dsimp only
  rw [pred] at low
  have cut : shl fmt.bits (mnt * 2 ^ k) 1 = 2 * (mnt * 2 ^ k - 2 ^ n) := by
    have beyond : 2 ^ fmt.bits ≤ mnt * 2 ^ k * 2 := by omega
    have within : mnt * 2 ^ k * 2 - 2 ^ fmt.bits < 2 ^ fmt.bits := by omega
    rw [shl, Nat.shiftLeft_eq, pow_one, Nat.mod_eq_sub_mod beyond, Nat.mod_eq_of_lt within]
    omega
  have leading : 2 ^ fmt.bits + 2 * (mnt * 2 ^ k - 2 ^ n) = mnt * 2 ^ (k + 1) := by
    rw [pow_succ, ← mul_assoc]
    omega
  have cell : SameCell (2 ^ (fmt.expBits + (1 - (exp - k + fmt.expBits - 3)).toNat) : K) (r * 2 ^ (k + 1))
      ((2 ^ fmt.bits + 2 * (mnt * 2 ^ k - 2 ^ n) : ℕ) : K) := by
    rw [leading]
    push_cast
    rcases room with exact | far
    · rw [exact]
      exact SameCell.refl ..
    · have near := shift_le far high
      exact same.shift (by omega)
  have wordS : 2 * (mnt * 2 ^ k - 2 ^ n) < 2 ^ fmt.bits := by omega
  have rounded := @round_rounded fmt K _ _ _ _ mode flags sgn plain (exp - k + fmt.expBits - 3) _ wordS
    (r * 2 ^ (k + 1)) (by positivity) cell
  have value : r * 2 ^ (k + 1) * 2 ^ (exp - k + fmt.expBits - 3 - fmt.expBias - fmt.bits : ℤ)
      = r * 2 ^ (exp - fmt.expBias - fmt.mantBits - 3 : ℤ) := by
    have exponents : exp - fmt.expBias - fmt.mantBits - 3
        = (k + 1 : ℕ) + (exp - k + fmt.expBits - 3 - fmt.expBias - fmt.bits) := by
      rw [split]
      push_cast
      ring
    rw [exponents, zpow_add₀ two_ne_zero, zpow_natCast, mul_assoc]
  rw [cut]
  rwa [value] at rounded

theorem magnitude_eq {w X Y : ℕ} (word : X + Y < 2 ^ w) (neg neg' : Bool) :
    (if neg = neg' then (X + Y) % 2 ^ w else if X ≥ Y then sub w X Y else sub w Y X)
      = if neg = neg' then X + Y else if X ≥ Y then X - Y else Y - X := by
  by_cases same : neg = neg'
  · rw [if_pos same, if_pos same, Nat.mod_eq_of_lt word]
  · rw [if_neg same, if_neg same]
    by_cases le : X ≥ Y
    · rw [if_pos le, if_pos le, sub_eq le (by omega)]
    · rw [if_neg le, if_neg le, sub_eq (not_le.mp le).le (by omega)]

theorem aligned_operands (first : fmt.Operand x neg v a)
    (second : fmt.Operand x' neg' v' b) (le : b.exp ≤ a.exp) {X Y d : ℕ} (shift : d = (a.exp - b.exp).toNat)
    (larger : X = a.mnt * 2 ^ 3) (smaller : Y = shiftRightJam fmt.bits (b.mnt * 2 ^ 3) d) :
    Aligned (X : K) ((b.mnt * 2 ^ 3 : ℕ) / 2 ^ d) X Y ∧ v = X * 2 ^ (a.exp - fmt.expBias - fmt.mantBits - 3 : ℤ) ∧
      v' = ((b.mnt * 2 ^ 3 : ℕ) / 2 ^ d) * 2 ^ (a.exp - fmt.expBias - fmt.mantBits - 3 : ℤ) ∧
      X + Y < 2 ^ fmt.bits ∧ (((b.mnt * 2 ^ 3 : ℕ) : K) / 2 ^ d = Y ∨ 2 ^ (fmt.mantBits + 2) + Y ≤ X) ∧
      (Y = 0 → b.mnt = 0) := by
  have split := fmt.bits_split
  have enough := fmt.exp_pos
  have small := first.mnt_lt
  have small' := second.mnt_lt
  have double : ∀ n, 2 ^ (fmt.mantBits + n) = 2 ^ n * 2 ^ fmt.mantBits := fun n => by rw [pow_add, mul_comm]
  have wide : 2 ^ (fmt.mantBits + 6) ≤ 2 ^ fmt.bits := Nat.pow_le_pow_right two_pos (by omega)
  rw [double] at small small' wide
  have digits := Nat.two_pow_pos fmt.mantBits
  have word : b.mnt * 2 ^ 3 < 2 ^ fmt.bits := by omega
  have cell : SameCell 2 (((b.mnt * 2 ^ 3 : ℕ) : K) / 2 ^ d) (Y : ℕ) := by
    rw [smaller]
    exact shiftRightJam_cell word d
  have bound : Y ≤ b.mnt * 2 ^ 3 / 2 ^ d + 1 := by
    rw [smaller]
    exact shiftRightJam_le word d
  have less := Nat.div_le_self (b.mnt * 2 ^ 3) (2 ^ d)
  refine ⟨Aligned.of_even (by omega) cell, ?_, ?_, by omega, ?_, fun none => ?_⟩
  · have exponents : a.exp - fmt.expBias - fmt.mantBits = (3 : ℕ) + (a.exp - fmt.expBias - fmt.mantBits - 3) := by
      push_cast
      ring
    rw [first.value, exponents, zpow_add₀ two_ne_zero, zpow_natCast, larger]
    push_cast
    ring_nf
  · have exponents : b.exp - fmt.expBias - fmt.mantBits
        = (3 : ℕ) + (a.exp - fmt.expBias - fmt.mantBits - 3) - d := by
      push_cast
      omega
    rw [second.value, exponents, zpow_sub₀ two_ne_zero, zpow_add₀ two_ne_zero, zpow_natCast, zpow_natCast]
    push_cast
    ring
  · by_cases near : d ≤ 3
    · left
      have divides : 2 ^ d ∣ b.mnt * 2 ^ 3 := Dvd.dvd.mul_left (Nat.pow_dvd_pow 2 near) _
      have whole := shiftRightJam_exact word divides
      obtain ⟨q, is⟩ := divides
      rw [smaller, whole, is, Nat.mul_div_cancel_left _ (Nat.two_pow_pos d)]
      push_cast
      rw [mul_div_cancel_left₀ _ (by positivity)]
    · -- the larger operand is normal, and the smaller one is far below its leading one
      right
      have least := second.exp_pos
      have normal := first.normal.resolve_left (by omega)
      have far : b.mnt * 2 ^ 3 / 2 ^ d ≤ b.mnt * 2 ^ 3 / 2 ^ 4 :=
        Nat.div_le_div_left (Nat.pow_le_pow_right two_pos (by omega)) (Nat.two_pow_pos 4)
      rw [double]
      omega
  · have zero := (cell.eq_iff two_pos 0).mpr (by rw [none, Nat.cast_zero, Int.cast_zero, mul_zero])
    rw [Int.cast_zero, mul_zero, div_eq_zero_iff, or_iff_left (by positivity), Nat.cast_eq_zero] at zero
    omega

theorem addAligned_rounded (plain : fmt.Plain mode) {x y : K} {X Y : ℕ} (aligned : Aligned x y X Y)
    (nonneg : 0 ≤ x) (nonneg' : 0 ≤ y) (word : X + Y < 2 ^ fmt.bits) (differ : X = 0 → Y = 0 → neg ≠ neg')
    (room : (x = X ∧ y = Y) ∨ 2 ^ (fmt.mantBits + 2) + Y ≤ X ∨ 2 ^ (fmt.mantBits + 2) + X ≤ Y) (exp : ℤ) {mnt : ℕ}
    (magnitude : mnt = if neg = neg' then (X + Y) % 2 ^ fmt.bits else if X ≥ Y then sub fmt.bits X Y
      else sub fmt.bits Y X) :
    fmt.RoundedOnce mode (sumSign mode neg neg' (signed neg (x * 2 ^ (exp - fmt.expBias - fmt.mantBits - 3 : ℤ))
        + signed neg' (y * 2 ^ (exp - fmt.expBias - fmt.mantBits - 3 : ℤ))))
      |signed neg (x * 2 ^ (exp - fmt.expBias - fmt.mantBits - 3 : ℤ))
        + signed neg' (y * 2 ^ (exp - fmt.expBias - fmt.mantBits - 3 : ℤ))| flags
      (if mnt = 0 then (fmt.zero (mode &&& 3 = 2), flags)
        else fmt.round (if neg = neg' ∨ X ≥ Y then neg else !neg) ((fmt.normalise mnt exp).2 + fmt.expBits - 3)
          (shl fmt.bits (fmt.normalise mnt exp).1 1) mode flags) := by
  rw [magnitude_eq word] at magnitude
  refine sum_rounded aligned nonneg nonneg' (zpow_pos two_pos _) differ rfl magnitude fun some r positive same exact => ?_
  refine round_sum plain some ?_ exp positive same ?_
  · rw [magnitude]
    split
    · exact word
    · split <;> omega
  · have leading := Nat.two_pow_pos (fmt.mantBits + 2)
    rcases room with ⟨is, is'⟩ | above | above
    · exact Or.inl (exact is is')
    · right
      rw [magnitude]
      split
      · omega
      · rw [if_pos (by omega)]
        omega
    · right
      rw [magnitude]
      split
      · omega
      · rw [if_neg (by omega)]
        omega

/-- **The arithmetic of `add`** rounds once. -/
theorem addFinite_rounded (plain : fmt.Plain mode)
    (first : fmt.Operand x neg v a) (second : fmt.Operand x' neg' v' b) (differ : a.mnt = 0 → b.mnt = 0 → neg ≠ neg') :
    fmt.RoundedOnce mode (sumSign mode neg neg' (signed neg v + signed neg' v')) |signed neg v + signed neg' v'| flags
      (fmt.addFinite a b mode flags) := by
  have split := fmt.bits_split
  have enough := fmt.exp_pos
  have room : ∀ m : ℕ, m < 2 ^ (fmt.mantBits + 1) → shl fmt.bits m 3 = m * 2 ^ 3 := fun m short => by
    refine shl_eq (lt_of_lt_of_le (Nat.mul_lt_mul_of_pos_right short (Nat.two_pow_pos 3)) ?_)
    rw [← pow_add]
    exact Nat.pow_le_pow_right two_pos (by omega)
  simp only [addFinite, room _ first.mnt_lt, room _ second.mnt_lt, first.sgn, second.sgn]
  by_cases le : a.exp ≥ b.exp
  · obtain ⟨aligned, value, value', word, room, zero⟩ := aligned_operands first second le rfl rfl rfl
    simp only [if_pos le]
    rw [value, value']
    refine addAligned_rounded plain aligned (Nat.cast_nonneg _) (by positivity) word
      (fun none none' => differ (by omega) (zero none')) ?_ a.exp rfl
    exact room.imp (fun is => ⟨rfl, is⟩) Or.inl
  · obtain ⟨aligned, value, value', word, room, zero⟩ := aligned_operands second first (not_le.mp le).le rfl rfl rfl
    simp only [if_neg le]
    rw [value, value']
    refine addAligned_rounded plain aligned.swap (by positivity) (Nat.cast_nonneg _) (by omega)
      (fun none none' => differ (zero none) (by omega)) ?_ b.exp rfl
    exact room.imp (fun is => ⟨is, rfl⟩) Or.inr

omit [LinearOrder K] [IsStrictOrderedRing K] [FloorRing K] in
theorem addSpecial_finite (first : fmt.Operand x neg v a)
    (second : fmt.Operand x' neg' v' b) : fmt.addSpecial x x' a b mode flags
      = if a.mnt = 0 ∧ b.mnt = 0 ∧ neg = neg' then some (fmt.zero neg, flags) else none := by
  have numbers : fmt.processNaNs x x' mode flags = (0, flags) :=
    processAll_finite (by simpa using ⟨first.finite, second.finite⟩) flags
  have finite : ¬a.exp = fmt.expInf := first.exp_lt.ne
  have finite' : ¬b.exp = fmt.expInf := second.exp_lt.ne
  rw [addSpecial, numbers]
  simp only [ne_eq, not_true_eq_false, if_false, finite, finite', false_and, first.sgn, second.sgn]

/-- **Addition and subtraction** of finite patterns. -/
theorem add_rounds (plain : fmt.Plain mode) {a b : ℕ} {v w : K}
    (first : fmt.decode K a = .finite neg v) (second : fmt.decode K b = .finite neg' w) (minus : Bool) (flags : ℕ) :
    fmt.RoundedOnce mode (sumSign mode neg (neg' ^^ minus) (signed neg v + signed (neg' ^^ minus) w))
      |signed neg v + signed (neg' ^^ minus) w| flags (fmt.add a b minus mode flags) := by
  obtain ⟨u, unpacked, operand⟩ := exists_operand plain first
  obtain ⟨u', unpacked', operand'⟩ := exists_operand plain second
  have operand'' : fmt.Operand b (neg' ^^ minus) w { u' with sgn := u'.sgn ^^ minus } :=
    { operand' with sgn := congrArg (· ^^ minus) operand'.sgn }
  rw [add, unpacked, unpacked', addSpecial_finite operand operand'']
  by_cases zeros : u.mnt = 0 ∧ u'.mnt = 0 ∧ neg = (neg' ^^ minus)
  · rw [if_pos zeros]
    obtain ⟨zero, zero', same⟩ := zeros
    have none : signed neg v + signed (neg' ^^ minus) w = 0 := by
      rw [operand.eq_zero_iff.mpr zero, operand'.eq_zero_iff.mpr zero', signed_eq_zero.mpr rfl, signed_eq_zero.mpr rfl,
        add_zero]
    rw [none, abs_zero, sumSign, if_pos rfl, if_pos same]
    exact zero_rounded neg
  · rw [if_neg zeros]
    exact addFinite_rounded plain operand operand'' fun zero zero' same => zeros ⟨zero, zero', same⟩

/-! ### Products -/

theorem lower_half {n x : ℕ} (some : 1 < n) :
    lsr (2 * n) x (n - 1) ||| flag (lsl (2 * n) x (n + 1) ≠ 0)
      = x >>> (n - 1) ||| flag (shl (2 * n) x 1 % 2 ^ n ≠ 0) := by
  have square : 2 ^ (2 * n) = 2 ^ n * 2 ^ n := by rw [two_mul, pow_add]
  have divides : 2 ^ n ∣ 2 ^ (2 * n) := Nat.pow_dvd_pow 2 (by omega)
  have lower : lsl (2 * n) x (n + 1) ≠ 0 ↔ shl (2 * n) x 1 % 2 ^ n ≠ 0 := by
    have moved : x * 2 ^ (n + 1) = 2 ^ n * (x * 2 ^ 1) := by ring
    rw [lsl, if_pos (by omega), shl, shl, Nat.mod_mod_of_dvd _ divides, Nat.shiftLeft_eq, Nat.shiftLeft_eq, moved,
      square, Nat.mul_mod_mul_left, ne_eq, mul_eq_zero, or_iff_right (Nat.two_pow_pos n).ne']
  rw [lsr, if_pos (by omega), flag_congr lower]

theorem Operand.product (first : fmt.Operand x neg v a) (second : fmt.Operand x' neg' v' b) :
    ((a.mnt * b.mnt : ℕ) : K) * 2 ^ (a.exp + b.exp - fmt.expBias + 2 * fmt.expBits + 1 - fmt.expBias
      - (2 * fmt.bits - 1 : ℕ) : ℤ) = v * v' := by
  have split := fmt.bits_split
  have exponents : a.exp + b.exp - fmt.expBias + 2 * fmt.expBits + 1 - fmt.expBias - (2 * fmt.bits - 1 : ℕ)
      = a.exp - fmt.expBias - fmt.mantBits + (b.exp - fmt.expBias - fmt.mantBits) := by
    omega
  rw [exponents, zpow_add₀ two_pos.ne', first.value, second.value]
  push_cast
  ring

omit [LinearOrder K] [IsStrictOrderedRing K] [FloorRing K] in
theorem Operand.product_lt (first : fmt.Operand x neg v a)
    (second : fmt.Operand x' neg' v' b) : a.mnt * b.mnt < 2 ^ (2 * fmt.mantBits + 2) := by
  have power : 2 ^ (2 * fmt.mantBits + 2) = 2 ^ (fmt.mantBits + 1) * 2 ^ (fmt.mantBits + 1) := by
    rw [← pow_add]
    congr 1
    ring
  rw [power]
  exact Nat.mul_lt_mul'' first.mnt_lt second.mnt_lt

/-- **The arithmetic of `mul`** rounds once. -/
theorem mulFinite_rounded (plain : fmt.Plain mode)
    (first : fmt.Operand x neg v a) (second : fmt.Operand x' neg' v' b) (nonzero : 0 < a.mnt * b.mnt) :
    fmt.RoundedOnce mode (neg ^^ neg') (v * v') flags (fmt.mulFinite a b mode flags) := by
  have split := fmt.bits_split
  have word : a.mnt * b.mnt < 2 ^ (2 * fmt.bits) :=
    lt_of_lt_of_le (first.product_lt second) (Nat.pow_le_pow_right two_pos (by omega))
  have rounded := @round_double K _ _ _ _ fmt mode flags (neg ^^ neg') plain _ nonzero word
    (a.exp + b.exp - fmt.expBias + 2 * fmt.expBits + 1) ((a.mnt * b.mnt : ℕ) : K) (Nat.cast_pos.mpr nonzero)
    fun k _ => SameCell.refl ..
  rw [first.product second] at rounded
  have enough := fmt.exp_pos
  rw [mulFinite, Nat.mod_eq_of_lt word, first.sgn, second.sgn, lower_half (by omega)]
  exact rounded

end FPFormat

theorem round_wide {mode flags : ℕ} {sgn : Bool} (plain : FP64.Plain mode) {x : Wide} (valid : x.Valid)
    (nonzero : 0 < x.toNat) (exp : ℤ) {y : K} (positive : 0 < y) (same : ∀ k : ℕ, x.toNat * 2 ^ k < 2 ^ 128 →
      SameCell (2 ^ (FP64.expBits + (1 - (exp - k)).toNat + (FP64.bits - 1)) : K) (y * 2 ^ k) (x.toNat * 2 ^ k)) :
    FP64.RoundedOnce mode sgn (y * 2 ^ (exp - FP64.expBias - (2 * FP64.bits - 1 : ℕ))) flags
      (fp64Round sgn (fp128Normalise x exp).2
        (shl 64 (fp128Normalise x exp).1.x1 1 ||| flag ((fp128Normalise x exp).1.x0 ≠ 0)) mode flags) := by
  obtain ⟨k, keeps, is, exponent, low, high⟩ := fp128Normalise_spec exp valid nonzero
  have cell := same k high
  have rounded := @FPFormat.round_top K _ _ _ _ FP64 mode flags sgn plain _ low high (exp - k) (y * 2 ^ k) (by positivity)
    (by exact_mod_cast cell)
  have value : y * 2 ^ k * 2 ^ (exp - k - FP64.expBias - (2 * FP64.bits - 1 : ℕ))
      = y * 2 ^ (exp - FP64.expBias - (2 * FP64.bits - 1 : ℕ)) := by
    have exponents : exp - FP64.expBias - (2 * FP64.bits - 1 : ℕ)
        = k + (exp - k - FP64.expBias - (2 * FP64.bits - 1 : ℕ)) := by
      ring
    rw [exponents, zpow_add₀ two_ne_zero, zpow_natCast, mul_assoc]
  have collapsed : shl 64 (fp128Normalise x exp).1.x1 1 ||| flag ((fp128Normalise x exp).1.x0 ≠ 0)
      = (2 * (x.toNat * 2 ^ k / 2 ^ FP64.bits) + flag (x.toNat * 2 ^ k % 2 ^ FP64.bits ≠ 0)) % 2 ^ FP64.bits := by
    show _ = (2 * (x.toNat * 2 ^ k / 2 ^ 64) + flag (x.toNat * 2 ^ k % 2 ^ 64 ≠ 0)) % 2 ^ 64
    rw [← is, Wide.toNat_high keeps, Wide.toNat_low keeps]
    have bit := flag_lt ((fp128Normalise x exp).1.x0 ≠ 0)
    rw [shl_or (by norm_num) (by omega)]
    omega
  rw [collapsed, exponent]
  rwa [value] at rounded

/-- **The multiplication of 64 bits** rounds once. -/
theorem fp64MulFinite_rounded {mode flags : ℕ} (plain : FP64.Plain mode)
    (first : FP64.Operand x neg v a) (second : FP64.Operand x' neg' v' b) (nonzero : 0 < a.mnt * b.mnt) :
    FP64.RoundedOnce mode (neg ^^ neg') (v * v') flags (fp64MulFinite a b mode flags) := by
  have small : a.mnt < 2 ^ 53 := first.mnt_lt
  have small' : b.mnt < 2 ^ 53 := second.mnt_lt
  obtain ⟨valid, product⟩ := mul62x62_spec (show a.mnt < 2 ^ 62 by omega) (show b.mnt < 2 ^ 62 by omega)
  have rounded := @round_wide K _ _ _ _ mode flags (neg ^^ neg') plain _ valid (product ▸ nonzero)
    (a.exp + b.exp - FP64.expBias + 2 * FP64.expBits + 1) ((a.mnt * b.mnt : ℕ) : K) (Nat.cast_pos.mpr nonzero)
    fun k _ => by rw [product]; exact SameCell.refl ..
  rw [first.product second] at rounded
  rw [fp64MulFinite, first.sgn, second.sgn]
  exact rounded

omit [LinearOrder K] [IsStrictOrderedRing K] [FloorRing K] in
theorem mulSpecial_finite {fmt : FPFormat} {mode flags x x' : ℕ}
    (first : fmt.Operand x neg v a) (second : fmt.Operand x' neg' v' b) : fmt.mulSpecial x x' a b mode flags
      = if a.mnt = 0 ∨ b.mnt = 0 then some (fmt.zero (neg ^^ neg'), flags) else none := by
  have numbers : fmt.processNaNs x x' mode flags = (0, flags) :=
    FPFormat.processAll_finite (by simpa using ⟨first.finite, second.finite⟩) flags
  have finite : ¬a.exp = fmt.expInf := first.exp_lt.ne
  have finite' : ¬b.exp = fmt.expInf := second.exp_lt.ne
  rw [FPFormat.mulSpecial, numbers]
  simp only [ne_eq, not_true_eq_false, if_false, finite, finite', false_and, or_self, first.sgn, second.sgn]

/-- **Multiplication** of finite patterns. -/
theorem Width.mul_rounds (T : Width) {mode : ℕ} (plain : T.format.Plain mode) {a b : ℕ} {v w : K}
    (first : T.format.decode K a = .finite neg v) (second : T.format.decode K b = .finite neg' w) (flags : ℕ) :
    T.format.RoundedOnce mode (neg ^^ neg') (v * w) flags (T.mul a b mode flags) := by
  obtain ⟨u, unpacked, operand⟩ := FPFormat.exists_operand plain first
  obtain ⟨u', unpacked', operand'⟩ := FPFormat.exists_operand plain second
  have outcome : (∃ result, T.format.mulSpecial a b u u' mode flags = some result ∧
      T.format.RoundedOnce mode (neg ^^ neg') (v * w) flags result) ∨
      T.format.mulSpecial a b u u' mode flags = none ∧ 0 < u.mnt * u'.mnt := by
    rw [mulSpecial_finite operand operand']
    by_cases zero : u.mnt = 0 ∨ u'.mnt = 0
    · have none : v * w = 0 := mul_eq_zero.mpr (zero.imp operand.eq_zero_iff.mpr operand'.eq_zero_iff.mpr)
      rw [if_pos zero, none]
      exact .inl ⟨_, rfl, FPFormat.zero_rounded _⟩
    · obtain ⟨some, some'⟩ := not_or.mp zero
      exact .inr ⟨if_neg zero, Nat.mul_pos (Nat.pos_of_ne_zero some) (Nat.pos_of_ne_zero some')⟩
  cases T with
  | half =>
    simp only [Width.format] at unpacked unpacked' outcome ⊢
    rw [Width.mul, fp16Mul, FPFormat.mul, unpacked, unpacked']
    dsimp only
    obtain ⟨result, special, rounded⟩ | ⟨special, some⟩ := outcome
    · rw [special]
      exact rounded
    · rw [special]
      exact FPFormat.mulFinite_rounded plain operand operand' some
  | single =>
    simp only [Width.format] at unpacked unpacked' outcome ⊢
    rw [Width.mul, fp32Mul, FPFormat.mul, unpacked, unpacked']
    dsimp only
    obtain ⟨result, special, rounded⟩ | ⟨special, some⟩ := outcome
    · rw [special]
      exact rounded
    · rw [special]
      exact FPFormat.mulFinite_rounded plain operand operand' some
  | double =>
    simp only [Width.format] at unpacked unpacked' outcome ⊢
    rw [Width.mul, fp64Mul, fp64Unpack, unpacked, unpacked']
    dsimp only
    obtain ⟨result, special, rounded⟩ | ⟨special, some⟩ := outcome
    · rw [special]
      exact rounded
    · rw [special]
      exact fp64MulFinite_rounded plain operand operand' some

end Sums

/-! ### The operations -/

theorem Width.add_eq (T : Width) : T.add = T.format.add := by
  cases T <;> rfl

theorem Width.plain_modeConv (T : Width) {fpscr : ℕ} (noFlush : modeConv fpscr &&& T.format.flush = 0) :
    T.format.Plain (modeConv fpscr) := by
  refine ⟨noFlush, ?_⟩
  have low : (fpscr >>> 22 &&& 0xf) &&& FPLIB_AHP = 0 := by
    rw [Nat.and_assoc]
    exact Nat.and_zero _
  have alternative : modeConv fpscr &&& FPLIB_AHP = 0 := by
    rw [modeConv, Nat.and_or_distrib_right, low]
    split <;> rfl
  cases T with
  | half => exact alternative
  | single => exact Nat.and_zero _
  | double => exact Nat.and_zero _

/-- **Sums, differences and products are rounded once** in all widths and modes, with their flags. -/
theorem add_mul_rounded (T : Width) {mode : ℕ} (plain : T.format.Plain mode) {a b : ℕ} {neg neg' : Bool} {v w : ℚ}
    (first : T.format.decode ℚ a = .finite neg v) (second : T.format.decode ℚ b = .finite neg' w) (flags : ℕ) :
    T.format.RoundedOnce mode (sumSign mode neg neg' (signed neg v + signed neg' w)) |signed neg v + signed neg' w| flags
        (T.add a b false mode flags) ∧
      T.format.RoundedOnce mode (sumSign mode neg (!neg') (signed neg v - signed neg' w)) |signed neg v - signed neg' w|
        flags (T.add a b true mode flags) ∧
      T.format.RoundedOnce mode (neg ^^ neg') (v * w) flags (T.mul a b mode flags) := by
  have sum := FPFormat.add_rounds plain first second false flags
  have difference := FPFormat.add_rounds plain first second true flags
  rw [Bool.xor_false] at sum
  rw [Bool.xor_true, signed_not, ← sub_eq_add_neg] at difference
  rw [T.add_eq]
  exact ⟨sum, difference, T.mul_rounds plain first second flags⟩

/-- One, and half a quantum of it, upward. -/
theorem add_mul_rounded_half :
    FP32.RoundedOnce 1 (sumSign 1 false false (signed false (1 : ℚ) + signed false (2 ^ (-24 : ℤ))))
        |signed false (1 : ℚ) + signed false (2 ^ (-24 : ℤ))| 0 (Width.single.add 0x3f800000 0x33800000 false 1 0) ∧
      FP32.RoundedOnce 1 (sumSign 1 false true (signed false (1 : ℚ) - signed false (2 ^ (-24 : ℤ))))
        |signed false (1 : ℚ) - signed false (2 ^ (-24 : ℤ))| 0 (Width.single.add 0x3f800000 0x33800000 true 1 0) ∧
      FP32.RoundedOnce 1 false ((1 : ℚ) * 2 ^ (-24 : ℤ)) 0 (Width.single.mul 0x3f800000 0x33800000 1 0) := by
  have one : FP32.decode ℚ 0x3f800000 = .finite false 1 := by
    rw [@FPFormat.decode_normal _ ℚ _ _ 127 0 false (by decide) (by decide) (by decide) (by decide) (by decide)]
    norm_num [FPFormat.mantBits, FP32]
  have small : FP32.decode ℚ 0x33800000 = .finite false (2 ^ (-24 : ℤ)) := by
    rw [@FPFormat.decode_normal _ ℚ _ _ 103 0 false (by decide) (by decide) (by decide) (by decide) (by decide)]
    norm_num [FPFormat.mantBits, FP32]
  exact @add_mul_rounded .single 1 ⟨rfl, rfl⟩ _ _ _ _ _ _ one small 0

end Emas.Gem5.Fplib

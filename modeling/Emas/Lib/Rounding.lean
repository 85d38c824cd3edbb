/-
**Rounding to binary formats.**

A format has a number of digits behind the leading one and a least and a greatest exponent. `BinaryFormat.round` rounds
a magnitude once: it takes the multiple of the quantum that the mode asks for, and where that is beyond the greatest
exponent the infinity or the largest magnitude.

* `SameCell g x y` — `x` and `y` are the same multiple of `g`, or strictly between the same two. Cells are kept when the
  grid gets coarser, and by sums with multiples, differences and scaling.
-/

import Mathlib.Algebra.Order.Floor.Ring
import Mathlib.Data.Int.Log
import Mathlib.Tactic.Positivity
import Mathlib.Tactic.Ring

namespace Emas

/-! ### Cells of a grid -/

section Cells

variable {K : Type} [Field K] [LinearOrder K] [IsStrictOrderedRing K] [FloorRing K] {g x y z : K}

/-- The same multiple of `g`, or strictly between the same two. -/
structure SameCell (g x y : K) : Prop where
  floor : ⌊x / g⌋ = ⌊y / g⌋
  ceil : ⌈x / g⌉ = ⌈y / g⌉

namespace SameCell

omit [IsStrictOrderedRing K] in
theorem refl (g x : K) : SameCell g x x := ⟨rfl, rfl⟩

omit [IsStrictOrderedRing K] in
theorem trans (first : SameCell g x y) (second : SameCell g y z) : SameCell g x z :=
  ⟨first.floor.trans second.floor, first.ceil.trans second.ceil⟩

theorem of_floor {n : ℤ} (above : n ≤ x / g) (below : x / g < n + 1) (above' : n ≤ y / g) (below' : y / g < n + 1)
    (exact : x / g = n ↔ y / g = n) : SameCell g x y := by
  have ceil : ∀ z : K, (n : K) ≤ z → z < n + 1 → ⌈z⌉ = if z = n then n else n + 1 := fun z above below => by
    split
    next is => rw [is, Int.ceil_intCast]
    next other =>
      rw [Int.ceil_eq_iff]
      push_cast
      exact ⟨by simpa using lt_of_le_of_ne above (Ne.symm other), le_of_lt below⟩
  refine ⟨?_, ?_⟩
  · rw [Int.floor_eq_iff.mpr ⟨above, below⟩, Int.floor_eq_iff.mpr ⟨above', below'⟩]
  · rw [ceil _ above below, ceil _ above' below']
    simp only [exact]

theorem neg (same : SameCell g x y) : SameCell g (-x) (-y) := by
  refine ⟨?_, ?_⟩
  · rw [neg_div, neg_div, Int.floor_neg, Int.floor_neg, same.ceil]
  · rw [neg_div, neg_div, Int.ceil_neg, Int.ceil_neg, same.floor]

theorem coarsen (same : SameCell g x y) (n : ℕ) : SameCell (g * n) x y := by
  have floor : ∀ x : K, ⌊x / (g * n)⌋ = ⌊x / g⌋ / n := fun x => by rw [← div_div, Int.floor_div_natCast]
  refine ⟨by rw [floor, floor, same.floor], ?_⟩
  have ceil : ∀ x : K, ⌈x / (g * n)⌉ = -(⌊-x / g⌋ / n) := fun x => by
    rw [← floor, neg_div, Int.floor_neg, neg_neg]
  rw [ceil, ceil, same.neg.floor]

theorem coarsen_pow {m n : ℕ} (same : SameCell (2 ^ m) x y) (le : m ≤ n) : SameCell (2 ^ n) x y := by
  obtain ⟨d, rfl⟩ := Nat.exists_eq_add_of_le le
  have coarse := same.coarsen (2 ^ d)
  push_cast at coarse
  rwa [← pow_add] at coarse

theorem add_mul (same : SameCell g x y) (positive : 0 < g) (n : ℤ) : SameCell g (x + g * n) (y + g * n) := by
  have moved : ∀ x : K, (x + g * n) / g = x / g + n := fun x => by
    rw [add_div, mul_div_cancel_left₀ _ positive.ne']
  refine ⟨?_, ?_⟩
  · rw [moved, moved, Int.floor_add_intCast, Int.floor_add_intCast, same.floor]
  · rw [moved, moved, Int.ceil_add_intCast, Int.ceil_add_intCast, same.ceil]

omit [IsStrictOrderedRing K] in
theorem scale (same : SameCell g x y) {c : K} (nonzero : c ≠ 0) : SameCell (g * c) (x * c) (y * c) := by
  refine ⟨?_, ?_⟩
  · rw [mul_div_mul_right _ _ nonzero, mul_div_mul_right _ _ nonzero, same.floor]
  · rw [mul_div_mul_right _ _ nonzero, mul_div_mul_right _ _ nonzero, same.ceil]

theorem shift {k n : ℕ} (same : SameCell 2 x y) (le : k + 1 ≤ n) : SameCell (2 ^ n) (x * 2 ^ k) (y * 2 ^ k) := by
  have nonzero : (2 ^ k : K) ≠ 0 := by positivity
  have scaled := same.scale nonzero
  rw [← pow_succ'] at scaled
  exact scaled.coarsen_pow le

theorem lt_iff (same : SameCell g x y) (positive : 0 < g) (n : ℤ) : x < g * n ↔ y < g * n := by
  rw [mul_comm, ← div_lt_iff₀ positive, ← div_lt_iff₀ positive, ← Int.floor_lt, ← Int.floor_lt, same.floor]

theorem le_iff (same : SameCell g x y) (positive : 0 < g) (n : ℤ) : x ≤ g * n ↔ y ≤ g * n := by
  rw [mul_comm, ← div_le_iff₀ positive, ← div_le_iff₀ positive, ← Int.ceil_le, ← Int.ceil_le, same.ceil]

theorem eq_iff (same : SameCell g x y) (positive : 0 < g) (n : ℤ) : x = g * n ↔ y = g * n := by
  rw [le_antisymm_iff, le_antisymm_iff, same.le_iff positive]
  exact and_congr_right fun _ => by rw [← not_lt, ← not_lt, same.lt_iff positive]

end SameCell

end Cells

/-! ### Rounding to an integer -/

/-- The four rounding directions. -/
inductive RoundingMode where
  | nearestEven | up | down | zero
  deriving DecidableEq, Repr

namespace RoundingMode

/-- The mode rounds away from zero. -/
def outward : RoundingMode → Bool → Bool
  | .up, neg => !neg
  | .down, neg => neg
  | _, _ => false

/-- What is too large becomes infinite. -/
def overflows (mode : RoundingMode) (neg : Bool) : Bool := mode == .nearestEven || mode.outward neg

end RoundingMode

section Integers

variable {K : Type} [Field K] [LinearOrder K] [IsStrictOrderedRing K] [FloorRing K] {x y : K}

/-- The integer that a magnitude of a sign is rounded to. -/
def roundMagnitude (mode : RoundingMode) (neg : Bool) (x : K) : ℤ :=
  if mode = .nearestEven then
    if x < ⌊x⌋ + 1 / 2 ∨ (x = ⌊x⌋ + 1 / 2 ∧ Even ⌊x⌋) then ⌊x⌋ else ⌈x⌉
  else if mode.outward neg then ⌈x⌉ else ⌊x⌋

theorem unit_cell (same : SameCell (1 / 2) x y) : ⌊x⌋ = ⌊y⌋ ∧ ⌈x⌉ = ⌈y⌉ := by
  have unit := same.coarsen 2
  have one : (1 / 2 * ((2 : ℕ) : K)) = 1 := by norm_num
  rw [one] at unit
  have floor := unit.floor
  have ceil := unit.ceil
  rw [div_one, div_one] at floor ceil
  exact ⟨floor, ceil⟩

/-- **Rounding depends on the cell** of the halves only. -/
theorem roundMagnitude_congr (same : SameCell (1 / 2) x y) (mode : RoundingMode) (neg : Bool) :
    roundMagnitude mode neg x = roundMagnitude mode neg y := by
  obtain ⟨floor, ceil⟩ := unit_cell same
  have half : (0 : K) < 1 / 2 := by norm_num
  have grid : (⌊x⌋ : K) + 1 / 2 = 1 / 2 * ((2 * ⌊x⌋ + 1 : ℤ) : K) := by
    push_cast
    ring
  rw [roundMagnitude, roundMagnitude, ← floor, ← ceil, grid]
  simp only [same.lt_iff half, same.eq_iff half]

/-- The integer part of a magnitude, and two bits of what is behind it: a half and anything else. -/
structure Guard (x : K) (whole error : ℕ) : Prop where
  above : whole ≤ x
  below : x < whole + 1
  exact : error = 0 ↔ x = whole
  half : error < 2 ↔ x < whole + 1 / 2
  tie : error = 2 ↔ x = whole + 1 / 2

/-- A mantissa is incremented. -/
def roundsUp (mode : RoundingMode) (neg : Bool) (whole error : ℕ) : Prop :=
  (mode = .nearestEven ∧ (2 < error ∨ (error = 2 ∧ whole % 2 = 1))) ∨ (mode.outward neg ∧ error ≠ 0)

instance (mode : RoundingMode) (neg : Bool) (whole error : ℕ) : Decidable (roundsUp mode neg whole error) :=
  inferInstanceAs (Decidable (_ ∨ _))

/-- **The guard bits** decide how a magnitude is rounded. -/
theorem Guard.round {whole error : ℕ} (guard : Guard x whole error) (mode : RoundingMode) (neg : Bool) :
    roundMagnitude mode neg x = (whole + if roundsUp mode neg whole error then 1 else 0 : ℕ) := by
  have floor : ⌊x⌋ = whole := Int.floor_eq_iff.mpr ⟨by simpa using guard.above, by simpa using guard.below⟩
  have ceil : ⌈x⌉ = (whole + if error = 0 then 0 else 1 : ℕ) := by
    rw [Int.ceil_eq_iff]
    split
    next none => simp [guard.exact.mp none]
    next some =>
      have more := lt_of_le_of_ne guard.above fun is => some (guard.exact.mpr is.symm)
      push_cast
      exact ⟨by simpa using more, le_of_lt guard.below⟩
  have even : Even (whole : ℤ) ↔ whole % 2 = 0 := by
    rw [Int.even_coe_nat, Nat.even_iff]
  rw [roundMagnitude, floor, ceil, Int.cast_natCast]
  simp only [← guard.half, ← guard.tie, even, roundsUp]
  cases mode <;> cases neg <;> simp [RoundingMode.outward] <;> split <;> (try split) <;> (try split) <;> omega

end Integers

/-! ### Rounding to a format -/

/-- The digits behind the leading one, and the exponents of the leading one. -/
structure BinaryFormat where
  mantBits : ℕ
  emin : ℤ
  emax : ℤ
  deriving DecidableEq, Repr

/-- What a pattern of a format stands for. -/
inductive Datum (K : Type) where
  | finite (neg : Bool) (magnitude : K)
  | infinity (neg : Bool)
  | nan

namespace BinaryFormat

variable {K : Type} [Field K] [LinearOrder K] [IsStrictOrderedRing K] [FloorRing K] (fmt : BinaryFormat)

/-- The exponent of a magnitude, or the least one where it is subnormal. -/
def exponent (v : K) : ℤ := max (Int.log 2 v) fmt.emin

/-- The distance of the magnitudes of the format with an exponent. -/
def quantum (K : Type) [Field K] (e : ℤ) : K := 2 ^ (e - fmt.mantBits)

def largest (K : Type) [Field K] : K := (2 ^ (fmt.mantBits + 1) - 1) * fmt.quantum K fmt.emax

/-- What a magnitude is rounded to that is too large. -/
def overflow (K : Type) [Field K] (mode : RoundingMode) (neg : Bool) : Datum K :=
  if mode.overflows neg then .infinity neg else .finite neg (fmt.largest K)

/-- A magnitude without its overflow. -/
def roundUnbounded (mode : RoundingMode) (neg : Bool) (v : K) : K :=
  roundMagnitude mode neg (v / fmt.quantum K (fmt.exponent v)) * fmt.quantum K (fmt.exponent v)

/-- **A magnitude is rounded once.** -/
def round (mode : RoundingMode) (neg : Bool) (v : K) : Datum K :=
  if fmt.roundUnbounded mode neg v < 2 ^ (fmt.emax + 1) then .finite neg (fmt.roundUnbounded mode neg v)
  else fmt.overflow K mode neg

variable {fmt} {mode : RoundingMode} {neg : Bool} {v w : K} {e : ℤ}

theorem quantum_pos (e : ℤ) : 0 < fmt.quantum K e := zpow_pos two_pos _

theorem exponent_eq (positive : 0 < v) (below : v < 2 ^ (e + 1)) (above : 2 ^ e ≤ v ∨ e = fmt.emin)
    (least : fmt.emin ≤ e) : fmt.exponent v = e := by
  have log : Int.log 2 v < e + 1 := (Int.lt_zpow_iff_log_lt Nat.one_lt_two positive).mp (by exact_mod_cast below)
  rcases above with above | is
  · have log' : e ≤ Int.log 2 v := (Int.zpow_le_iff_le_log Nat.one_lt_two positive).mp (by exact_mod_cast above)
    rw [exponent, max_eq_left (by omega)]
    omega
  · rw [exponent, max_eq_right (by omega), is]

theorem roundMagnitude_intCast (n : ℤ) : roundMagnitude mode neg (n : K) = n := by
  have half : (n : K) < n + 1 / 2 := by linarith
  rw [roundMagnitude, Int.floor_intCast, Int.ceil_intCast]
  simp only [half, true_or, ite_self]

theorem roundUnbounded_of_mul {n : ℤ} (is : v = n * fmt.quantum K (fmt.exponent v)) :
    fmt.roundUnbounded mode neg v = v := by
  have quotient : v / fmt.quantum K (fmt.exponent v) = n := by
    rw [div_eq_iff (quantum_pos _).ne']
    exact is
  rw [roundUnbounded, quotient, roundMagnitude_intCast]
  exact is.symm

theorem roundUnbounded_zero : fmt.roundUnbounded mode neg (0 : K) = 0 :=
  roundUnbounded_of_mul (n := 0) (by rw [Int.cast_zero, zero_mul])

theorem round_zero : fmt.round mode neg (0 : K) = .finite neg 0 := by
  rw [round, roundUnbounded_zero, if_pos (zpow_pos two_pos _)]

theorem quantum_add (e : ℤ) (n : ℕ) : fmt.quantum K (e + n) = 2 ^ n * fmt.quantum K e := by
  rw [quantum, quantum, ← zpow_natCast, ← zpow_add₀ two_pos.ne']
  congr 1
  ring

theorem largest_lt : fmt.largest K < 2 ^ (fmt.emax + 1) := by
  have power : (2 : K) ^ (fmt.emax + 1) = 2 ^ (fmt.mantBits + 1) * fmt.quantum K fmt.emax := by
    rw [quantum, ← zpow_natCast, ← zpow_add₀ two_ne_zero]
    congr 1
    push_cast
    ring
  rw [largest, power]
  exact mul_lt_mul_of_pos_right (by linarith) (quantum_pos _)

theorem ne_largest (ordered : fmt.emin ≤ fmt.emax) (positive : 0 < v)
    (beyond : ¬fmt.roundUnbounded mode neg v < 2 ^ (fmt.emax + 1)) : v ≠ fmt.largest K := by
  intro is
  have below : v < 2 ^ (fmt.emax + 1) := is ▸ largest_lt
  have top : fmt.exponent v ≤ fmt.emax := by
    have log : Int.log 2 v < fmt.emax + 1 :=
      (Int.lt_zpow_iff_log_lt Nat.one_lt_two positive).mp (by exact_mod_cast below)
    exact max_le (by omega) ordered
  obtain ⟨n, up⟩ := Int.le.dest top
  have whole : v = ((2 ^ (fmt.mantBits + 1) - 1) * 2 ^ n : ℤ) * fmt.quantum K (fmt.exponent v) := by
    have quanta : fmt.quantum K (fmt.exponent v + n) = _ := quantum_add (fmt.exponent v) n
    rw [up] at quanta
    conv_lhs => rw [is, largest, quanta]
    push_cast
    ring
  rw [roundUnbounded_of_mul whole] at beyond
  exact beyond below

theorem pow_le_iff (same : SameCell (fmt.quantum K e / 2) v w) (n : ℕ) : 2 ^ (e + n) ≤ v ↔ 2 ^ (e + n) ≤ w := by
  have multiple : (2 : K) ^ (e + n) = fmt.quantum K e / 2 * ((2 ^ (fmt.mantBits + n + 1) : ℤ) : K) := by
    have power : e + n = e - fmt.mantBits + (fmt.mantBits + n : ℕ) := by
      push_cast
      ring
    rw [power, zpow_add₀ two_ne_zero, zpow_natCast, quantum]
    push_cast
    ring
  rw [multiple, ← not_lt, ← not_lt, same.lt_iff (half_pos (quantum_pos e))]

/-- Rounding to a format depends on the cell of half a quantum only, and so does whether the result is exact
(`BinaryFormat.round_eq_self_iff`). -/
theorem round_guarded (mode : RoundingMode) (neg : Bool) {whole error : ℕ} (positive : 0 < v)
    (same : SameCell (fmt.quantum K e / 2) v w) (below : w < 2 ^ (e + 1)) (above : 2 ^ e ≤ w ∨ e = fmt.emin) (least : fmt.emin ≤ e)
    (guard : Guard (w / fmt.quantum K e) whole error) : fmt.exponent v = e ∧ fmt.roundUnbounded mode neg v
      = ((whole + if roundsUp mode neg whole error then 1 else 0 : ℕ) : K) * fmt.quantum K e := by
  have exponent : fmt.exponent v = e := by
    refine exponent_eq positive ?_ (above.imp_left fun above => ?_) least
    · have high := pow_le_iff same 1
      rw [← not_lt, ← not_lt, not_iff_not] at high
      exact high.mpr below
    · have low := pow_le_iff same 0
      rw [Nat.cast_zero, add_zero] at low
      exact low.mpr above
  refine ⟨exponent, ?_⟩
  have cell : SameCell (1 / 2) (v / fmt.quantum K e) (w / fmt.quantum K e) := by
    have positive : 0 < fmt.quantum K e := quantum_pos e
    have scaled := same.scale (inv_ne_zero positive.ne')
    rw [← div_eq_mul_inv, ← div_eq_mul_inv, ← div_eq_mul_inv, div_right_comm, div_self (quantum_pos e).ne'] at scaled
    exact scaled
  rw [roundUnbounded, exponent, roundMagnitude_congr cell, guard.round]
  push_cast
  rfl

/-- **The result is exact** if nothing is behind the mantissa and it is not too large. -/
theorem round_eq_self_iff {whole error : ℕ} (ordered : fmt.emin ≤ fmt.emax) (positive : 0 < v)
    (same : SameCell (fmt.quantum K e / 2) v w) (below : w < 2 ^ (e + 1)) (above : 2 ^ e ≤ w ∨ e = fmt.emin)
    (least : fmt.emin ≤ e) (guard : Guard (w / fmt.quantum K e) whole error) :
    fmt.round mode neg v = .finite neg v ↔ error = 0 ∧ fmt.roundUnbounded mode neg v < 2 ^ (fmt.emax + 1) := by
  obtain ⟨exponent, rounded⟩ := round_guarded mode neg positive same below above least guard
  have half : 0 < fmt.quantum K e / 2 := half_pos (quantum_pos e)
  have multiple : ∀ n : ℕ, (n : K) * fmt.quantum K e = fmt.quantum K e / 2 * ((2 * n : ℤ) : K) := fun n => by
    push_cast
    ring
  have self : error = 0 ↔ fmt.roundUnbounded mode neg v = v := by
    constructor
    · intro none
      have is : w = (whole : K) * fmt.quantum K e := (div_eq_iff (quantum_pos e).ne').mp (guard.exact.mp none)
      have is' : v = ((whole : ℤ) : K) * fmt.quantum K (fmt.exponent v) := by
        rw [multiple, ← same.eq_iff half, ← multiple] at is
        rw [exponent]
        exact_mod_cast is
      exact roundUnbounded_of_mul is'
    · intro is
      rw [rounded, multiple] at is
      have is' := (same.eq_iff half _).mp is.symm
      rw [← multiple, ← div_eq_iff (quantum_pos e).ne'] at is'
      rw [guard.exact, is']
      have wholes := guard.above
      have wholes' := guard.below
      rw [is'] at wholes wholes'
      have le : whole ≤ _ := Nat.cast_le.mp wholes
      have lt := Nat.lt_of_lt_of_le (Nat.cast_lt (α := K).mp (by exact_mod_cast wholes')) (Nat.le_refl (whole + 1))
      exact congrArg _ (Nat.le_antisymm (Nat.le_of_lt_succ lt) le)
  rw [round]
  split
  next inside =>
    rw [Datum.finite.injEq, and_iff_right rfl, and_iff_left inside, self]
  next beyond =>
    refine iff_of_false (fun is => ?_) fun both => beyond both.2
    rw [overflow] at is
    split at is
    next => cases is
    next => exact ne_largest ordered positive beyond (Datum.finite.inj is).2.symm

end BinaryFormat

/-! ### Rounding to integers of a word

A magnitude is rounded to an integer in one of the four directions, or to the nearest with ties away from zero
(`IntegerMode`). What is beyond the integers of a word goes to the nearest one of them (`saturate`).

* `Guard.integer` — the guard bits decide the integer in every mode, and whether it is exact (`Guard.integer_eq_iff`).
* `saturate_saturate` — a narrower word after a wider one is the narrower word alone.
-/

/-! ### Rounding to an integer -/

/-- The rounding directions, and to the nearest integer with ties away from zero. -/
inductive IntegerMode where
  | basic (mode : RoundingMode)
  | nearestAway
  deriving DecidableEq, Repr

section Integers

variable {K : Type} [Field K] [LinearOrder K] [IsStrictOrderedRing K] [FloorRing K] {x : K}

namespace IntegerMode

def round : IntegerMode → Bool → K → ℤ
  | basic mode, neg, x => roundMagnitude mode neg x
  | nearestAway, _, x => ⌊x + 1 / 2⌋

def roundSigned (mode : IntegerMode) (neg : Bool) (x : K) : ℤ := if neg then -mode.round neg x else mode.round neg x

/-- An integer part is incremented. -/
def roundsUp : IntegerMode → Bool → ℕ → ℕ → Prop
  | basic mode, neg, whole, error => Emas.roundsUp mode neg whole error
  | nearestAway, _, _, error => 2 ≤ error

instance (mode : IntegerMode) (neg : Bool) (whole error : ℕ) : Decidable (mode.roundsUp neg whole error) :=
  match mode with
  | basic mode => inferInstanceAs (Decidable (Emas.roundsUp mode neg whole error))
  | nearestAway => inferInstanceAs (Decidable (2 ≤ error))

theorem round_nonneg (mode : IntegerMode) (neg : Bool) (nonneg : 0 ≤ x) : 0 ≤ mode.round neg x := by
  have floor : 0 ≤ ⌊x⌋ := Int.floor_nonneg.mpr nonneg
  have ceil : 0 ≤ ⌈x⌉ := floor.trans (Int.floor_le_ceil x)
  cases mode with
  | basic mode =>
    rw [round, roundMagnitude]
    split
    · split <;> assumption
    · split <;> assumption
  | nearestAway => exact Int.floor_nonneg.mpr (by linarith)

theorem not_roundsUp (mode : IntegerMode) (neg : Bool) (whole : ℕ) : ¬mode.roundsUp neg whole 0 := by
  cases mode with
  | basic mode => simp [roundsUp, Emas.roundsUp]
  | nearestAway => exact Nat.not_succ_le_zero 1

end IntegerMode

theorem Guard.of_eq {whole : ℕ} (is : x = whole) : Guard x whole 0 := by
  subst is
  refine ⟨le_rfl, by linarith, iff_of_true rfl rfl, iff_of_true two_pos (by linarith), iff_of_false two_ne_zero.symm ?_⟩
  exact (by linarith : (whole : K) < whole + 1 / 2).ne

/-- **The guard bits** decide the integer. -/
theorem Guard.integer {whole error : ℕ} (guard : Guard x whole error) (mode : IntegerMode) (neg : Bool) :
    mode.round neg x = (whole + if mode.roundsUp neg whole error then 1 else 0 : ℕ) := by
  cases mode with
  | basic mode => exact guard.round mode neg
  | nearestAway =>
    show ⌊x + 1 / 2⌋ = (whole + if 2 ≤ error then 1 else 0 : ℕ)
    rw [Int.floor_eq_iff]
    have above := guard.above
    have below := guard.below
    split
    next up =>
      have half := not_lt.mp fun less => absurd (guard.half.mpr less) (not_lt.mpr up)
      push_cast
      exact ⟨by linarith, by linarith⟩
    next down =>
      have half := guard.half.mp (not_le.mp down)
      push_cast
      exact ⟨by linarith, by linarith⟩

theorem Guard.integer_eq_iff {whole error : ℕ} (guard : Guard x whole error) (mode : IntegerMode) (neg : Bool) :
    (mode.round neg x : K) = x ↔ error = 0 := by
  constructor
  · intro is
    rw [guard.exact, ← is]
    have above := guard.above
    have below := guard.below
    rw [← is] at above below
    have above' : (whole : ℤ) ≤ mode.round neg x := by exact_mod_cast above
    have below' : mode.round neg x < whole + 1 := by exact_mod_cast below
    have same : mode.round neg x = whole := by omega
    rw [same, Int.cast_natCast]
  · intro none
    rw [guard.integer mode neg, none, if_neg (mode.not_roundsUp neg whole), guard.exact.mp none]
    norm_cast

theorem IntegerMode.round_natCast (mode : IntegerMode) (neg : Bool) (n : ℕ) : mode.round neg (n : K) = n := by
  rw [(Guard.of_eq rfl).integer mode neg, if_neg (mode.not_roundsUp neg n), Nat.add_zero]

end Integers

/-! ### The integers of a word -/

/-- The least integer of a word. -/
def wordMin (unsigned : Bool) (bits : ℕ) : ℤ := if unsigned then 0 else -2 ^ (bits - 1)

/-- The greatest integer of a word. -/
def wordMax (unsigned : Bool) (bits : ℕ) : ℤ := if unsigned then 2 ^ bits - 1 else 2 ^ (bits - 1) - 1

/-- The integer of a word that is nearest. -/
def saturate (unsigned : Bool) (bits : ℕ) (n : ℤ) : ℤ := max (wordMin unsigned bits) (min n (wordMax unsigned bits))

section Saturation

variable {unsigned : Bool} {bits bits' : ℕ} {n : ℤ}

theorem zero_mem_word (unsigned : Bool) (bits : ℕ) : wordMin unsigned bits ≤ 0 ∧ 0 ≤ wordMax unsigned bits := by
  have positive := pow_pos (two_pos (α := ℤ)) bits
  have positive' := pow_pos (two_pos (α := ℤ)) (bits - 1)
  cases unsigned <;> simp only [wordMin, wordMax, if_true, Bool.false_eq_true, if_false] <;> omega

theorem wordMin_le_wordMax (unsigned : Bool) (bits : ℕ) : wordMin unsigned bits ≤ wordMax unsigned bits :=
  (zero_mem_word unsigned bits).1.trans (zero_mem_word unsigned bits).2

theorem saturate_mem (unsigned : Bool) (bits : ℕ) (n : ℤ) :
    wordMin unsigned bits ≤ saturate unsigned bits n ∧ saturate unsigned bits n ≤ wordMax unsigned bits := by
  have ordered := wordMin_le_wordMax unsigned bits
  exact ⟨le_max_left .., max_le ordered (min_le_right ..)⟩

theorem saturate_eq_self_iff :
    saturate unsigned bits n = n ↔ wordMin unsigned bits ≤ n ∧ n ≤ wordMax unsigned bits := by
  constructor
  · intro is
    rw [← is]
    exact saturate_mem unsigned bits n
  · rintro ⟨above, below⟩
    rw [saturate, min_eq_left below, max_eq_right above]

theorem word_le (unsigned : Bool) (wider : bits ≤ bits') :
    wordMin unsigned bits' ≤ wordMin unsigned bits ∧ wordMax unsigned bits ≤ wordMax unsigned bits' := by
  have power : (2 : ℤ) ^ bits ≤ 2 ^ bits' := pow_le_pow_right₀ one_le_two wider
  have power' : (2 : ℤ) ^ (bits - 1) ≤ 2 ^ (bits' - 1) := pow_le_pow_right₀ one_le_two (Nat.sub_le_sub_right wider 1)
  cases unsigned <;> simp only [wordMin, wordMax, if_true, Bool.false_eq_true, if_false] <;> omega

/-- **A narrower word after a wider one** is the narrower word alone. -/
theorem saturate_saturate (wider : bits ≤ bits') :
    saturate unsigned bits (saturate unsigned bits' n) = saturate unsigned bits n := by
  have ordered := wordMin_le_wordMax unsigned bits
  obtain ⟨low, high⟩ := word_le unsigned wider
  simp only [saturate]
  rcases le_total n (wordMax unsigned bits') with within | beyond
  · rw [min_eq_left within]
    rcases le_total n (wordMin unsigned bits') with below | above
    · rw [max_eq_left below, min_eq_left (by omega), max_eq_left low, min_eq_left (by omega), max_eq_left (by omega)]
    · rw [max_eq_right above]
  · rw [min_eq_right beyond, max_eq_right (low.trans (ordered.trans high)), min_eq_right high,
      min_eq_right (high.trans beyond)]

theorem saturate_eq_self_of_le (wider : bits ≤ bits') (fits : saturate unsigned bits n = n) :
    saturate unsigned bits' n = n := by
  rw [saturate_eq_self_iff] at fits ⊢
  obtain ⟨low, high⟩ := word_le unsigned wider
  omega

theorem saturate_of_nonpos (nonpos : n ≤ 0) (beyond : saturate unsigned bits n ≠ n) :
    saturate unsigned bits n = wordMin unsigned bits := by
  have ordered := wordMin_le_wordMax unsigned bits
  have zero := zero_mem_word unsigned bits
  rw [ne_eq, saturate_eq_self_iff] at beyond
  rw [saturate, min_eq_left (by omega), max_eq_left (by omega)]

theorem saturate_of_nonneg (nonneg : 0 ≤ n) (beyond : saturate unsigned bits n ≠ n) :
    saturate unsigned bits n = wordMax unsigned bits := by
  have ordered := wordMin_le_wordMax unsigned bits
  have zero := zero_mem_word unsigned bits
  rw [ne_eq, saturate_eq_self_iff] at beyond
  rw [saturate, min_eq_right (by omega), max_eq_right ordered]

theorem toNat_ofInt_of_nonneg (nonneg : 0 ≤ n) (less : n < 2 ^ bits) : ((BitVec.ofInt bits n).toNat : ℤ) = n := by
  rw [BitVec.toNat_ofInt, Nat.cast_pow, Nat.cast_ofNat, Int.emod_eq_of_lt nonneg less, Int.toNat_of_nonneg nonneg]

theorem toNat_ofInt_of_neg (neg : n < 0) (above : -2 ^ bits ≤ n) :
    ((BitVec.ofInt bits n).toNat : ℤ) = n + 2 ^ bits := by
  rw [BitVec.toNat_ofInt, Nat.cast_pow, Nat.cast_ofNat, ← Int.add_emod_right,
    Int.emod_eq_of_lt (by omega) (by omega), Int.toNat_of_nonneg (by omega)]

theorem toNat_ofInt_mod (wider : bits ≤ bits') (n : ℤ) :
    (BitVec.ofInt bits' n).toNat % 2 ^ bits = (BitVec.ofInt bits n).toNat := by
  have nonneg : ∀ k : ℕ, 0 ≤ n % 2 ^ k := fun k => Int.emod_nonneg n (pow_pos two_pos k).ne'
  apply Int.ofNat_inj.mp
  rw [BitVec.toNat_ofInt, BitVec.toNat_ofInt, Int.natCast_emod]
  push_cast
  rw [Int.toNat_of_nonneg (nonneg bits), Int.toNat_of_nonneg (nonneg bits')]
  exact Int.emod_emod_of_dvd n (pow_dvd_pow 2 wider)

end Saturation

end Emas

/-
**Heron's rule in fixed point.**

The rule goes from `x` to `(s ^ 2 / x + x) / 2` and comes out above the root `s`, by the square of the error over twice
`x` (`heron_eq`). `heron_le` bounds that, and `heron_floor` is the rule with both summands cut to natural numbers.

`sqrt_of_near` is the end of such an iteration: a number near the root is cut to a unit, its neighbours are on both sides
of the root, and so it is the root but for one comparison (`near_sqrt`).
-/

import Mathlib.Tactic.FieldSimp
import Mathlib.Tactic.Linarith
import Mathlib.Tactic.Positivity
import Mathlib.Tactic.Ring

namespace Emas

section Field

variable {K : Type} [Field K] [LinearOrder K] [IsStrictOrderedRing K]

/-- **The error is squared.** -/
theorem heron_eq {s x : K} (positive : 0 < x) : (s ^ 2 / x + x) / 2 = s + (x - s) ^ 2 / (2 * x) := by
  field_simp
  ring

theorem heron_le {s x d l : K} (below : s - d ≤ x) (above : x ≤ s + d) (positive : 0 < l) (least : l ≤ x) :
    (x - s) ^ 2 / (2 * x) ≤ d ^ 2 / (2 * l) := by
  have square : (x - s) ^ 2 ≤ d ^ 2 := sq_le_sq' (by linarith) (by linarith)
  exact div_le_div₀ (sq_nonneg d) square (by positivity) (by linarith)

theorem floor_div {a : K} {n h : ℕ} (low : n ≤ a) (high : a < n + 1) (positive : 0 < h) :
    ((n / h : ℕ) : K) ≤ a / h ∧ a / h < ((n / h : ℕ) : K) + 1 := by
  have positiveK : (0 : K) < h := Nat.cast_pos.mpr positive
  constructor
  · rw [le_div_iff₀ positiveK]
    have floor : ((n / h * h : ℕ) : K) ≤ n := Nat.cast_le.mpr (Nat.div_mul_le_self n h)
    rw [Nat.cast_mul] at floor
    exact le_trans floor low
  · rw [div_lt_iff₀ positiveK]
    have floor : ((n + 1 : ℕ) : K) ≤ ((n / h + 1) * h : ℕ) := by
      refine Nat.cast_le.mpr ?_
      have := Nat.lt_div_mul_add positive (a := n)
      rw [Nat.add_mul, Nat.one_mul]
      exact this
    push_cast at floor
    linarith

theorem heron_floor {s a : K} {n h : ℕ} (low : n ≤ a) (high : a < n + 1) (root : s ^ 2 = 2 * a) (positive : 0 < h) :
    s - 3 / 2 < ((n / h + h / 2 : ℕ) : K) ∧ ((n / h + h / 2 : ℕ) : K) ≤ s + (h - s) ^ 2 / (2 * h) := by
  obtain ⟨quotient, quotient'⟩ := floor_div low high positive
  have positiveK : (0 : K) < h := Nat.cast_pos.mpr positive
  have halves : ((2 * (h / 2) : ℕ) : K) ≤ h ∧ (h : K) ≤ ((2 * (h / 2) + 1 : ℕ) : K) :=
    ⟨Nat.cast_le.mpr (by omega), Nat.cast_le.mpr (by omega)⟩
  push_cast at halves ⊢
  have step := heron_eq (s := s) positiveK
  have value : (s ^ 2 / h + h) / 2 = a / h + (h : K) / 2 := by
    rw [root]
    ring
  have nonneg : 0 ≤ (h - s) ^ 2 / (2 * h) := by positivity
  rw [value] at step
  constructor <;> linarith [halves.1, halves.2]

end Field

theorem near_sqrt {n m : ℕ} (below : n < (m + 1) * (m + 1)) (above : m * m ≤ n ∨ (m - 1) * (m - 1) < n) :
    (if m * m > n then m - 1 else m) = Nat.sqrt n ∧ (m * m ≠ n ↔ Nat.sqrt n * Nat.sqrt n ≠ n) := by
  by_cases beyond : m * m > n
  · have near := above.resolve_left (not_le.mpr beyond)
    have root : m - 1 = Nat.sqrt n := by
      refine Nat.eq_sqrt.mpr ⟨near.le, ?_⟩
      have pos : 0 < m := Nat.pos_of_ne_zero fun zero => by simp [zero] at beyond
      rwa [Nat.sub_add_cancel pos]
    rw [if_pos beyond, ← root]
    exact ⟨rfl, iff_of_true beyond.ne' near.ne⟩
  · have root : m = Nat.sqrt n := Nat.eq_sqrt.mpr ⟨not_lt.mp beyond, below⟩
    rw [if_neg beyond, ← root]
    exact ⟨rfl, Iff.rfl⟩

/-- **The end of an iteration.** A number less than half a unit off the root is cut to the unit, and one comparison
is left to do. -/
theorem sqrt_of_near {K : Type} [Field K] [LinearOrder K] [IsStrictOrderedRing K] {s : K} {y c d n m : ℕ}
    (double : d = 2 * c) (positive : 0 < c) (large : c ≤ y) (nonneg : 0 ≤ s) (root : s ^ 2 = n * (d : K) ^ 2)
    (above : s - c < y) (below : y < s + c) (is : m = (y - c) / d + 1) :
    (if m * m > n then m - 1 else m) = Nat.sqrt n ∧ (m * m ≠ n ↔ Nat.sqrt n * Nat.sqrt n ≠ n) := by
  have unit : 0 < d := by omega
  have unitK : (0 : K) < d := Nat.cast_pos.mpr unit
  have doubleK : (d : K) = 2 * c := by exact_mod_cast double
  have floor : (((y - c) / d * d : ℕ) : K) ≤ ((y - c : ℕ) : K) := Nat.cast_le.mpr (Nat.div_mul_le_self _ _)
  have floor' : ((y - c : ℕ) : K) < (((y - c) / d * d + d : ℕ) : K) := Nat.cast_lt.mpr (Nat.lt_div_mul_add unit)
  rw [Nat.cast_sub large] at floor floor'
  generalize (y - c) / d = w at *
  push_cast at floor floor'
  subst is
  have high : s ^ 2 < ((w + 2) * d : K) ^ 2 := pow_lt_pow_left₀ (by linarith) nonneg two_ne_zero
  have low : (w * d : K) ^ 2 < s ^ 2 := pow_lt_pow_left₀ (by linarith) (by positivity) two_ne_zero
  rw [root, mul_pow, mul_lt_mul_iff_left₀ (by positivity)] at high
  rw [root, mul_pow, mul_lt_mul_iff_left₀ (by positivity)] at low
  refine near_sqrt ?_ (Or.inr ?_)
  · rw [← sq]
    exact_mod_cast high
  · rw [Nat.add_sub_cancel, ← sq]
    exact_mod_cast low

end Emas

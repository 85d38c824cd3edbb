/-
**Blocks of a power of two.**

At height `k` the numbers lie in blocks of `2 ^ k`; block `j` consists of the blocks `2 * j` and `2 * j + 1` of the
height below. Of a finite set of numbers, `total` counts those in a block and `after` those in the block of a number
that are greater than it. A set covers a block when all numbers of the block are in it (`Covers`).

* `total_succ`, `covers_succ`, `after_succ`: a block from its two halves.
* `total_congr`, `covers_congr`: one number more or less matters only to the blocks it is in.
-/

import Mathlib.Algebra.Order.Group.Nat
import Mathlib.Data.Finset.Card

namespace Emas.Blocks

variable (live : Finset Nat)

/-- How many numbers are in a block. -/
def total (k j : Nat) : Nat := (live.filter fun m => m / 2 ^ k = j).card

/-- How many numbers of its block come after a number. -/
def after (r k : Nat) : Nat := (live.filter fun m => m / 2 ^ k = r / 2 ^ k ∧ r < m).card

/-- All numbers of a block. -/
def Covers (spent : Nat → Prop) (k j : Nat) : Prop := ∀ m, m / 2 ^ k = j → spent m

variable {live} {spent : Nat → Prop} {k j r : Nat}

theorem div_succ (m k : Nat) : m / 2 ^ (k + 1) = m / 2 ^ k / 2 := by rw [pow_succ, Nat.div_div_eq_div_mul]

/-! ### A block from its halves -/

theorem total_succ : total live (k + 1) j = total live k (2 * j) + total live k (2 * j + 1) := by
  rw [total, total, total, ← Finset.card_union_of_disjoint]
  · rw [← Finset.filter_or]
    refine congrArg Finset.card (Finset.filter_congr fun m _ => ?_)
    rw [div_succ]
    omega
  · refine Finset.disjoint_filter.mpr fun m _ left right => ?_
    omega

theorem covers_succ : Covers spent (k + 1) j ↔ Covers spent k (2 * j) ∧ Covers spent k (2 * j + 1) := by
  constructor
  · refine fun covers => ⟨fun m is => covers m ?_, fun m is => covers m ?_⟩
    · rw [div_succ, is]
      omega
    · rw [div_succ, is]
      omega
  · rintro ⟨left, right⟩ m is
    rw [div_succ] at is
    by_cases even : m / 2 ^ k = 2 * j
    · exact left m even
    · exact right m (by omega)

theorem after_succ : after live r (k + 1) =
    after live r k + if r / 2 ^ k % 2 = 0 then total live k (2 * (r / 2 ^ (k + 1)) + 1) else 0 := by
  have order : ∀ m, r / 2 ^ k < m / 2 ^ k → r < m := fun m less => Nat.lt_of_div_lt_div less
  have order' : ∀ m, m / 2 ^ k < r / 2 ^ k → m < r := fun m less => Nat.lt_of_div_lt_div less
  have halves := div_succ r k
  split
  next even =>
    rw [after, after, total, ← Finset.card_union_of_disjoint]
    · rw [← Finset.filter_or]
      refine congrArg Finset.card (Finset.filter_congr fun m _ => ?_)
      have half := div_succ m k
      have greater := order m
      constructor
      · rintro ⟨same, less⟩
        have := order' m
        omega
      · rintro (⟨same, less⟩ | right)
        · exact ⟨by omega, less⟩
        · exact ⟨by omega, greater (by omega)⟩
    · refine Finset.disjoint_filter.mpr fun m _ left right => ?_
      omega
  next odd =>
    rw [after, after, Nat.add_zero]
    refine congrArg Finset.card (Finset.filter_congr fun m _ => ?_)
    have half := div_succ m k
    constructor
    · rintro ⟨same, less⟩
      refine ⟨?_, less⟩
      by_contra other
      have := order' m (by omega)
      omega
    · rintro ⟨same, less⟩
      exact ⟨by omega, less⟩

/-! ### The lowest and the highest blocks -/

theorem total_zero : total live 0 r = if r ∈ live then 1 else 0 := by
  simp only [total, pow_zero, Nat.div_one, Finset.filter_eq']
  split <;> rfl

theorem total_le : total live k j ≤ 2 ^ k := by
  induction k generalizing j with
  | zero =>
    rw [total_zero]
    split <;> decide
  | succ k ih =>
    rw [total_succ, pow_succ, Nat.mul_two]
    exact Nat.add_le_add ih ih

theorem covers_zero : Covers spent 0 r ↔ spent r := by
  simp [Covers]

theorem after_zero : after live r 0 = 0 := by
  refine Finset.card_eq_zero.mpr (Finset.filter_eq_empty_iff.mpr fun m _ => ?_)
  rw [pow_zero, Nat.div_one, Nat.div_one]
  omega

/-- In a block that holds all numbers, those after a number are all greater ones. -/
theorem after_all (small : ∀ m ∈ live, m < 2 ^ k) (here : r < 2 ^ k) :
    after live r k = (live.filter fun m => r < m).card := by
  refine congrArg Finset.card (Finset.filter_congr fun m member => ?_)
  rw [Nat.div_eq_of_lt (small m member), Nat.div_eq_of_lt here]
  simp

theorem total_eq_zero (far : ∀ m ∈ live, m < j * 2 ^ k) : total live k j = 0 := by
  refine Finset.card_eq_zero.mpr (Finset.filter_eq_empty_iff.mpr fun m member is => ?_)
  have low := Nat.div_mul_le_self m (2 ^ k)
  have less := far m member
  rw [is] at low
  omega

theorem not_covers (free : ¬ spent r) : ¬ Covers spent k (r / 2 ^ k) := fun covers => free (covers r rfl)

theorem not_covers_first (free : ¬ spent (j * 2 ^ k)) : ¬ Covers spent k j :=
  fun covers => free (covers _ (Nat.mul_div_cancel _ (Nat.two_pow_pos k)))

theorem covers_disjoint (apart : ∀ m, spent m → m ∉ live) (covers : Covers spent k j) : total live k j = 0 :=
  Finset.card_eq_zero.mpr (Finset.filter_eq_empty_iff.mpr fun m member is => apart m (covers m is) member)

/-! ### One number more or less -/

theorem total_congr {live' : Finset Nat} (same : ∀ m, m ≠ r → (m ∈ live ↔ m ∈ live')) (other : j ≠ r / 2 ^ k) :
    total live k j = total live' k j := by
  refine congrArg Finset.card (Finset.ext fun m => ?_)
  rw [Finset.mem_filter, Finset.mem_filter]
  refine and_congr_left fun is => same m ?_
  rintro rfl
  exact other is.symm

theorem covers_congr {spent' : Nat → Prop} (same : ∀ m, m ≠ r → (spent m ↔ spent' m)) (other : j ≠ r / 2 ^ k) :
    Covers spent k j ↔ Covers spent' k j := by
  refine forall_congr' fun m => imp_congr_right fun is => same m ?_
  rintro rfl
  exact other is.symm

end Emas.Blocks

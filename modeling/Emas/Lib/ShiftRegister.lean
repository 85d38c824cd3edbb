/-
**A feedback shift register in a word.**

A register of `n + 1` bits, kept in the low bits of a word, moves down by one bit; its new top bit is the exclusive or of
its old top and bottom bits. `Advances` says so of a function, `Retreats` says of another one that it moves back.

* `Advances.iterate_feedback` — **the inverse of `x ↦ step x ^^^ x`** is `n` steps: the stream satisfies
  `s (t + n + 1) = s (t + n) ^^ s t`, for every length of the register.
* `Advances.step_back`, `Advances.back_step` — moving back undoes a step and is undone by it.
-/

import Mathlib.Data.BitVec

namespace Emas

/-- The word has no bits from `n` on. -/
def Small {w : Nat} (n : Nat) (x : BitVec w) : Prop := ∀ i, n ≤ i → x.getLsbD i = false

namespace Small

variable {w n : Nat} {x y : BitVec w}

theorem xor (left : Small n x) (right : Small n y) : Small n (x ^^^ y) := fun i above => by
  rw [BitVec.getLsbD_xor, left i above, right i above]
  rfl

theorem iff_lt : Small n x ↔ x.toNat < 2 ^ n := by
  refine ⟨fun small => Nat.lt_pow_two_of_testBit _ fun i above => ?_, fun bounded i above => ?_⟩
  · rw [BitVec.testBit_toNat]
    exact small i above
  · rw [← BitVec.testBit_toNat]
    exact Nat.testBit_lt_two_pow (Nat.lt_of_lt_of_le bounded (Nat.pow_le_pow_right Nat.zero_lt_two above))

theorem ext (left : Small n x) (right : Small n y) (same : ∀ i, i < n → x.getLsbD i = y.getLsbD i) : x = y := by
  refine BitVec.eq_of_getLsbD_eq fun i _ => ?_
  by_cases below : i < n
  · exact same i below
  · rw [left i (Nat.le_of_not_lt below), right i (Nat.le_of_not_lt below)]

end Small

/-- One step of the register of `n + 1` bits. -/
structure Advances {w : Nat} (n : Nat) (step : BitVec w → BitVec w) : Prop where
  small : ∀ x, Small (n + 1) x → Small (n + 1) (step x)
  low : ∀ x, Small (n + 1) x → ∀ i, i < n → (step x).getLsbD i = x.getLsbD (i + 1)
  top : ∀ x, Small (n + 1) x → (step x).getLsbD n = (x.getLsbD n ^^ x.getLsbD 0)

/-- One step back. -/
structure Retreats {w : Nat} (n : Nat) (back : BitVec w → BitVec w) : Prop where
  small : ∀ x, Small (n + 1) x → Small (n + 1) (back x)
  high : ∀ x, Small (n + 1) x → ∀ i, i < n → (back x).getLsbD (i + 1) = x.getLsbD i
  bottom : ∀ x, Small (n + 1) x → (back x).getLsbD 0 = (x.getLsbD (n - 1) ^^ x.getLsbD n)

namespace Advances

variable {w n : Nat} {step back : BitVec w → BitVec w} {x y : BitVec w}

theorem iterate_small (advances : Advances n step) (small : Small (n + 1) x) (t : Nat) : Small (n + 1) (step^[t] x) := by
  induction t with
  | zero => exact small
  | succ t ih =>
    rw [Function.iterate_succ_apply']
    exact advances.small _ ih

theorem xor (advances : Advances n step) (left : Small (n + 1) x) (right : Small (n + 1) y) :
    step (x ^^^ y) = step x ^^^ step y := by
  refine Small.ext (advances.small _ (left.xor right)) ((advances.small _ left).xor (advances.small _ right))
    fun i bound => ?_
  rw [BitVec.getLsbD_xor]
  rcases Nat.lt_succ_iff_lt_or_eq.mp bound with below | rfl
  · rw [advances.low _ (left.xor right) i below, advances.low _ left i below, advances.low _ right i below,
      BitVec.getLsbD_xor]
  · rw [advances.top _ (left.xor right), advances.top _ left, advances.top _ right, BitVec.getLsbD_xor,
      BitVec.getLsbD_xor]
    simp only [Bool.xor_assoc, Bool.xor_left_comm]

theorem iterate_xor (advances : Advances n step) (left : Small (n + 1) x) (right : Small (n + 1) y) (t : Nat) :
    step^[t] (x ^^^ y) = step^[t] x ^^^ step^[t] y := by
  induction t with
  | zero => rfl
  | succ t ih =>
    rw [Function.iterate_succ_apply', ih, advances.xor (advances.iterate_small left t) (advances.iterate_small right t),
      ← Function.iterate_succ_apply' step, ← Function.iterate_succ_apply' step]

/-- **The register is a window of the stream** of its bottom bits. -/
theorem stream (advances : Advances n step) (small : Small (n + 1) x) {i : Nat} (inside : i ≤ n) (t : Nat) :
    (step^[t] x).getLsbD i = (step^[t + i] x).getLsbD 0 := by
  induction i generalizing t with
  | zero => rfl
  | succ i ih =>
    rw [← advances.low _ (advances.iterate_small small t) i inside, ← Function.iterate_succ_apply' step,
      ih (Nat.le_of_succ_le inside), Nat.succ_add_eq_add_succ]

theorem recurrence (advances : Advances n step) (small : Small (n + 1) x) (t : Nat) :
    (step^[t + n + 1] x).getLsbD 0 = ((step^[t + n] x).getLsbD 0 ^^ (step^[t] x).getLsbD 0) := by
  have next : (step^[t + 1] x).getLsbD n = (step^[t + 1 + n] x).getLsbD 0 := advances.stream small (Nat.le_refl n) (t + 1)
  rw [Nat.add_right_comm, ← next, Function.iterate_succ_apply', advances.top _ (advances.iterate_small small t),
    advances.stream small (Nat.le_refl n)]

/-- **As many steps as the top bit is high** invert the sum of a register and its next state. -/
theorem iterate_feedback (advances : Advances n step) (small : Small (n + 1) x) : step^[n] (step x ^^^ x) = x := by
  rw [advances.iterate_xor (advances.small _ small) small, ← Function.iterate_succ_apply]
  refine Small.ext ((advances.iterate_small small _).xor (advances.iterate_small small _)) small fun i bound => ?_
  have inside : i ≤ n := Nat.lt_succ_iff.mp bound
  have again := advances.recurrence small i
  have here : x.getLsbD i = (step^[i] x).getLsbD 0 := by
    simpa using advances.stream small inside 0
  rw [BitVec.getLsbD_xor, advances.stream small inside, advances.stream small inside, here,
    show n.succ + i = i + n + 1 by omega, again, show n + i = i + n from Nat.add_comm ..]
  cases (step^[i + n] x).getLsbD 0 <;> simp

variable (advances : Advances n step) (retreats : Retreats n back)
include advances retreats

theorem step_back (small : Small (n + 1) x) (long : 0 < n) : step (back x) = x := by
  refine Small.ext (advances.small _ (retreats.small _ small)) small fun i bound => ?_
  rcases Nat.lt_succ_iff_lt_or_eq.mp bound with below | rfl
  · rw [advances.low _ (retreats.small _ small) i below, retreats.high _ small i below]
  · obtain ⟨j, rfl⟩ : ∃ j, i = j + 1 := ⟨i - 1, by omega⟩
    rw [advances.top _ (retreats.small _ small), retreats.high _ small j (Nat.lt_succ_self j), retreats.bottom _ small]
    simp

theorem back_step (small : Small (n + 1) x) (long : 0 < n) : back (step x) = x := by
  refine Small.ext (retreats.small _ (advances.small _ small)) small fun i bound => ?_
  rcases Nat.eq_zero_or_pos i with rfl | positive
  · rw [retreats.bottom _ (advances.small _ small), advances.low _ small (n - 1) (by omega), advances.top _ small,
      Nat.sub_add_cancel long]
    simp
  · obtain ⟨j, rfl⟩ : ∃ j, i = j + 1 := ⟨i - 1, by omega⟩
    rw [retreats.high _ (advances.small _ small) j (by omega), advances.low _ small j (by omega)]

theorem iterate_feedback_back (small : Small (n + 1) x) (long : 0 < n) : step^[n + 1] (back x ^^^ x) = x := by
  have before := retreats.small _ small
  have sum : back x ^^^ x = step (back x) ^^^ back x := by
    rw [advances.step_back retreats small long, BitVec.xor_comm]
  rw [sum, Function.iterate_succ_apply', advances.iterate_feedback before, advances.step_back retreats small long]

theorem iterate_back_step (small : Small (n + 1) x) (long : 0 < n) (t : Nat) : back^[t] (step^[t] x) = x := by
  induction t with
  | zero => rfl
  | succ t ih =>
    rw [Function.iterate_succ_apply' step, Function.iterate_succ_apply back,
      advances.back_step retreats (advances.iterate_small small t) long, ih]

end Advances

end Emas

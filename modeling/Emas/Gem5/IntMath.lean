/-
**Integer helpers.**

What the caches use of `base/intmath.hh`. `floorLog2` is `Nat.log2`.
-/

import Mathlib.Tactic.Ring

namespace Emas.Gem5

/-- `floorLog2( n ) == ceilLog2( n )`, for a number that is not zero. -/
def isPowerOf2 (n : Nat) : Bool := n != 0 && n.log2 == (if n = 1 then 0 else (n - 1).log2 + 1)

theorem isPowerOf2_iff (n : Nat) : isPowerOf2 n = true ↔ ∃ k, n = 2 ^ k := by
  rw [isPowerOf2, Bool.and_eq_true, bne_iff_ne, beq_iff_eq]
  constructor
  · rintro ⟨positive, logs⟩
    split at logs
    next one => exact ⟨0, one⟩
    next notOne =>
      refine ⟨n.log2, Nat.le_antisymm ?_ (Nat.log2_self_le positive)⟩
      have below : n - 1 < 2 ^ ((n - 1).log2 + 1) := Nat.lt_log2_self
      rw [logs]
      omega
  · rintro ⟨k, rfl⟩
    refine ⟨(Nat.two_pow_pos k).ne', ?_⟩
    rw [Nat.log2_two_pow]
    cases k with
    | zero => rfl
    | succ k =>
      have power := Nat.one_lt_two_pow (Nat.succ_ne_zero k)
      rw [if_neg power.ne']
      have log : (2 ^ (k + 1) - 1).log2 = k := by
        rw [Nat.log2_eq_iff (by omega), pow_succ]
        have positive := Nat.two_pow_pos k
        omega
      rw [log]

theorem toNat_and_not_low {w k : Nat} (x : BitVec w) {low : BitVec w} (ones : low.toNat = 2 ^ k - 1) :
    (x &&& ~~~ low).toNat = x.toNat / 2 ^ k * 2 ^ k := by
  apply Nat.eq_of_testBit_eq
  intro i
  have bit : low.getLsbD i = decide (i < k) := by
    rw [BitVec.getLsbD, ones, Nat.testBit_two_pow_sub_one]
  rw [BitVec.testBit_toNat, BitVec.getLsbD_and, BitVec.getLsbD_not, bit, Nat.mul_comm, Nat.testBit_two_pow_mul,
    Nat.testBit_div_two_pow, ← BitVec.testBit_toNat]
  by_cases below : i < k
  · simp [below]
  · have index : i - k + k = i := by omega
    have inside : x.toNat.testBit i = true → i < w := fun set => Nat.lt_of_not_le fun out => by
      rw [BitVec.testBit_toNat, BitVec.getLsbD_of_ge _ _ out] at set
      cases set
    rw [index]
    cases bit : x.toNat.testBit i with
    | false => simp
    | true => simp [below, inside bit, Nat.le_of_not_lt below]

end Emas.Gem5

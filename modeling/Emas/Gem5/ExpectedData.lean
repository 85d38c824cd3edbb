/-
**What a read is expected to return.**

The list that `lastCompletedTransaction` picks from, and the order of the serials.
-/

import Emas.Gem5.MemChecker
import Mathlib.Data.List.Basic

namespace Emas.Gem5

/-! ### Reads that start -/

theorem insertTransaction_eq_append {transaction : Transaction} {entries : List Transaction}
    (newest : ∀ entry ∈ entries, entry.serial < transaction.serial) :
    insertTransaction transaction entries = entries ++ [transaction] := by
  induction entries with
  | nil => rfl
  | cons first rest ih =>
    obtain ⟨older, others⟩ := List.forall_mem_cons.mp newest
    rw [insertTransaction, if_neg (Nat.lt_asymm older), if_neg (Nat.ne_of_gt older), ih others]
    rfl

theorem mem_insertTransaction {transaction entry : Transaction} {entries : List Transaction}
    (member : entry ∈ insertTransaction transaction entries) : entry ∈ entries ∨ entry = transaction := by
  induction entries with
  | nil => exact Or.inr (List.mem_singleton.mp member)
  | cons first rest ih =>
    unfold insertTransaction at member
    split at member
    · exact (List.mem_cons.mp member).symm
    · split at member
      · exact Or.inl member
      · rcases List.mem_cons.mp member with rfl | later
        · exact Or.inl (List.mem_cons_self ..)
        · exact (ih later).imp_left (List.mem_cons_of_mem _)

/-! ### The last completed entry -/

section LastCompleted

variable {α : Type} (complete : α → Nat) (before : Nat)

/-- The entry that is picked completed before the tick, or it is the first one; those behind it did not. -/
theorem fromLastCompleted_spec {entries : List α} (nonempty : entries ≠ []) :
    ∃ earlier last later, entries = earlier ++ last :: later ∧
      fromLastCompleted complete before entries = last :: later ∧ (complete last < before ∨ earlier = []) ∧
      ∀ entry ∈ later, before ≤ complete entry := by
  induction entries with
  | nil => exact absurd rfl nonempty
  | cons first rest ih =>
    unfold fromLastCompleted
    cases rest with
    | nil => exact ⟨[], first, [], rfl, rfl, Or.inr rfl, nofun⟩
    | cons second others =>
      obtain ⟨earlier, last, later, whole, from', done, behind⟩ := ih (List.cons_ne_nil _ _)
      rw [from']
      dsimp only
      by_cases completed : complete last < before
      · rw [if_pos completed]
        exact ⟨first :: earlier, last, later, by rw [whole]; rfl, rfl, Or.inl completed, behind⟩
      · rw [if_neg completed]
        refine ⟨[], first, second :: others, rfl, rfl, Or.inr rfl, ?_⟩
        obtain rfl := done.resolve_left completed
        rw [whole]
        exact List.forall_mem_cons.mpr ⟨Nat.le_of_not_lt completed, behind⟩

theorem fromLastCompleted_suffix (entries : List α) : fromLastCompleted complete before entries <:+ entries := by
  rcases eq_or_ne entries [] with rfl | nonempty
  · exact List.suffix_rfl
  · obtain ⟨earlier, last, later, whole, picked, -⟩ := fromLastCompleted_spec complete before nonempty
    exact ⟨earlier, by rw [picked, whole]⟩

end LastCompleted

end Emas.Gem5

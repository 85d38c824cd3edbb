/-
**Greedy covers.**

Each value is represented by a representative that is near, and becomes one itself if none is.
-/

import Mathlib.Data.List.Basic

namespace Emas

variable {α : Type*} (near : α → α → Bool)

def addTo (representatives : List α) (value : α) : List α :=
  if representatives.any (near value) then representatives else representatives ++ [value]

/-- The representatives with some values, one after the other. -/
def cover (representatives values : List α) : List α := values.foldl (addTo near) representatives

variable {near} {representatives values : List α} {value : α}

@[simp]
theorem cover_nil : cover near representatives [] = representatives := rfl

@[simp]
theorem cover_cons : cover near representatives (value :: values) = cover near (addTo near representatives value) values := rfl

theorem addTo_of_near (covered : representatives.any (near value) = true) :
    addTo near representatives value = representatives := if_pos covered

theorem addTo_of_far (far : ¬ representatives.any (near value) = true) :
    addTo near representatives value = representatives ++ [value] := if_neg far

theorem prefix_addTo : representatives <+: addTo near representatives value := by
  unfold addTo
  split
  · exact List.prefix_rfl
  · exact List.prefix_append ..

/-- No representative is dropped. -/
theorem prefix_cover : representatives <+: cover near representatives values := by
  induction values generalizing representatives with
  | nil => exact List.prefix_rfl
  | cons value rest ih => exact prefix_addTo.trans ih

/-- None is added if and only if all values have one. -/
theorem length_cover_le :
    (cover near representatives values).length ≤ representatives.length ↔
      ∀ value ∈ values, representatives.any (near value) = true := by
  induction values with
  | nil => exact iff_of_true (Nat.le_refl _) fun _ => nofun
  | cons value rest ih =>
    rw [cover_cons, List.forall_mem_cons]
    by_cases covered : representatives.any (near value) = true
    · rw [addTo_of_near covered, ih, and_iff_right covered]
    · rw [addTo_of_far covered, and_congr_left_iff.mpr fun _ => iff_false_intro covered, false_and, iff_false, Nat.not_le]
      calc representatives.length
        _ < (representatives ++ [value]).length := by simp
        _ ≤ _ := prefix_cover.length_le

/-- One is added to a single one at most, if and only if all values are near it or near the first value that is not.
-/
theorem length_cover_singleton_le (refl : ∀ value, near value value = true) {a : α} :
    (cover near [a] values).length ≤ 2 ↔ ∀ value ∈ values,
      near value a = true ∨ ∃ b, values.find? (fun other => !near other a) = some b ∧ near value b = true := by
  induction values with
  | nil => exact iff_of_true (Nat.le_succ _) fun _ => nofun
  | cons value rest ih =>
    rw [cover_cons, List.forall_mem_cons]
    by_cases close : near value a = true
    · rw [addTo_of_near (by simpa using close), List.find?_cons_of_neg (by simpa using close), ih]
      exact (and_iff_right (.inl close)).symm
    · -- it is the other representative
      rw [addTo_of_far (by simpa using close), List.find?_cons_of_pos (by simpa using close)]
      have two : (cover near ([a] ++ [value]) rest).length ≤ ([a] ++ [value]).length ↔ _ := length_cover_le
      rw [show ([a] ++ [value]).length = 2 from rfl] at two
      rw [two, and_iff_right (.inr ⟨value, rfl, refl value⟩)]
      refine forall₂_congr fun other _ => ?_
      simp

end Emas

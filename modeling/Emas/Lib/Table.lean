/-
**Tables: arrays of one, two or three indices as functions.**

`set1`, `set2`, `set3` write one entry. Reading after writing is `set1_apply`, `set2_apply` and
`set3_apply`; a write of the value that is read back changes nothing.
-/

import Mathlib.Tactic.Tauto

namespace Emas

namespace Table

variable {α : Type}

/-- `table[i] = value`. -/
def set1 (table : Nat → α) (i : Nat) (value : α) : Nat → α :=
  fun i' => if i' = i then value else table i'

/-- `table[i][j] = value`. -/
def set2 (table : Nat → Nat → α) (i j : Nat) (value : α) : Nat → Nat → α :=
  fun i' j' => if i' = i ∧ j' = j then value else table i' j'

/-- `table[i][j][k] = value`. -/
def set3 (table : Nat → Nat → Nat → α) (i j k : Nat) (value : α) : Nat → Nat → Nat → α :=
  fun i' j' k' => if i' = i ∧ j' = j ∧ k' = k then value else table i' j' k'

theorem set1_apply (table : Nat → α) (i : Nat) (value : α) (i' : Nat) :
    set1 table i value i' = if i' = i then value else table i' := rfl

theorem set2_apply (table : Nat → Nat → α) (i j : Nat) (value : α) (i' j' : Nat) :
    set2 table i j value i' j' = if i' = i ∧ j' = j then value else table i' j' := rfl

theorem set3_apply (table : Nat → Nat → Nat → α) (i j k : Nat) (value : α) (i' j' k' : Nat) :
    set3 table i j k value i' j' k' =
      if i' = i ∧ j' = j ∧ k' = k then value else table i' j' k' := rfl

@[simp] theorem set1_self (table : Nat → α) (i : Nat) (value : α) : set1 table i value i = value :=
  if_pos rfl

@[simp] theorem set1_of_ne (table : Nat → α) {i i' : Nat} (value : α) (other : i' ≠ i) :
    set1 table i value i' = table i' := if_neg other

theorem set1_same {table : Nat → α} {i : Nat} {value : α} (same : table i = value) : set1 table i value = table := by
  funext k
  rw [set1_apply]
  split
  · rename_i here
    rw [here, same]
  · rfl

@[simp] theorem set2_self (table : Nat → Nat → α) (i j : Nat) (value : α) :
    set2 table i j value i j = value := if_pos ⟨rfl, rfl⟩

theorem foldl_set2_apply {ι : Type} (i : Nat) (column : ι → Nat) (value : α) (items : List ι)
    (table : Nat → Nat → α) (i' j' : Nat) :
    (items.foldl (fun table item => set2 table i (column item) value) table) i' j' =
      if i' = i ∧ j' ∈ items.map column then value else table i' j' := by
  induction items generalizing table with
  | nil => simp
  | cons first rest ih =>
    rw [List.foldl_cons, ih, set2_apply, List.map_cons]
    by_cases later : i' = i ∧ j' ∈ rest.map column
    · rw [if_pos later, if_pos ⟨later.1, List.mem_cons_of_mem _ later.2⟩]
    · rw [if_neg later]
      refine if_congr ?_ rfl rfl
      rw [List.mem_cons]
      tauto

end Table

end Emas

/-
**Aging.**

Values up to a maximum are aged together until one of them reaches it, and the first that did is picked. `agingLoop` is
the loop, one step at a time; `agingLoop_eq` is what it comes to: every value grows by what the greatest one lacks.
-/

import Mathlib.Data.List.Basic

namespace Emas

/-- The loop: while no value is the maximum every value grows by one, then the first one that is the maximum is picked. It
runs for so many passes at most. -/
def agingLoop (maximum : Nat) : Nat → List Nat → Option (Nat × List Nat)
  | 0, _ => none
  | passes + 1, values =>
    if maximum ∈ values then some (values.idxOf maximum, values)
    else agingLoop maximum passes (values.map (· + 1))

/-- The first of the greatest values is at `place`. -/
structure FirstGreatest (values : List Nat) (place : Nat) (greatest : Nat) : Prop where
  here : values[place]? = some greatest
  least : ∀ earlier < place, values[earlier]? ≠ some greatest
  bound : ∀ value ∈ values, value ≤ greatest

namespace FirstGreatest

variable {values : List Nat} {place greatest : Nat}

theorem idxOf_eq (first : FirstGreatest values place greatest) : values.idxOf greatest = place := by
  obtain ⟨inside, here⟩ := List.getElem?_eq_some_iff.mp first.here
  have found : values.idxOf greatest < values.length := List.idxOf_lt_length_of_mem (here ▸ List.getElem_mem inside)
  have equal : values[values.idxOf greatest]? = some greatest := List.getElem?_idxOf (List.idxOf_lt_length_iff.mp found)
  rcases Nat.lt_trichotomy (values.idxOf greatest) place with before | same | after
  · exact absurd equal (first.least _ before)
  · exact same
  · have not_yet := @List.not_of_lt_findIdx _ (· == greatest) values place after
    rw [here, beq_self_eq_true] at not_yet
    cases not_yet

theorem map_add (first : FirstGreatest values place greatest) (years : Nat) :
    FirstGreatest (values.map (· + years)) place (greatest + years) where
  here := by rw [List.getElem?_map, first.here]; rfl
  least earlier before same := by
    rw [List.getElem?_map, Option.map_eq_some_iff] at same
    obtain ⟨value, held, equal⟩ := same
    exact first.least earlier before (held.trans (congrArg some (Nat.add_right_cancel equal)))
  bound value member := by
    obtain ⟨young, inside, rfl⟩ := List.mem_map.mp member
    exact Nat.add_le_add_right (first.bound young inside) years

theorem append_greater (first : FirstGreatest values place greatest) {value : Nat} (above : greatest < value) :
    FirstGreatest (values ++ [value]) values.length value where
  here := by simp
  least earlier before same := by
    rw [List.getElem?_append_left before] at same
    exact absurd (first.bound value (List.mem_of_getElem? same)) (Nat.not_le.mpr above)
  bound other member := by
    rcases List.mem_append.mp member with old | new
    · exact Nat.le_of_lt (Nat.lt_of_le_of_lt (first.bound other old) above)
    · exact Nat.le_of_eq (List.mem_singleton.mp new)

theorem append_le (first : FirstGreatest values place greatest) {value : Nat} (below : value ≤ greatest) :
    FirstGreatest (values ++ [value]) place greatest where
  here := by
    obtain ⟨inside, -⟩ := List.getElem?_eq_some_iff.mp first.here
    rw [List.getElem?_append_left inside, first.here]
  least earlier before same := by
    obtain ⟨inside, -⟩ := List.getElem?_eq_some_iff.mp first.here
    rw [List.getElem?_append_left (Nat.lt_trans before inside)] at same
    exact first.least earlier before same
  bound other member := by
    rcases List.mem_append.mp member with old | new
    · exact first.bound other old
    · exact List.mem_singleton.mp new ▸ below

end FirstGreatest

/-- **What the loop comes to**: it ages all values by what the greatest one lacks, and picks the first of these. -/
theorem agingLoop_eq {values : List Nat} {place greatest lacks passes : Nat} (first : FirstGreatest values place greatest)
    (enough : lacks < passes) : agingLoop (greatest + lacks) passes values = some (place, values.map (· + lacks)) := by
  induction lacks generalizing values greatest passes with
  | zero =>
    obtain ⟨passes, rfl⟩ := Nat.exists_eq_succ_of_ne_zero (Nat.ne_of_gt enough)
    rw [agingLoop, Nat.add_zero, if_pos (List.mem_of_getElem? first.here), first.idxOf_eq]
    simp
  | succ lacks ih =>
    obtain ⟨passes, rfl⟩ := Nat.exists_eq_succ_of_ne_zero (Nat.ne_of_gt (Nat.zero_lt_of_lt enough))
    have absent : greatest + (lacks + 1) ∉ values := fun member => by
      have := first.bound _ member
      omega
    have older := ih (first.map_add 1) (Nat.lt_of_succ_lt_succ enough)
    rw [agingLoop, if_neg absent]
    rw [Nat.add_right_comm, Nat.add_assoc] at older
    rw [older, List.map_map]
    refine congrArg (fun aged => some (place, aged)) (List.map_congr_left fun value _ => ?_)
    exact Nat.add_right_comm value 1 lacks

end Emas

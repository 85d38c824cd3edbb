/-
**Sums over a family of which one member changes.**
-/

import Mathlib.Data.Fintype.BigOperators
import Mathlib.Tactic.Abel

namespace Emas

section Tally

variable {ι κ α M : Type} [Fintype ι] [Fintype κ] [DecidableEq ι] [DecidableEq κ] [AddCancelCommMonoid M]

/-- **One member changes.** -/
theorem sum_update (weigh : ι → α → M) (family : ι → α) (member : ι) (value : α) :
    ∑ i, weigh i (Function.update family member value i) + weigh member (family member) =
      ∑ i, weigh i (family i) + weigh member value := by
  have others : ∑ i ∈ Finset.univ.erase member, weigh i (Function.update family member value i) =
      ∑ i ∈ Finset.univ.erase member, weigh i (family i) := by
    refine Finset.sum_congr rfl fun i apart => ?_
    rw [Function.update_of_ne (Finset.ne_of_mem_erase apart)]
  rw [← Finset.add_sum_erase Finset.univ _ (Finset.mem_univ member),
    ← Finset.add_sum_erase Finset.univ (fun i => weigh i (family i)) (Finset.mem_univ member), others,
    Function.update_self]
  abel

/-- **One member of one family changes.** -/
theorem sum_update_update (weigh : κ → α → M) (family : ι → κ → α) (i : ι) (k : κ) (value : α) :
    ∑ j, ∑ l, weigh l (Function.update family i (Function.update (family i) k value) j l) + weigh k (family i k) =
      ∑ j, ∑ l, weigh l (family j l) + weigh k value := by
  have outer := sum_update (fun _ row => ∑ l, weigh l (row l)) family i (Function.update (family i) k value)
  have inner := sum_update weigh (family i) k value
  refine add_right_cancel (b := ∑ l, weigh l (family i l)) ?_
  calc _ = ∑ j, ∑ l, weigh l (Function.update family i (Function.update (family i) k value) j l) +
        ∑ l, weigh l (family i l) + weigh k (family i k) := add_right_comm ..
    _ = ∑ j, ∑ l, weigh l (family j l) + (∑ l, weigh l (Function.update (family i) k value l) +
        weigh k (family i k)) := by rw [outer, add_assoc]
    _ = _ := by
      rw [inner]
      abel

end Tally

/-! ### Things in places

In a `Placement` every thing is in exactly one place, and nothing else is anywhere. `holds` says what is where;
how the places store it does not matter. The one change there is, `Placement.move`, takes a thing, new or
not, to a place and leaves everything else where it was.
-/

variable {τ π : Type}

/-- **Every one of the things is in exactly one place**, and there is nothing else. -/
structure Placement (things : τ → Prop) (holds : τ → π → Prop) : Prop where
  somewhere : ∀ thing, things thing ↔ ∃ place, holds thing place
  apart : ∀ thing place place', holds thing place → holds thing place' → place = place'

namespace Placement

variable {things things' : τ → Prop} {holds holds' : τ → π → Prop}

theorem unique (placement : Placement things holds) {thing : τ} (known : things thing) :
    ∃! place, holds thing place := by
  obtain ⟨place, here⟩ := (placement.somewhere thing).mp known
  exact ⟨place, here, fun place' there => placement.apart thing place' place there here⟩

theorem not_elsewhere (placement : Placement things holds) {thing : τ} {place place' : π}
    (here : holds thing place) (other : place' ≠ place) : ¬holds thing place' :=
  fun there => other (placement.apart thing place' place there here)

theorem nowhere (placement : Placement things holds) {thing : τ} (unknown : ¬things thing) (place : π) :
    ¬holds thing place :=
  fun here => unknown ((placement.somewhere thing).mpr ⟨place, here⟩)

theorem congr (placement : Placement things holds) (same : ∀ thing, things' thing ↔ things thing)
    (unmoved : ∀ thing place, holds' thing place ↔ holds thing place) : Placement things' holds' where
  somewhere thing := by
    rw [same, placement.somewhere]
    exact exists_congr fun place => (unmoved thing place).symm
  apart thing place place' here there :=
    placement.apart thing place place' ((unmoved ..).mp here) ((unmoved ..).mp there)

/-- **A thing goes to a place**, from another one or from outside. -/
theorem move (placement : Placement things holds) (moved : τ) (destination : π)
    (known : ∀ thing, things' thing ↔ thing = moved ∨ things thing)
    (arrived : ∀ place, holds' moved place ↔ place = destination)
    (others : ∀ thing place, thing ≠ moved → (holds' thing place ↔ holds thing place)) :
    Placement things' holds' where
  somewhere thing := by
    by_cases same : thing = moved
    · subst same
      refine iff_of_true ((known thing).mpr (Or.inl rfl)) ⟨destination, (arrived destination).mpr rfl⟩
    · rw [known, or_iff_right same, placement.somewhere]
      exact exists_congr fun place => (others thing place same).symm
  apart thing place place' here there := by
    by_cases same : thing = moved
    · subst same
      rw [(arrived place).mp here, (arrived place').mp there]
    · exact placement.apart thing place place' ((others thing place same).mp here)
        ((others thing place' same).mp there)

end Placement

end Emas

/-
**Relabelling the pairs of a place and a label.**

`moved place label` is the new label of a pair, if it has one. One label is the hub: pairs with another
label can only be moved to the hub, pairs with the hub only away from it (`Moves`). Then the relabelling
keeps the pairs of a place apart exactly if the moves come in pairs at every place (`Paired`): `label` was
moved to the hub if and only if the hub was moved to `label`.
-/

import Mathlib.Tactic.ByContra

namespace Emas

variable {π κ : Type}

/-- Labels move to the hub and from the hub only. -/
structure Moves (hub : κ) (valid : κ → Prop) (moved : π → κ → Option κ) : Prop where
  toHub : ∀ place label new, valid label → label ≠ hub → moved place label = some new → new = hub
  fromHub : ∀ place new, moved place hub = some new → new ≠ hub ∧ valid new

/-- At every place, a label was moved to the hub if the hub was moved to it, and conversely. -/
def Paired (hub : κ) (valid : κ → Prop) (moved : π → κ → Option κ) : Prop :=
  ∀ place label, valid label → label ≠ hub → (moved place label ≠ none ↔ moved place hub = some label)

def relabel (moved : π → κ → Option κ) (place : π) (label : κ) : κ := (moved place label).getD label

/-- Different labels of a place stay different. -/
def KeepsApart (valid : κ → Prop) (moved : π → κ → Option κ) : Prop :=
  ∀ place label label', valid label → valid label' → label ≠ label' →
    relabel moved place label ≠ relabel moved place label'

variable {hub : κ} {valid : κ → Prop} {moved : π → κ → Option κ}

namespace Moves

theorem relabel_other (moves : Moves hub valid moved) (place : π) {label : κ} (fits : valid label)
    (other : label ≠ hub) :
    (moved place label = none ∧ relabel moved place label = label) ∨
      (moved place label ≠ none ∧ relabel moved place label = hub) := by
  unfold relabel
  cases move : moved place label with
  | none => exact .inl ⟨rfl, rfl⟩
  | some new => exact .inr ⟨nofun, moves.toHub place label new fits other move⟩

theorem paired_of_keepsApart (moves : Moves hub valid moved) (hubValid : valid hub)
    (apart : KeepsApart valid moved) : Paired hub valid moved := by
  intro place label fits other
  constructor
  · intro promoted
    have atHub : relabel moved place label = hub :=
      (moves.relabel_other place fits other).elim (fun stays => absurd stays.1 promoted) And.right
    cases move : moved place hub with
    | none =>
      -- the hub stays where the label has come to
      refine absurd (atHub.trans ?_) (apart place label hub fits hubValid other)
      unfold relabel
      rw [move]
      rfl
    | some new =>
      obtain ⟨away, newFits⟩ := moves.fromHub place new move
      by_contra different
      have apartLabel : label ≠ new := fun same => different (by rw [same])
      have fromHub : relabel moved place hub = new := by
        unfold relabel
        rw [move]
        rfl
      -- the pair of the hub's new label is still there, or at the hub as well
      rcases moves.relabel_other place newFits away with ⟨-, stays⟩ | ⟨-, atHub'⟩
      · exact apart place hub new hubValid newFits (Ne.symm away) (fromHub.trans stays.symm)
      · exact apart place label new fits newFits apartLabel (atHub.trans atHub'.symm)
  · intro demoted stays
    refine apart place hub label hubValid fits (Ne.symm other) ?_
    unfold relabel
    rw [demoted, stays]
    rfl

theorem keepsApart_of_paired (moves : Moves hub valid moved) (paired : Paired hub valid moved) :
    KeepsApart valid moved := by
  -- the hub and another label
  have hubApart : ∀ place label, valid label → label ≠ hub → relabel moved place hub ≠ relabel moved place label := by
    intro place label fits other same
    rcases moves.relabel_other place fits other with ⟨stays, here⟩ | ⟨promoted, here⟩
    · rw [here] at same
      cases move : moved place hub with
      | none =>
        unfold relabel at same
        rw [move] at same
        exact other same.symm
      | some new =>
        unfold relabel at same
        rw [move] at same
        have same : new = label := same
        exact (paired place label fits other).mpr (by rw [move, same]) stays
    · have demoted := (paired place label fits other).mp promoted
      unfold relabel at same here
      rw [demoted, here] at same
      exact other same
  intro place label label' fits fits' different
  by_cases first : label = hub
  · subst first
    exact hubApart place label' fits' (Ne.symm different)
  · by_cases second : label' = hub
    · subst second
      exact (hubApart place label fits first).symm
    · rcases moves.relabel_other place fits first with ⟨stays, here⟩ | ⟨promoted, here⟩ <;>
        rcases moves.relabel_other place fits' second with ⟨stays', here'⟩ | ⟨promoted', here'⟩
      · rwa [here, here']
      · rwa [here, here']
      · rw [here, here']
        exact Ne.symm second
      · have one := (paired place label fits first).mp promoted
        have two := (paired place label' fits' second).mp promoted'
        exact absurd (Option.some.inj (one.symm.trans two)) different

/-- **When a relabelling keeps pairs apart.** -/
theorem keepsApart_iff (moves : Moves hub valid moved) (hubValid : valid hub) :
    KeepsApart valid moved ↔ Paired hub valid moved :=
  ⟨moves.paired_of_keepsApart hubValid, moves.keepsApart_of_paired⟩

end Moves

end Emas

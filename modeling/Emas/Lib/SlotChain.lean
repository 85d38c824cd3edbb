/-
**Chains of slots.**

A chain is given by the successor of each slot. `EndsFrom` says that a chain stays inside the slots there
are and comes to one without a successor; `StopsFrom` also lets it come back to the slot it started from,
the only return that a walk notices which compares with its first slot alone. `Walk` lists the slots of a
chain that ends: they are the only ones (`Walk.unique`), and no two are the same (`Walk.nodup`).
-/

import Mathlib.Data.List.Nodup

namespace Emas

section Chains

variable {α : Type} (next : α → Option α) (inside : α → Prop)

/-- The chain stays inside and comes to an end. -/
inductive EndsFrom : α → Prop where
  | last {slot : α} (within : inside slot) (none : next slot = none) : EndsFrom slot
  | step {slot later : α} (within : inside slot) (some : next slot = some later) (rest : EndsFrom later) :
    EndsFrom slot

/-- The chain stays inside and comes to an end, or to its head again. -/
inductive StopsFrom (head : α) : α → Prop where
  | last {slot : α} (within : inside slot) (none : next slot = none) : StopsFrom head slot
  | back {slot : α} (within : inside slot) (some : next slot = some head) : StopsFrom head slot
  | step {slot later : α} (within : inside slot) (some : next slot = some later)
    (rest : StopsFrom head later) : StopsFrom head slot

/-- The slots of a chain that ends. -/
inductive Walk : α → List α → Prop where
  | last {slot : α} (within : inside slot) (none : next slot = none) : Walk slot [slot]
  | step {slot later : α} {slots : List α} (within : inside slot) (some : next slot = some later)
    (rest : Walk later slots) : Walk slot (slot :: slots)

variable {next inside}

theorem EndsFrom.within {slot : α} (ends : EndsFrom next inside slot) : inside slot := by
  cases ends with
  | last within _ => exact within
  | step within _ _ => exact within

theorem StopsFrom.within {head slot : α} (stops : StopsFrom next inside head slot) : inside slot := by
  cases stops with
  | last within _ => exact within
  | back within _ => exact within
  | step within _ _ => exact within

namespace Walk

variable {slot : α} {slots slots' : List α}

theorem endsFrom (walk : Walk next inside slot slots) : EndsFrom next inside slot := by
  induction walk with
  | last within none => exact .last within none
  | step within some rest ih => exact .step within some ih

theorem exists_tail (walk : Walk next inside slot slots) : ∃ tail, slots = slot :: tail := by
  cases walk with
  | last within none => exact ⟨_, rfl⟩
  | step within some rest => exact ⟨_, rfl⟩

theorem within (walk : Walk next inside slot slots) : ∀ other ∈ slots, inside other := by
  induction walk with
  | last within none => simpa using within
  | step within some rest ih => simpa using ⟨within, ih⟩

theorem unique (walk : Walk next inside slot slots) (walk' : Walk next inside slot slots') : slots = slots' := by
  induction walk generalizing slots' with
  | last within none =>
    cases walk' with
    | last within' none' => rfl
    | step within' some' rest' => rw [none] at some'; cases some'
  | step within some rest ih =>
    cases walk' with
    | last within' none' => rw [none'] at some; cases some
    | step within' some' rest' =>
      obtain rfl := Option.some.inj (some.symm.trans some')
      rw [ih rest']

theorem onward (walk : Walk next inside slot slots) {other : α} (mem : other ∈ slots) :
    ∃ rest, Walk next inside other rest ∧ rest.length ≤ slots.length := by
  induction walk with
  | @last slot within none =>
    obtain rfl := List.mem_singleton.mp mem
    exact ⟨_, .last within none, Nat.le_refl _⟩
  | @step slot later slots within some rest ih =>
    rcases List.mem_cons.mp mem with rfl | mem
    · exact ⟨_, .step within some rest, Nat.le_refl _⟩
    · obtain ⟨rest', walk', short⟩ := ih mem
      exact ⟨rest', walk', Nat.le_succ_of_le short⟩

theorem nodup (walk : Walk next inside slot slots) : slots.Nodup := by
  induction walk with
  | last within none => exact List.nodup_singleton _
  | step within some rest ih =>
    refine List.nodup_cons.mpr ⟨fun mem => ?_, ih⟩
    obtain ⟨rest', walk', short⟩ := rest.onward mem
    rw [walk'.unique (.step within some rest), List.length_cons] at short
    omega

end Walk

end Chains

end Emas

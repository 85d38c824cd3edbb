/-
**Definite assignment.**

An access reads some cells of a memory and writes others, with values that depend on the cells that it reads only. Accesses
are made one after the other; what each of them reads is observed, and in the end the cells of a region.

`Assigned` says that every cell is written before it is read, and every cell of the region in the end, where the cells that
count as written from the start are given. **`sameObservations_iff_assigned`** — this is so if and only if nothing that is
observed depends on the memory at the start.
-/

import Mathlib.Data.Set.Basic
import Mathlib.Logic.Nontrivial.Basic

namespace Emas

/-- An access to the cells `ι` of a memory with values `α`. -/
structure Access (ι α : Type) where
  reads : Set ι
  writes : Set ι
  value : (ι → α) → ι → α
  value_eq : ∀ memory memory' : ι → α, (∀ i ∈ reads, memory i = memory' i) →
    ∀ i ∈ writes, value memory i = value memory' i

namespace Access

variable {ι α : Type}

open Classical in
noncomputable def perform (access : Access ι α) (memory : ι → α) : ι → α :=
  fun i => if i ∈ access.writes then access.value memory i else memory i

theorem perform_of_mem (access : Access ι α) (memory : ι → α) {i : ι} (inside : i ∈ access.writes) :
    access.perform memory i = access.value memory i := if_pos inside

theorem perform_of_notMem (access : Access ι α) (memory : ι → α) {i : ι} (outside : i ∉ access.writes) :
    access.perform memory i = memory i := if_neg outside

variable (region : Set ι)

/-- The accesses read the same from both memories, and leave the same region. -/
def SameObservations : List (Access ι α) → (ι → α) → (ι → α) → Prop
  | [], memory, memory' => ∀ i ∈ region, memory i = memory' i
  | access :: rest, memory, memory' =>
    (∀ i ∈ access.reads, memory i = memory' i) ∧ SameObservations rest (access.perform memory) (access.perform memory')

/-- Every cell is written before it is read, and those of the region in the end. -/
def Assigned : List (Access ι α) → Set ι → Prop
  | [], known => region ⊆ known
  | access :: rest, known => access.reads ⊆ known ∧ Assigned rest (known ∪ access.writes)

variable {region}

theorem perform_agree {access : Access ι α} {known : Set ι} {memory memory' : ι → α}
    (agree : ∀ i ∈ known, memory i = memory' i) (reads : access.reads ⊆ known) :
    ∀ i ∈ known ∪ access.writes, access.perform memory i = access.perform memory' i := by
  intro i member
  by_cases written : i ∈ access.writes
  · rw [perform_of_mem _ _ written, perform_of_mem _ _ written]
    exact access.value_eq memory memory' (fun j inside => agree j (reads inside)) i written
  · rw [perform_of_notMem _ _ written, perform_of_notMem _ _ written]
    exact agree i (member.resolve_right written)

theorem Assigned.sameObservations {accesses : List (Access ι α)} {known : Set ι} {memory memory' : ι → α}
    (assigned : Assigned region accesses known) (agree : ∀ i ∈ known, memory i = memory' i) :
    SameObservations region accesses memory memory' := by
  induction accesses generalizing known memory memory' with
  | nil => exact fun i member => agree i (assigned member)
  | cons access rest ih =>
    exact ⟨fun i read => agree i (assigned.1 read), ih assigned.2 (perform_agree agree assigned.1)⟩

theorem exists_before {access : Access ι α} {known : Set ι} {memory after : ι → α} (reads : access.reads ⊆ known)
    (agree : ∀ i ∈ known ∪ access.writes, access.perform memory i = after i) :
    ∃ before, (∀ i ∈ known, memory i = before i) ∧ access.perform before = after := by
  classical
  let before : ι → α := fun i => if i ∈ access.writes then memory i else after i
  have same : ∀ i ∈ known, memory i = before i := by
    intro i member
    by_cases written : i ∈ access.writes
    · exact (if_pos written).symm
    · rw [← perform_of_notMem access memory written, agree i (.inl member)]
      exact (if_neg written).symm
  refine ⟨before, same, funext fun i => ?_⟩
  by_cases written : i ∈ access.writes
  · rw [← agree i (.inr written)]
    exact (perform_agree same reads i (.inr written)).symm
  · rw [perform_of_notMem _ _ written]
    exact if_neg written

variable [Nontrivial α]

theorem subset_of_agree {known cells : Set ι} (memory : ι → α)
    (same : ∀ memory' : ι → α, (∀ i ∈ known, memory i = memory' i) → ∀ i ∈ cells, memory i = memory' i) :
    cells ⊆ known := by
  classical
  intro i member
  by_contra absent
  obtain ⟨other, differs⟩ := exists_ne (memory i)
  have kept : ∀ j ∈ known, memory j = Function.update memory i other j := by
    intro j inside
    rw [Function.update_of_ne (fun equal : j = i => absent (equal ▸ inside))]
  have equal := same _ kept i member
  rw [Function.update_self] at equal
  exact differs equal.symm

/-- **From a memory the same is observed as from all that agree with it on the known cells** if and only if every cell is
known when it is observed. -/
theorem sameObservations_iff (accesses : List (Access ι α)) (known : Set ι) (memory : ι → α) :
    (∀ memory', (∀ i ∈ known, memory i = memory' i) → SameObservations region accesses memory memory') ↔
      Assigned region accesses known := by
  refine ⟨fun same => ?_, fun assigned memory' agree => assigned.sameObservations agree⟩
  induction accesses generalizing known memory with
  | nil => exact subset_of_agree memory same
  | cons access rest ih =>
    have reads : access.reads ⊆ known := subset_of_agree memory fun memory' agree => (same memory' agree).1
    refine ⟨reads, ih _ (access.perform memory) fun after agree => ?_⟩
    obtain ⟨before, same', rfl⟩ := exists_before reads agree
    exact (same before same').2

/-- **Nothing that is observed depends on the memory** if and only if every cell is written before. -/
theorem sameObservations_iff_assigned (accesses : List (Access ι α)) :
    (∀ memory memory', SameObservations region accesses memory memory') ↔ Assigned region accesses ∅ := by
  constructor
  · intro same
    obtain ⟨value⟩ := (inferInstance : Nonempty α)
    exact (sameObservations_iff accesses ∅ fun _ => value).mp fun memory' _ => same _ memory'
  · intro assigned memory memory'
    exact assigned.sameObservations fun _ => nofun

end Access

end Emas

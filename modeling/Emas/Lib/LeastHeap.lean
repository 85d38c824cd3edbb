/-
**Heaps with the least item at the front.**

A vector that `push_heap` and `pop_heap` keep: only the place of its front is told, the other items may lie in any
order. Pushing compares an item with the front; popping drops the front and brings a least of the others there.

* `pushHeap_perm`, `popHeap_perm` — no item is lost.
* `FrontLeast.pushHeap`, `frontLeast_popHeap` — the front stays least.
-/

import Mathlib.Data.List.Basic
import Mathlib.Data.List.Induction
import Mathlib.Order.Lattice

namespace Emas

section Heap

variable {α κ : Type} [LinearOrder κ] (key : α → κ)

def pushHeap : List α → α → List α
  | [], item => [item]
  | front :: rest, item => if key item < key front then item :: front :: rest else front :: (rest ++ [item])

/-- The heap without its front. -/
def popHeap (heap : List α) : List α := heap.tail.foldl (pushHeap key) []

/-- The front has a least key. -/
def FrontLeast : List α → Prop
  | [] => True
  | front :: rest => ∀ item ∈ rest, key front ≤ key item

variable {key}

theorem pushHeap_perm (heap : List α) (item : α) : (pushHeap key heap item).Perm (item :: heap) := by
  cases heap with
  | nil => exact .refl _
  | cons front rest =>
    rw [pushHeap]
    split
    · exact .refl _
    · exact ((List.perm_append_singleton item rest).cons front).trans (.swap ..)

theorem FrontLeast.pushHeap {heap : List α} (least : FrontLeast key heap) (item : α) :
    FrontLeast key (pushHeap key heap item) := by
  cases heap with
  | nil => exact fun _ member => nomatch member
  | cons front rest =>
    rw [Emas.pushHeap]
    split
    next below =>
      intro other member
      rcases List.mem_cons.mp member with rfl | later
      · exact below.le
      · exact below.le.trans (least other later)
    next above =>
      intro other member
      rcases List.mem_append.mp member with old | new
      · exact least other old
      · exact List.mem_singleton.mp new ▸ not_lt.mp above

theorem foldl_pushHeap_perm (items heap : List α) : (items.foldl (pushHeap key) heap).Perm (items ++ heap) := by
  induction items generalizing heap with
  | nil => exact .refl _
  | cons item rest ih =>
    exact (ih _).trans (((pushHeap_perm heap item).append_left rest).trans List.perm_middle)

theorem FrontLeast.foldl_pushHeap {heap : List α} (least : FrontLeast key heap) (items : List α) :
    FrontLeast key (items.foldl (Emas.pushHeap key) heap) := by
  induction items generalizing heap with
  | nil => exact least
  | cons item rest ih => exact ih (least.pushHeap item)

theorem popHeap_perm (front : α) (rest : List α) : (popHeap key (front :: rest)).Perm rest := by
  rw [popHeap, List.tail_cons]
  simpa using foldl_pushHeap_perm rest []

/-- **A least item is at the front after popping.** -/
theorem frontLeast_popHeap (heap : List α) : FrontLeast key (popHeap key heap) :=
  have empty : FrontLeast key ([] : List α) := trivial
  empty.foldl_pushHeap heap.tail

theorem FrontLeast.le {front : α} {rest : List α} (least : FrontLeast key (front :: rest)) {item : α}
    (member : item ∈ front :: rest) : key front ≤ key item := by
  rcases List.mem_cons.mp member with rfl | later
  · exact le_rfl
  · exact least item later

/-! ### The first of the least items -/

variable (key) in
/-- The items before it have greater keys, and those after it no less. -/
def FirstLeast (items : List α) (front : α) : Prop :=
  ∃ before after, items = before ++ front :: after ∧ (∀ item ∈ before, key front < key item) ∧
    ∀ item ∈ after, key front ≤ key item

variable {items : List α}

theorem FirstLeast.mem {front : α} (first : FirstLeast key items front) : front ∈ items := by
  obtain ⟨before, after, rfl, -⟩ := first
  exact List.mem_append_right _ (List.mem_cons_self ..)

theorem FirstLeast.le {front item : α} (first : FirstLeast key items front) (member : item ∈ items) :
    key front ≤ key item := by
  obtain ⟨before, after, rfl, less, least⟩ := first
  rcases List.mem_append.mp member with earlier | later
  · exact (less item earlier).le
  · rcases List.mem_cons.mp later with rfl | behind
    · exact le_rfl
    · exact least item behind

theorem FirstLeast.unique {front other : α} (first : FirstLeast key items front)
    (second : FirstLeast key items other) : front = other := by
  have least := first.le second.mem
  have least' := second.le first.mem
  obtain ⟨before, after, rfl, less, -⟩ := first
  obtain ⟨before', after', same, less', -⟩ := second
  rcases List.append_eq_append_iff.mp same with ⟨between, rfl, split⟩ | ⟨between, rfl, split⟩
  · cases between with
    | nil => exact (List.cons.inj split).1
    | cons item rest =>
      obtain ⟨rfl, -⟩ := List.cons.inj split
      exact absurd (less' front (by simp)) least.not_gt
  · cases between with
    | nil => exact (List.cons.inj split).1.symm
    | cons item rest =>
      obtain ⟨rfl, -⟩ := List.cons.inj split
      exact absurd (less other (by simp)) least'.not_gt

/-- **The front is the first of the least items.** -/
theorem firstLeast_head (items : List α) {front : α} {rest : List α}
    (heap : items.foldl (Emas.pushHeap key) [] = front :: rest) : FirstLeast key items front := by
  induction items using List.reverseRecOn generalizing front rest with
  | nil => cases heap
  | append_singleton items item ih =>
    rw [List.foldl_append, List.foldl_cons, List.foldl_nil] at heap
    cases held : items.foldl (Emas.pushHeap key) [] with
    | nil =>
      have none : items = [] := by
        have same := (@foldl_pushHeap_perm α κ _ key items []).length_eq
        rw [held] at same
        exact List.eq_nil_of_length_eq_zero (by simpa using same.symm)
      rw [held, Emas.pushHeap] at heap
      cases heap
      rw [none]
      exact ⟨[], [], rfl, fun _ => nofun, fun _ => nofun⟩
    | cons top others =>
      have first := ih held
      rw [held, Emas.pushHeap] at heap
      split at heap
      · next below =>
        cases heap
        exact ⟨items, [], rfl, fun other member => below.trans_le (first.le member), fun _ => nofun⟩
      · next above =>
        cases heap
        obtain ⟨before, after, rfl, less, least⟩ := first
        refine ⟨before, after ++ [item], by simp, less, fun other member => ?_⟩
        rcases List.mem_append.mp member with old | new
        · exact least other old
        · exact List.mem_singleton.mp new ▸ not_lt.mp above

end Heap

end Emas

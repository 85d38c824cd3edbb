/-
**Lists in the order of a key.**

`KeyOrdered key list` says that no item of the list has a smaller key than one before it.

* `KeyOrdered.insert` — an item goes in where what is before it has no larger key and what is behind it no smaller one.
* **`keyOrdered_change_iff`** — where the key of one item changes, the list stays in order if and only if the items beside it
  allow it.
-/

import Mathlib.Data.List.Induction
import Mathlib.Data.List.Pairwise
import Mathlib.Order.Lattice

namespace Emas

variable {α κ : Type} [LinearOrder κ]

/-- No item has a smaller key than one before it. -/
def KeyOrdered (key : α → κ) (list : List α) : Prop := list.Pairwise fun first second => key first ≤ key second

variable {key key' : α → κ} {list before after : List α} {item : α}

theorem keyOrdered_congr (same : ∀ item ∈ list, key item = key' item) : KeyOrdered key list ↔ KeyOrdered key' list := by
  unfold KeyOrdered
  refine List.Pairwise.iff_of_mem fun {first second} member member' => ?_
  rw [same first member, same second member']

theorem KeyOrdered.sublist (inOrder : KeyOrdered key list) {part : List α} (sub : part.Sublist list) : KeyOrdered key part :=
  List.Pairwise.sublist sub inOrder

/-- **An item goes in** where what is before it has no larger key, and what is behind it no smaller one. -/
theorem keyOrdered_insert_iff : KeyOrdered key (before ++ item :: after) ↔
    KeyOrdered key (before ++ after) ∧ (∀ other ∈ before, key other ≤ key item) ∧ ∀ other ∈ after, key item ≤ key other := by
  unfold KeyOrdered
  rw [List.pairwise_append, List.pairwise_append, List.pairwise_cons]
  constructor
  · rintro ⟨front, ⟨behind, back⟩, across⟩
    exact ⟨⟨front, back, fun first member second member' => across first member second (.tail _ member')⟩,
      fun other member => across other member item (List.mem_cons_self ..), behind⟩
  · rintro ⟨⟨front, back, across⟩, lower, upper⟩
    refine ⟨front, ⟨upper, back⟩, fun first member second member' => ?_⟩
    rcases List.mem_cons.mp member' with rfl | member'
    · exact lower first member
    · exact across first member second member'

theorem KeyOrdered.forall_le_iff (inOrder : KeyOrdered key list) (bound : κ) :
    (∀ item ∈ list, key item ≤ bound) ↔ ∀ last ∈ list.getLast?, key last ≤ bound := by
  constructor
  · exact fun all last found => all last (List.mem_of_getLast? found)
  · intro last item member
    cases list using List.reverseRecOn with
    | nil => cases member
    | append_singleton front back =>
      have least := last back List.getLast?_concat
      rcases List.mem_append.mp member with inside | end_
      · exact le_trans ((List.pairwise_append.mp inOrder).2.2 item inside back (List.mem_singleton_self _)) least
      · exact List.mem_singleton.mp end_ ▸ least

theorem KeyOrdered.forall_ge_iff (inOrder : KeyOrdered key list) (bound : κ) :
    (∀ item ∈ list, bound ≤ key item) ↔ ∀ first ∈ list.head?, bound ≤ key first := by
  constructor
  · exact fun all first found => all first (List.mem_of_head? found)
  · intro first item member
    cases list with
    | nil => cases member
    | cons front rest =>
      have least := first front rfl
      rcases List.mem_cons.mp member with rfl | behind
      · exact least
      · exact le_trans least ((List.pairwise_cons.mp inOrder).1 item behind)

/-- **Where the key of one item changes**, the list stays in order if and only if the items beside it allow it. -/
theorem keyOrdered_change_iff (inOrder : KeyOrdered key (before ++ item :: after))
    (others : ∀ other ∈ before ++ after, key' other = key other) :
    KeyOrdered key' (before ++ item :: after) ↔
      (∀ last ∈ before.getLast?, key last ≤ key' item) ∧ ∀ first ∈ after.head?, key' item ≤ key first := by
  have rest := (keyOrdered_insert_iff.mp inOrder).1
  obtain ⟨front, back, -⟩ := List.pairwise_append.mp rest
  have front : KeyOrdered key before := front
  have back : KeyOrdered key after := back
  rw [keyOrdered_insert_iff, keyOrdered_congr others, and_iff_right rest, ← front.forall_le_iff, ← back.forall_ge_iff]
  refine and_congr (forall₂_congr fun other member => ?_) (forall₂_congr fun other member => ?_)
  · rw [others other (List.mem_append_left _ member)]
  · rw [others other (List.mem_append_right _ member)]

/-- Some item has a key up to a bound if and only if the first one has. -/
theorem KeyOrdered.exists_le_iff (inOrder : KeyOrdered key list) (bound : κ) :
    (∃ item ∈ list, key item ≤ bound) ↔ ∃ first ∈ list.head?, key first ≤ bound := by
  constructor
  · rintro ⟨item, member, small⟩
    cases list with
    | nil => cases member
    | cons front rest =>
      refine ⟨front, rfl, ?_⟩
      rcases List.mem_cons.mp member with rfl | behind
      · exact small
      · exact le_trans ((List.pairwise_cons.mp inOrder).1 item behind) small
  · rintro ⟨first, found, small⟩
    exact ⟨first, List.mem_of_head? found, small⟩

end Emas

/-
**Finite maps kept as key-sorted lists.**

`SortedMap κ ν` is an association list whose keys increase strictly; the order is a field, so every
value of the type is a map with distinct keys. `find?` reads it, `insert` writes one key, `erase`
forgets one, and `minKey?` is the first key of the iteration order. The five characterising lemmas
(`find?_empty`, `find?_insert`, `find?_erase`, `minKey?_eq_some_iff`, `ext_find?`) are all a client needs; no
proof outside this file looks at the entry list.
-/

import Mathlib.Order.Lattice
import Mathlib.Data.List.Basic

namespace Emas

variable {κ ν : Type} [LinearOrder κ]

variable {key : κ} {value : ν}

namespace SortedEntries

def find? (key : κ) : List (κ × ν) → Option ν
  | [] => none
  | (k, value) :: rest => if key = k then some value else find? key rest

/-- Write one key, in place or at its position in the order. -/
def insert (key : κ) (value : ν) : List (κ × ν) → List (κ × ν)
  | [] => [(key, value)]
  | (k, v) :: rest =>
    if key < k then (key, value) :: (k, v) :: rest
    else if key = k then (key, value) :: rest
    else (k, v) :: insert key value rest

/-- Forget one key. -/
def erase (key : κ) (entries : List (κ × ν)) : List (κ × ν) :=
  entries.filter fun entry => entry.1 ≠ key

theorem key_of_mem_insert {entry : κ × ν} :
    ∀ {entries : List (κ × ν)}, entry ∈ insert key value entries → entry.1 = key ∨ entry ∈ entries
  | [], member => Or.inl (by simp [insert] at member; rw [member])
  | (k, v) :: rest, member => by
      rw [insert] at member
      split_ifs at member with before same
      · rcases List.mem_cons.mp member with rfl | later
        · exact Or.inl rfl
        · exact Or.inr later
      · rcases List.mem_cons.mp member with rfl | later
        · exact Or.inl rfl
        · exact Or.inr (List.mem_cons_of_mem _ later)
      · rcases List.mem_cons.mp member with rfl | later
        · exact Or.inr (List.mem_cons_self ..)
        · rcases key_of_mem_insert later with new | old
          · exact Or.inl new
          · exact Or.inr (List.mem_cons_of_mem _ old)

theorem insert_sorted (key : κ) (value : ν) : ∀ {entries : List (κ × ν)},
    entries.Pairwise (fun first second => first.1 < second.1) →
      (insert key value entries).Pairwise (fun first second => first.1 < second.1)
  | [], _ => by simp [insert]
  | (k, v) :: rest, sorted => by
      obtain ⟨head, tail⟩ := List.pairwise_cons.mp sorted
      rw [insert]
      split_ifs with before same
      · refine List.pairwise_cons.mpr ⟨fun entry member => ?_, sorted⟩
        rcases List.mem_cons.mp member with rfl | later
        · exact before
        · exact lt_trans before (head entry later)
      · subst same
        exact List.pairwise_cons.mpr ⟨head, tail⟩
      · refine List.pairwise_cons.mpr ⟨fun entry member => ?_, insert_sorted key value tail⟩
        rcases key_of_mem_insert member with new | old
        · rw [new]
          exact lt_of_le_of_ne (not_lt.mp before) (Ne.symm same)
        · exact head entry old

theorem find?_insert (key query : κ) (value : ν) : ∀ entries : List (κ × ν),
    find? query (insert key value entries) = if query = key then some value else find? query entries
  | [] => by simp [insert, find?]
  | (k, v) :: rest => by
      have later := find?_insert key query value rest
      by_cases before : key < k
      · rw [insert, if_pos before, find?]
      · by_cases same : key = k
        · subst same
          rw [insert, if_neg before, if_pos rfl, find?, find?]
          split_ifs <;> rfl
        · rw [insert, if_neg before, if_neg same, find?, later, find?]
          split_ifs with atHead asked
          · exact absurd (asked.symm.trans atHead) same
          all_goals rfl

theorem find?_erase (key query : κ) : ∀ entries : List (κ × ν),
    find? query (erase key entries) = if query = key then none else find? query entries
  | [] => by simp [erase, find?]
  | (k, v) :: rest => by
      have later := find?_erase key query rest
      unfold erase at later ⊢
      by_cases same : k = key
      · subst same
        simp only [ne_eq, not_true_eq_false, decide_false, Bool.false_eq_true, not_false_eq_true,
          List.filter_cons_of_neg, later, find?]
        split_ifs <;> rfl
      · simp only [ne_eq, same, not_false_eq_true, decide_true, List.filter_cons_of_pos, find?, later]
        split_ifs with asked erased <;> first | rfl | exact absurd (asked.symm.trans erased) same

theorem mem_of_find? : ∀ {entries : List (κ × ν)}, find? key entries = some value → (key, value) ∈ entries
  | (k, v) :: rest, found => by
      rw [find?] at found
      split_ifs at found with same
      · subst same
        cases found
        exact List.mem_cons_self ..
      · exact List.mem_cons_of_mem _ (mem_of_find? found)

theorem find?_of_mem : ∀ {entries : List (κ × ν)},
    entries.Pairwise (fun first second => first.1 < second.1) → (key, value) ∈ entries → find? key entries = some value
  | (k, v) :: rest, sorted, member => by
      obtain ⟨head, tail⟩ := List.pairwise_cons.mp sorted
      rw [find?]
      rcases List.mem_cons.mp member with same | later
      · cases same
        exact if_pos rfl
      · rw [if_neg (head _ later).ne', find?_of_mem tail later]

theorem find?_eq_none {entries : List (κ × ν)} (other : ∀ entry ∈ entries, entry.1 ≠ key) :
    find? key entries = none := by
  cases found : find? key entries with
  | none => rfl
  | some value => exact absurd rfl (other _ (mem_of_find? found))

/-- **Sorted entries are determined by their values**: what comes first in one list comes first in the other. -/
theorem eq_of_find?_eq : ∀ {first second : List (κ × ν)},
    first.Pairwise (fun first second => first.1 < second.1) →
      second.Pairwise (fun first second => first.1 < second.1) →
        (∀ key, find? key first = find? key second) → first = second
  | [], [], _, _, _ => rfl
  | [], (k, v) :: rest, _, _, same => by simpa [find?] using same k
  | (k, v) :: rest, [], _, _, same => by simpa [find?] using same k
  | (k, v) :: rest, (k', v') :: rest', sorted, sorted', same => by
      obtain ⟨head, tail⟩ := List.pairwise_cons.mp sorted
      obtain ⟨head', tail'⟩ := List.pairwise_cons.mp sorted'
      have keys : k = k' := by
        rcases lt_trichotomy k k' with less | equal | more
        · have absent := same k
          rw [find?, if_pos rfl, find?, if_neg less.ne,
            find?_eq_none fun entry member => (lt_trans less (head' entry member)).ne'] at absent
          cases absent
        · exact equal
        · have absent := same k'
          rw [find?, if_neg more.ne, find?_eq_none fun entry member => (lt_trans more (head entry member)).ne', find?,
            if_pos rfl] at absent
          cases absent
      subst keys
      have values := same k
      rw [find?, if_pos rfl, find?, if_pos rfl] at values
      obtain rfl := Option.some.inj values
      rw [eq_of_find?_eq tail tail' fun key => ?_]
      by_cases here : key = k
      · rw [here, find?_eq_none fun entry member => (head entry member).ne',
          find?_eq_none fun entry member => (head' entry member).ne']
      · have later := same key
        rwa [find?, if_neg here, find?, if_neg here] at later

theorem erase_of_ne {entries : List (κ × ν)} (other : ∀ entry ∈ entries, key ≠ entry.1) : erase key entries = entries :=
  List.filter_eq_self.mpr fun entry member => by simpa using (other entry member).symm

theorem ne_of_find?_eq_none : ∀ {entries : List (κ × ν)}, find? key entries = none → ∀ entry ∈ entries, key ≠ entry.1
  | (k, v) :: rest, absent, entry, member => by
      rw [find?] at absent
      split_ifs at absent with same
      rcases List.mem_cons.mp member with rfl | later
      · exact same
      · exact ne_of_find?_eq_none absent entry later

theorem erase_head {rest : List (κ × ν)}
    (sorted : ((key, value) :: rest).Pairwise fun first second => first.1 < second.1) :
    erase key ((key, value) :: rest) = rest := by
  rw [erase, List.filter_cons_of_neg (by simp)]
  exact erase_of_ne fun entry member => ((List.pairwise_cons.mp sorted).1 entry member).ne

/-- **Writing a key** replaces its entry. -/
theorem insert_perm (key : κ) (value : ν) : ∀ {entries : List (κ × ν)},
    entries.Pairwise (fun first second => first.1 < second.1) →
      (insert key value entries).Perm ((key, value) :: erase key entries)
  | [], _ => .refl _
  | (k, v) :: rest, sorted => by
      obtain ⟨head, tail⟩ := List.pairwise_cons.mp sorted
      rw [insert]
      split_ifs with before same
      · rw [erase_of_ne]
        intro entry member
        rcases List.mem_cons.mp member with rfl | later
        · exact before.ne
        · exact (lt_trans before (head entry later)).ne
      · subst same
        exact .of_eq (congrArg _ (erase_head sorted).symm)
      · rw [erase, List.filter_cons_of_pos (by simpa using Ne.symm same)]
        exact ((insert_perm key value tail).cons _).trans (.swap ..)

/-- **A stored key** is one of the entries, and the others stay when it is erased. -/
theorem perm_erase : ∀ {entries : List (κ × ν)},
    entries.Pairwise (fun first second => first.1 < second.1) → find? key entries = some value →
      entries.Perm ((key, value) :: erase key entries)
  | (k, v) :: rest, sorted, found => by
      obtain ⟨head, tail⟩ := List.pairwise_cons.mp sorted
      rw [find?] at found
      split_ifs at found with same
      · subst same
        cases found
        exact .of_eq (congrArg _ (erase_head sorted).symm)
      · rw [erase, List.filter_cons_of_pos (by simpa using Ne.symm same)]
        exact ((perm_erase tail found).cons _).trans (.swap ..)

end SortedEntries

/-- A finite map whose entries are listed in increasing key order. -/
@[ext]
structure SortedMap (κ ν : Type) [LinearOrder κ] where
  entries : List (κ × ν)
  sorted : entries.Pairwise fun first second => first.1 < second.1

namespace SortedMap

/-- The map with no keys. -/
def empty : SortedMap κ ν := ⟨[], List.Pairwise.nil⟩

/-- The value stored under a key. -/
def find? (map : SortedMap κ ν) (key : κ) : Option ν := SortedEntries.find? key map.entries

/-- Write one key. -/
def insert (map : SortedMap κ ν) (key : κ) (value : ν) : SortedMap κ ν :=
  ⟨SortedEntries.insert key value map.entries, SortedEntries.insert_sorted key value map.sorted⟩

/-- Forget one key. -/
def erase (map : SortedMap κ ν) (key : κ) : SortedMap κ ν :=
  ⟨SortedEntries.erase key map.entries, map.sorted.filter _⟩

/-- The first key in iteration order. -/
def minKey? (map : SortedMap κ ν) : Option κ := map.entries.head?.map Prod.fst

@[simp] theorem find?_empty (key : κ) : (empty : SortedMap κ ν).find? key = none := rfl

theorem find?_insert (map : SortedMap κ ν) (key query : κ) (value : ν) :
    (map.insert key value).find? query = if query = key then some value else map.find? query :=
  SortedEntries.find?_insert key query value map.entries

theorem find?_erase (map : SortedMap κ ν) (key query : κ) :
    (map.erase key).find? query = if query = key then none else map.find? query :=
  SortedEntries.find?_erase key query map.entries

@[simp] theorem find?_insert_self (map : SortedMap κ ν) (key : κ) (value : ν) :
    (map.insert key value).find? key = some value := by
  rw [find?_insert, if_pos rfl]

variable {map : SortedMap κ ν}

theorem mem_of_find? (found : map.find? key = some value) :
    (key, value) ∈ map.entries := SortedEntries.mem_of_find? found

theorem find?_of_mem (member : (key, value) ∈ map.entries) :
    map.find? key = some value := SortedEntries.find?_of_mem map.sorted member

theorem ext_find? {first second : SortedMap κ ν} (same : ∀ key, first.find? key = second.find? key) : first = second := by
  obtain ⟨entries, sorted⟩ := first
  obtain ⟨entries', sorted'⟩ := second
  obtain rfl := SortedEntries.eq_of_find?_eq sorted sorted' same
  rfl

theorem entries_insert_perm (map : SortedMap κ ν) (key : κ) (value : ν) :
    (map.insert key value).entries.Perm ((key, value) :: (map.erase key).entries) :=
  SortedEntries.insert_perm key value map.sorted

theorem entries_erase_of_none (absent : map.find? key = none) : (map.erase key).entries = map.entries :=
  SortedEntries.erase_of_ne (SortedEntries.ne_of_find?_eq_none absent)

theorem entries_perm_erase (found : map.find? key = some value) :
    map.entries.Perm ((key, value) :: (map.erase key).entries) :=
  SortedEntries.perm_erase map.sorted found

/-- **The first key**: present, and below every present key. -/
theorem minKey?_eq_some_iff (map : SortedMap κ ν) (key : κ) :
    map.minKey? = some key ↔ map.find? key ≠ none ∧ ∀ other, map.find? other ≠ none → key ≤ other := by
  obtain ⟨entries, sorted⟩ := map
  cases entries with
  | nil => simp [minKey?, find?, SortedEntries.find?]
  | cons entry rest =>
    obtain ⟨k, v⟩ := entry
    obtain ⟨head, _⟩ := List.pairwise_cons.mp sorted
    have first : ∀ other, find? ⟨(k, v) :: rest, sorted⟩ other ≠ none → k ≤ other := by
      intro other found
      obtain ⟨value, stored⟩ := Option.ne_none_iff_exists'.mp found
      rcases List.mem_cons.mp (SortedEntries.mem_of_find? stored) with same | later
      · cases same
        exact le_rfl
      · exact le_of_lt (head _ later)
    have present : find? ⟨(k, v) :: rest, sorted⟩ k ≠ none := by
      simp [find?, SortedEntries.find?]
    constructor
    · intro same
      cases same
      exact ⟨present, first⟩
    · rintro ⟨found, least⟩
      have same : k = key := le_antisymm (first key found) (least k present)
      rw [← same]
      rfl

theorem minKey?_eq_none_iff (map : SortedMap κ ν) : map.minKey? = none ↔ ∀ key, map.find? key = none := by
  obtain ⟨entries, sorted⟩ := map
  cases entries with
  | nil => simp [minKey?, find?, SortedEntries.find?]
  | cons entry rest =>
    obtain ⟨k, v⟩ := entry
    refine ⟨fun absent => by simp [minKey?] at absent, fun absent => ?_⟩
    have := absent k
    simp [find?, SortedEntries.find?] at this

end SortedMap

end Emas

/-
**The circular queue as a bounded deque.**

The tail of the queue is at a position that counts its steps; index and round are what is left of it modulo the capacity
and modulo 2^32, and the queue takes up the positions up to it (`Inv`). The calls of a run obey (`Obeys`) unless they
reach one of the places where the code goes wrong:

* with a single slot, the queue starts with `_head` behind the vector, and the first element is put where no iterator
  finds it;
* when the round counter has wrapped to 0 since the head, `pop_front` compares the rounds in the wrong order, and its
  assertion fails;
* `pop_front( num_elem )` adds in 32 bits.

`queue_refines` — **refinement**: in every run whose calls obey, what is seen of the queue is the deque. `isValidIdx`
accepts indices behind the vector when the queue wraps around, and is right for all other ones (`Inside`).
-/

import Emas.Gem5.CircularQueue

namespace Emas.Gem5

namespace QueueRun

variable {T : Type}

/-- The iterators begin in the last lap before the counter wraps to 0, and the queue ends after it. -/
def Wraps (queue : CircularQueue T) (numElem : Nat) : Prop :=
  queue.endIt.lap = 0 ∧ queue.beginIt.lap = word - 1 ∧ queue.head + numElem < queue.capacity

/-- The calls for which the queue keeps to its contract. -/
def Obeys (run : QueueRun T) : QueueCall T → Prop
  | .flush => True
  | .pushBack _ => run.queue.head < run.queue.capacity
  | .popFront numElem => numElem ≤ run.deque.length ∧ run.queue.head + numElem < word ∧ ¬ Wraps run.queue numElem
  | .popBack => run.deque ≠ []

/-- The queue holds the deque; `pos` counts the steps of its tail. -/
structure Inv (run : QueueRun T) (pos : Nat) : Prop where
  positive : 0 < run.queue.capacity
  fits : run.queue.capacity < word
  slots : run.queue.slots.length = run.queue.capacity
  short : run.deque.length ≤ run.queue.capacity
  past : run.deque.length ≤ pos
  tail : run.queue.tail = pos % run.queue.capacity
  round : run.queue.round = pos / run.queue.capacity % word
  head : run.queue.head = (pos + 1 - run.deque.length) % run.queue.capacity ∨
    (run.deque = [] ∧ run.queue.capacity ≤ run.queue.head)
  empty : run.queue.empty = true ↔ run.deque = []
  held : ∀ j < run.deque.length, run.queue.slots[(pos + 1 - run.deque.length + j) % run.queue.capacity]? = run.deque[j]?
  works : run.failed = false

section Spots

variable {run : QueueRun T} {pos : Nat}

theorem Inv.head_eq (inv : run.Inv pos) (some : run.deque ≠ []) :
    run.queue.head = (pos + 1 - run.deque.length) % run.queue.capacity :=
  inv.head.resolve_right fun both => some both.1

theorem Inv.moduloAdd_eq (inv : run.Inv pos) {idx : Nat} (inside : idx < run.queue.capacity) :
    CircularQueue.moduloAdd idx 1 run.queue.capacity = (idx + 1) % run.queue.capacity := by
  have fits := inv.fits
  rw [CircularQueue.moduloAdd, Nat.mod_eq_of_lt (by omega : idx + 1 < word)]

theorem Inv.endIt_eq (inv : run.Inv pos) : run.queue.endIt = .of run.queue.capacity word (pos + 1) := by
  have inside := Nat.mod_lt pos inv.positive
  rw [Spot.of_succ inv.positive, CircularQueue.endIt, inv.tail, inv.moduloAdd_eq inside, inv.round]

theorem Inv.next_eq (inv : run.Inv pos) (p : Nat) :
    run.queue.next (.of run.queue.capacity word p) = .of run.queue.capacity word (p + 1) := by
  have inside := Nat.mod_lt p inv.positive
  rw [Spot.of_succ inv.positive, CircularQueue.next, CircularQueue.increase, Spot.of, inv.moduloAdd_eq inside]

theorem Inv.head_cases (inv : run.Inv pos) (some : run.deque ≠ []) :
    (run.deque.length ≤ run.queue.tail + 1 ∧ run.queue.head = run.queue.tail + 1 - run.deque.length ∧
      (pos + 1 - run.deque.length) / run.queue.capacity = pos / run.queue.capacity) ∨
    (run.queue.tail + 1 < run.deque.length ∧
      run.queue.head = run.queue.tail + 1 + run.queue.capacity - run.deque.length ∧
      (pos + 1 - run.deque.length) / run.queue.capacity + 1 = pos / run.queue.capacity) := by
  have nonempty := List.length_pos_iff.mpr some
  have short := inv.short
  have past := inv.past
  have start : pos + 1 - run.deque.length = pos - (run.deque.length - 1) := by omega
  have head := inv.head_eq some
  rw [start] at head ⊢
  rw [inv.tail]
  by_cases within : run.deque.length - 1 ≤ pos % run.queue.capacity
  · obtain ⟨slot, lap⟩ := sub_within inv.positive within
    exact .inl ⟨by omega, by omega, lap⟩
  · obtain ⟨slot, lap⟩ := sub_across (Nat.not_le.mp within) (by omega) (by omega)
    exact .inr ⟨by omega, by omega, lap⟩

theorem Inv.beginIt_eq (inv : run.Inv pos) (some : run.deque ≠ []) :
    run.queue.beginIt = .of run.queue.capacity word (pos + 1 - run.deque.length) := by
  have nonempty := List.length_pos_iff.mpr some
  have notEmpty : ¬ run.queue.empty = true := fun empty => some (inv.empty.mp empty)
  have head := inv.head_eq some
  have short := inv.short
  rw [CircularQueue.beginIt, if_neg notEmpty, Spot.of, ← head]
  rcases inv.head_cases some with ⟨within, slot, lap⟩ | ⟨across, slot, lap⟩
  · rw [if_neg (by omega), inv.round, lap]
  · have positive : 0 < word := by decide
    rw [if_pos (by omega), inv.round, ← lap]
    refine congrArg (Spot.mk _) ?_
    rw [Nat.mod_add_mod, Nat.add_assoc, Nat.add_sub_cancel' positive, Nat.add_mod_right]

theorem Inv.start_eq (inv : run.Inv pos) :
    run.queue.beginIt = .of run.queue.capacity word (pos + 1 - run.deque.length) := by
  by_cases some : run.deque = []
  · rw [CircularQueue.beginIt, if_pos (inv.empty.mpr some), inv.endIt_eq, some]
    rfl
  · exact inv.beginIt_eq some

theorem Inv.plus_eq (inv : run.Inv pos) {p steps : Nat} (small : p % run.queue.capacity + steps < word) :
    run.queue.plus (.of run.queue.capacity word p) steps = .of run.queue.capacity word (p + steps) := by
  rw [Spot.of_add inv.positive, CircularQueue.plus, Spot.of, CircularQueue.moduloAdd, Nat.mod_eq_of_lt small]

/-- **The loop over the queue** visits the elements in order. -/
theorem Inv.enumerate_eq (inv : run.Inv pos) : ∀ {k fuel : Nat}, k ≤ run.deque.length → k < fuel →
    ∃ visited, run.queue.enumerate fuel (.of run.queue.capacity word (pos + 1 - k)) = some visited ∧
      visited.map Prod.snd = run.deque.drop (run.deque.length - k) ∧
      visited.map Prod.fst = (List.range' (pos + 1 - k) k).map (Spot.of run.queue.capacity word) := by
  intro k
  induction k with
  | zero =>
    intro fuel _ enough
    obtain ⟨more, rfl⟩ := Nat.exists_eq_succ_of_ne_zero (Nat.ne_of_gt enough)
    refine ⟨[], ?_, by simp, rfl⟩
    rw [CircularQueue.enumerate, inv.endIt_eq, Nat.sub_zero, if_pos rfl]
  | succ k ih =>
    intro fuel le enough
    obtain ⟨more, rfl⟩ := Nat.exists_eq_succ_of_ne_zero (Nat.ne_of_gt (Nat.zero_lt_of_lt enough))
    obtain ⟨visited, rest, values, spots⟩ := ih (Nat.le_of_succ_le le) (Nat.lt_of_succ_lt_succ enough)
    have short := inv.short
    have past := inv.past
    have step : pos + 1 - (k + 1) + 1 = pos + 1 - k := by omega
    have before : Spot.of run.queue.capacity word (pos + 1 - (k + 1)) ≠ run.queue.endIt := by
      rw [inv.endIt_eq]
      intro same
      have equal := Spot.inj_of_lap inv.positive (by decide) (by omega) (by omega) same
      omega
    obtain ⟨value, is⟩ : ∃ value, run.deque[run.deque.length - (k + 1)]? = some value :=
      ⟨_, List.getElem?_eq_getElem (by omega)⟩
    have slot := inv.held (run.deque.length - (k + 1)) (by omega)
    have place : pos + 1 - run.deque.length + (run.deque.length - (k + 1)) = pos + 1 - (k + 1) := by omega
    rw [place, is] at slot
    refine ⟨(Spot.of run.queue.capacity word (pos + 1 - (k + 1)), value) :: visited, ?_, ?_, ?_⟩
    · rw [CircularQueue.enumerate, if_neg before, Spot.of, slot, Option.bind_some, ← Spot.of, inv.next_eq, step, rest]
      rfl
    · have index : run.deque.length - (k + 1) + 1 = run.deque.length - k := by omega
      have here : run.deque.length - (k + 1) < run.deque.length := by omega
      rw [List.map_cons, values, List.drop_eq_getElem_cons here, index]
      rw [List.getElem?_eq_getElem here, Option.some.injEq] at is
      rw [is]
    · rw [List.map_cons, spots, List.range'_succ, List.map_cons, step]

end Spots

/-! ### What the queue shows -/

/-- What is seen of the queue is the deque. -/
structure Agrees (run : QueueRun T) : Prop where
  works : run.failed = false
  contents : ∃ visited, run.queue.contents = some visited ∧ visited.map Prod.snd = run.deque
  size : run.queue.size = run.deque.length
  empty : run.queue.empty = true ↔ run.deque = []
  full : run.queue.full = true ↔ run.deque.length = run.queue.capacity

/-- `isValidIdx` tells whether an iterator of the queue is at this index and in this round. -/
def ValidAt (run : QueueRun T) (idx round : Nat) : Prop :=
  run.queue.isValidIdx idx round = true ↔
    ∃ visited, run.queue.contents = some visited ∧ ⟨idx, round⟩ ∈ visited.map Prod.fst

/-- The index lies in the vector, or the part before the wrap-around is not asked for. -/
def Inside (queue : CircularQueue T) (idx round : Nat) : Prop :=
  idx < queue.capacity ∨ queue.empty = true ∨ queue.head ≤ queue.tail ∨ (round + 1) % word ≠ queue.round

section Shown

variable {run : QueueRun T} {pos : Nat}

theorem Inv.contents_eq (inv : run.Inv pos) : ∃ visited, run.queue.contents = some visited ∧
    visited.map Prod.snd = run.deque ∧
    visited.map Prod.fst = (List.range' (pos + 1 - run.deque.length) run.deque.length).map
      (Spot.of run.queue.capacity word) := by
  rw [CircularQueue.contents, inv.start_eq]
  obtain ⟨visited, enumerated, values, spots⟩ :=
    inv.enumerate_eq (Nat.le_refl _) (Nat.lt_succ_of_le inv.short)
  rw [Nat.sub_self, List.drop_zero] at values
  exact ⟨visited, enumerated, values, spots⟩

/-- **What is seen of the queue.** -/
theorem Inv.agrees (inv : run.Inv pos) : run.Agrees := by
  obtain ⟨visited, shown, values, -⟩ := inv.contents_eq
  have short := inv.short
  have below := Nat.mod_lt pos inv.positive
  have tail := inv.tail
  by_cases some : run.deque = []
  · have empty := inv.empty.mpr some
    have positive := inv.positive
    refine ⟨inv.works, ⟨visited, shown, values⟩, ?_, inv.empty, ?_⟩
    · rw [CircularQueue.size, if_pos empty, some]
      rfl
    · simp only [CircularQueue.full, empty, some, Bool.not_true, Bool.false_and, List.length_nil]
      exact iff_of_false Bool.false_ne_true (Nat.ne_of_lt positive)
  · have notEmpty : run.queue.empty = false := by
      rw [← Bool.not_eq_true]
      exact fun empty => some (inv.empty.mp empty)
    have nonempty := List.length_pos_iff.mpr some
    refine ⟨inv.works, ⟨visited, shown, values⟩, ?_, inv.empty, ?_⟩
    · rw [CircularQueue.size, notEmpty, if_neg Bool.false_ne_true]
      rcases inv.head_cases some with ⟨within, head, -⟩ | ⟨across, head, -⟩
      · rw [if_pos (by omega)]
        omega
      · rw [if_neg (by omega)]
        omega
    · simp only [CircularQueue.full, notEmpty, Bool.not_false, Bool.true_and, Bool.or_eq_true, Bool.and_eq_true,
        decide_eq_true_eq]
      rcases inv.head_cases some with ⟨within, head, -⟩ | ⟨across, head, -⟩ <;> omega

/-- **`isValidIdx`** is right for indices of the vector. -/
theorem Inv.validAt_iff (inv : run.Inv pos) {idx round : Nat} (small : round < word) :
    run.ValidAt idx round ↔ Inside run.queue idx round := by
  obtain ⟨visited, shown, -, spots⟩ := inv.contents_eq
  have short := inv.short
  have past := inv.past
  have below := Nat.mod_lt pos inv.positive
  have among : (∃ visited, run.queue.contents = some visited ∧ (⟨idx, round⟩ : Spot) ∈ visited.map Prod.fst) ↔
      ∃ p, pos + 1 - run.deque.length ≤ p ∧ p ≤ pos ∧ p % run.queue.capacity = idx ∧
        p / run.queue.capacity % word = round := by
    rw [shown]
    constructor
    · rintro ⟨_, ⟨⟩, member⟩
      rw [spots] at member
      obtain ⟨p, inRange, same⟩ := List.mem_map.mp member
      rw [List.mem_range'_1] at inRange
      rw [Spot.of, Spot.mk.injEq] at same
      exact ⟨p, inRange.1, by omega, same.1, same.2⟩
    · rintro ⟨p, ge, le, slot, lap⟩
      refine ⟨visited, rfl, ?_⟩
      rw [spots]
      exact List.mem_map.mpr ⟨p, List.mem_range'_1.mpr ⟨ge, by omega⟩, by rw [Spot.of, slot, lap]⟩
  rw [ValidAt, among, Inside, CircularQueue.isValidIdx]
  by_cases some : run.deque = []
  · rw [inv.empty.mpr some, some, List.length_nil]
    refine iff_of_true (iff_of_false Bool.false_ne_true ?_) (.inr (.inl rfl))
    rintro ⟨p, ge, le, -⟩
    omega
  · have notEmpty : run.queue.empty = false := by
      rw [← Bool.not_eq_true]
      exact fun empty => some (inv.empty.mp empty)
    have nonempty := List.length_pos_iff.mpr some
    have head := inv.head_eq some
    have tail := inv.tail
    simp only [notEmpty, Bool.not_false, Bool.true_and, Bool.or_eq_true, Bool.and_eq_true, decide_eq_true_eq,
      Bool.false_eq_true, false_or]
    rcases inv.head_cases some with ⟨within, slot, lap⟩ | ⟨across, slot, lap⟩
    · rw [exists_spot_within inv.positive lap, ← head, ← tail, ← inv.round]
      refine iff_of_true ?_ (.inr (.inl (by omega)))
      omega
    · rw [exists_spot_across inv.positive lap, ← head, ← tail, ← inv.round]
      have before : (pos + 1 - run.deque.length) / run.queue.capacity % word = round ↔
          (round + 1) % word = run.queue.round := by
        rw [inv.round, ← lap]
        generalize (pos + 1 - run.deque.length) / run.queue.capacity = laps
        unfold word at small ⊢
        omega
      have crossed : run.queue.tail < run.queue.head ∧ run.queue.head < run.queue.capacity := by omega
      rw [before]
      clear before slot among head tail below short past across nonempty
      omega

end Shown

/-! ### Calls -/

theorem less_eq_false {capacity first steps last : Nat} (positive : 0 < capacity) (le : first + steps ≤ last) (near : last ≤ first + capacity)
    (noWrap : ¬ (last / capacity % word = 0 ∧ first / capacity % word = word - 1 ∧
      first % capacity + steps < capacity)) :
    CircularQueue.less (.of capacity word last) (.of capacity word (first + steps)) = false := by
  rw [← Bool.not_eq_true, CircularQueue.less, Bool.or_eq_true, Bool.and_eq_true, decide_eq_true_eq, decide_eq_true_eq,
    decide_eq_true_eq]
  show ¬ (last / capacity % word < (first + steps) / capacity % word ∨ last / capacity % word =
    (first + steps) / capacity % word ∧ last % capacity < (first + steps) % capacity)
  rcases lap_cases positive le (by omega) with ⟨same, slots⟩ | next
  · rw [same]
    omega
  · -- the first position lies in the lap of the second, or the second could not be in the lap before the last
    have lap : (first + steps) / capacity = first / capacity := by
      rcases lap_cases positive (show first ≤ last by omega) near with ⟨same, -⟩ | next'
      · have low : first / capacity ≤ (first + steps) / capacity := Nat.div_le_div_right (by omega)
        omega
      · omega
    have inside : first % capacity + steps < capacity := by
      have below := Nat.mod_lt (first + steps) positive
      have split := Nat.div_add_mod first capacity
      have split' := Nat.div_add_mod (first + steps) capacity
      rw [lap] at split'
      omega
    rw [lap] at next
    rw [lap, next]
    rw [next] at noWrap
    generalize first / capacity = laps at noWrap ⊢
    unfold word at noWrap ⊢
    omega

section Calls

variable {run : QueueRun T} {pos : Nat}

theorem Inv.flush (inv : run.Inv pos) : (run.act .flush).Inv 0 := by
  have positive := inv.positive
  refine ⟨positive, inv.fits, inv.slots, Nat.zero_le _, Nat.le_refl _, ?_, ?_, ?_, by simp [act, CircularQueue.flush],
    fun j below => absurd below (Nat.not_lt_zero j), inv.works⟩
  · show 0 = 0 % run.queue.capacity
    rw [Nat.zero_mod]
  · show 0 = 0 / run.queue.capacity % word
    rw [Nat.zero_div, Nat.zero_mod]
  · by_cases single : run.queue.capacity ≤ 1
    · exact .inr ⟨rfl, single⟩
    · exact .inl (Nat.mod_eq_of_lt (Nat.not_le.mp single)).symm

theorem Inv.caughtUp_iff (inv : run.Inv pos) :
    ((pos + 1) % run.queue.capacity = run.queue.head ∧ !run.queue.empty) ↔ run.deque.length = run.queue.capacity := by
  have positive := inv.positive
  by_cases some : run.deque = []
  · rw [inv.empty.mpr some, some, List.length_nil]
    exact iff_of_false (fun both => Bool.false_ne_true both.2) (Nat.ne_of_lt positive)
  · have notEmpty : (!run.queue.empty) = true := by
      rw [Bool.not_eq_true', ← Bool.not_eq_true]
      exact fun empty => some (inv.empty.mp empty)
    have nonempty := List.length_pos_iff.mpr some
    have short := inv.short
    have past := inv.past
    have below := Nat.mod_lt (pos + 1) positive
    rw [inv.head_eq some, and_iff_left notEmpty]
    by_cases within : run.deque.length ≤ (pos + 1) % run.queue.capacity
    · obtain ⟨slot, -⟩ := sub_within positive within
      rw [slot]
      omega
    · obtain ⟨slot, -⟩ := sub_across (Nat.not_le.mp within) short (by omega)
      rw [slot]
      omega

theorem Inv.pushBack (inv : run.Inv pos) {val : T} (ready : run.queue.head < run.queue.capacity) :
    (run.act (.pushBack val)).Inv (pos + 1) := by
  have positive := inv.positive
  have below := Nat.mod_lt pos positive
  have head : run.queue.head = (pos + 1 - run.deque.length) % run.queue.capacity :=
    inv.head.resolve_right fun both => absurd ready (Nat.not_lt.mpr both.2)
  have tail : run.queue.increase run.queue.tail = (pos + 1) % run.queue.capacity := by
    rw [CircularQueue.increase, inv.tail, inv.moduloAdd_eq below, Nat.mod_add_mod]
  have round : (if run.queue.increase run.queue.tail = 0 then (run.queue.round + 1) % word else run.queue.round) =
      (pos + 1) / run.queue.capacity % word := by
    have lap := congrArg Spot.lap (@Spot.of_succ run.queue.capacity word positive pos)
    rw [tail, inv.round]
    rw [Nat.mod_add_mod] at lap
    exact lap.symm
  have short := inv.short
  have past := inv.past
  -- the new slot is none of those that stay
  have written : ∀ p, p ≤ pos → pos + 1 < p + run.queue.capacity →
      (run.queue.slots.set ((pos + 1) % run.queue.capacity) val)[p % run.queue.capacity]? =
        run.queue.slots[p % run.queue.capacity]? := by
    intro p before near
    exact List.getElem?_set_ne (slot_ne (Nat.lt_succ_of_le before) near)
  have new : (run.queue.slots.set ((pos + 1) % run.queue.capacity) val)[(pos + 1) % run.queue.capacity]? = some val := by
    rw [List.getElem?_set_self]
    rw [inv.slots]
    exact Nat.mod_lt _ positive
  -- what the deque and the head drop: one element if the queue is full
  obtain ⟨dropped, pushed, room, le, moved⟩ : ∃ dropped,
      push run.queue.capacity run.deque val = run.deque.drop dropped ++ [val] ∧
      run.deque.length < dropped + run.queue.capacity ∧ dropped ≤ run.deque.length ∧
      (if (pos + 1) % run.queue.capacity = run.queue.head ∧ !run.queue.empty then
        run.queue.increase run.queue.head else run.queue.head) =
        (pos + 1 - run.deque.length + dropped) % run.queue.capacity := by
    by_cases full : run.deque.length = run.queue.capacity
    · refine ⟨1, by rw [push, if_pos full], by omega, by omega, ?_⟩
      rw [if_pos (inv.caughtUp_iff.mpr full), CircularQueue.increase, inv.moduloAdd_eq ready, head, Nat.mod_add_mod]
    · refine ⟨0, by rw [push, if_neg full, List.drop_zero], by omega, Nat.zero_le _, ?_⟩
      rw [if_neg fun both => full (inv.caughtUp_iff.mp both), head]
      rfl
  have length : (run.deque.drop dropped ++ [val]).length = run.deque.length - dropped + 1 := by
    rw [List.length_append, List.length_drop, List.length_singleton]
  have start : pos + 1 + 1 - (run.deque.length - dropped + 1) = pos + 1 - run.deque.length + dropped := by omega
  have after : run.act (.pushBack val) = ⟨⟨run.queue.capacity,
      (pos + 1 - run.deque.length + dropped) % run.queue.capacity, (pos + 1) % run.queue.capacity, false,
      (pos + 1) / run.queue.capacity % word, run.queue.slots.set ((pos + 1) % run.queue.capacity) val⟩,
      run.deque.drop dropped ++ [val], run.failed⟩ := by
    simp only [act, CircularQueue.pushBack, CircularQueue.advanceTail, pushed]
    rw [round, tail, moved]
  rw [after]
  refine ⟨positive, inv.fits, ?_, ?_, ?_, rfl, rfl, .inl ?_, ?_, ?_, inv.works⟩
  · exact List.length_set.trans inv.slots
  · show (run.deque.drop dropped ++ [val]).length ≤ run.queue.capacity
    omega
  · show (run.deque.drop dropped ++ [val]).length ≤ pos + 1
    omega
  · show _ = (pos + 1 + 1 - (run.deque.drop dropped ++ [val]).length) % run.queue.capacity
    rw [length, start]
  · exact iff_of_false Bool.false_ne_true (by simp)
  · show ∀ j < (run.deque.drop dropped ++ [val]).length,
      (run.queue.slots.set ((pos + 1) % run.queue.capacity) val)[(pos + 1 + 1 -
        (run.deque.drop dropped ++ [val]).length + j) % run.queue.capacity]? = (run.deque.drop dropped ++ [val])[j]?
    rw [length, start]
    intro j inside
    by_cases last : j = run.deque.length - dropped
    · have place : pos + 1 - run.deque.length + dropped + j = pos + 1 := by omega
      rw [place, new, last, List.getElem?_append_right (Nat.le_of_eq List.length_drop), List.length_drop, Nat.sub_self]
      rfl
    · have old : j < (run.deque.drop dropped).length := by
        rw [List.length_drop]
        omega
      rw [written _ (by omega) (by omega), List.getElem?_append_left old, List.getElem?_drop, Nat.add_assoc]
      exact inv.held (dropped + j) (by omega)

theorem Inv.popFront (inv : run.Inv pos) {numElem : Nat} (obeys : run.Obeys (.popFront numElem)) :
    (run.act (.popFront numElem)).Inv pos := by
  obtain ⟨enough, small, noWrap⟩ := obeys
  by_cases zero : numElem = 0
  · subst zero
    exact inv
  · have positive := inv.positive
    have short := inv.short
    have past := inv.past
    have some : run.deque ≠ [] := by
      intro none
      rw [none, List.length_nil] at enough
      omega
    have head := inv.head_eq some
    have begins := inv.beginIt_eq some
    have ends := inv.endIt_eq
    have moved : run.queue.plus run.queue.beginIt numElem =
        .of run.queue.capacity word (pos + 1 - run.deque.length + numElem) := by
      rw [begins, inv.plus_eq]
      rwa [← head]
    -- the assertion holds: the rounds are in order unless the counter wraps to 0 in between
    have ordered : CircularQueue.less run.queue.endIt (run.queue.plus run.queue.beginIt numElem) = false := by
      have wraps : ¬ ((pos + 1) / run.queue.capacity % word = 0 ∧
          (pos + 1 - run.deque.length) / run.queue.capacity % word = word - 1 ∧
          (pos + 1 - run.deque.length) % run.queue.capacity + numElem < run.queue.capacity) := by
        intro all
        refine noWrap ⟨?_, ?_, ?_⟩
        · rw [ends]
          exact all.1
        · rw [begins]
          exact all.2.1
        · rw [head]
          exact all.2.2
      rw [moved, ends]
      exact less_eq_false positive (by omega) (by omega) wraps
    have rest : run.deque.length - numElem ≤ run.queue.capacity := by omega
    have start : pos + 1 - (run.deque.length - numElem) = pos + 1 - run.deque.length + numElem := by omega
    have popped : run.queue.popFront numElem = Option.some { run.queue with
        empty := run.queue.plus run.queue.beginIt numElem = run.queue.endIt
        head := (run.queue.plus run.queue.beginIt numElem).slot } := by
      simp [CircularQueue.popFront, zero, ordered]
    simp only [act, popped]
    refine ⟨positive, inv.fits, inv.slots, ?_, ?_, inv.tail, inv.round, .inl ?_, ?_, ?_, inv.works⟩
    · rw [List.length_drop]
      exact rest
    · rw [List.length_drop]
      omega
    · rw [List.length_drop, start, moved]
      rfl
    · rw [decide_eq_true_eq, List.drop_eq_nil_iff, moved, ends]
      constructor
      · intro same
        have equal := Spot.inj_of_lap positive (by decide) (by omega) (by omega) same
        omega
      · intro all
        rw [show pos + 1 - run.deque.length + numElem = pos + 1 by omega]
    · rw [List.length_drop, start]
      intro j inside
      rw [List.getElem?_drop, Nat.add_assoc]
      exact inv.held (numElem + j) (by omega)

theorem Inv.popBack (inv : run.Inv pos) (some : run.deque ≠ []) : (run.act .popBack).Inv (pos - 1) := by
  have positive := inv.positive
  have short := inv.short
  have past := inv.past
  have nonempty := List.length_pos_iff.mpr some
  have below := Nat.mod_lt pos positive
  have notEmpty : run.queue.empty = false := by
    rw [← Bool.not_eq_true]
    exact fun empty => some (inv.empty.mp empty)
  have step : run.queue.decrease run.queue.tail = (pos - 1) % run.queue.capacity ∧
      (if run.queue.tail = 0 then (run.queue.round + (word - 1)) % word else run.queue.round) =
        (pos - 1) / run.queue.capacity % word := by
    rw [CircularQueue.decrease, inv.tail, inv.round]
    by_cases first : pos % run.queue.capacity = 0
    · obtain ⟨slot, lap⟩ := @sub_across run.queue.capacity pos 1 (by omega) (by omega) (by omega)
      rw [if_neg (not_not_intro first), if_pos first, slot, first, ← lap]
      refine ⟨by omega, ?_⟩
      rw [Nat.mod_add_mod, Nat.add_assoc, Nat.add_sub_cancel' (by decide : 1 ≤ word), Nat.add_mod_right]
    · obtain ⟨slot, lap⟩ := sub_within positive (show 1 ≤ pos % run.queue.capacity by omega)
      rw [if_pos first, if_neg first, slot, lap]
      exact ⟨rfl, rfl⟩
  have start : pos - 1 + 1 - (run.deque.length - 1) = pos + 1 - run.deque.length := by omega
  have popped : run.queue.popBack = Option.some { run.queue with
      empty := run.queue.head = run.queue.tail
      round := if run.queue.tail = 0 then (run.queue.round + (word - 1)) % word else run.queue.round
      tail := run.queue.decrease run.queue.tail } := by
    rw [CircularQueue.popBack, notEmpty, if_neg Bool.false_ne_true]
  simp only [act, popped]
  refine ⟨positive, inv.fits, inv.slots, ?_, ?_, step.1, step.2, .inl ?_, ?_, ?_, inv.works⟩
  · show run.deque.dropLast.length ≤ run.queue.capacity
    rw [List.length_dropLast]
    omega
  · rw [List.length_dropLast]
    omega
  · rw [List.length_dropLast, start]
    exact inv.head_eq some
  · rw [decide_eq_true_eq, ← List.length_eq_zero_iff, List.length_dropLast]
    rcases inv.head_cases some with ⟨within, slot, -⟩ | ⟨across, slot, -⟩ <;> omega
  · rw [List.length_dropLast, start]
    intro j inside
    rw [List.getElem?_dropLast, if_pos inside]
    exact inv.held j (by omega)

/-- **One call.** -/
theorem Inv.act (inv : ∃ pos, run.Inv pos) {call : QueueCall T} (obeys : run.Obeys call) :
    ∃ pos, (run.act call).Inv pos := by
  obtain ⟨pos, inv⟩ := inv
  cases call with
  | flush => exact ⟨_, inv.flush⟩
  | pushBack val => exact ⟨_, inv.pushBack obeys⟩
  | popFront numElem => exact ⟨_, inv.popFront obeys⟩
  | popBack => exact ⟨_, inv.popBack obeys⟩

end Calls

instance (queue : CircularQueue T) (numElem : Nat) : Decidable (Wraps queue numElem) :=
  inferInstanceAs (Decidable (_ ∧ _ ∧ _))

instance Obeys.decidable [DecidableEq T] (run : QueueRun T) : ∀ call : QueueCall T, Decidable (run.Obeys call)
  | .flush => isTrue trivial
  | .pushBack _ => inferInstanceAs (Decidable (run.queue.head < run.queue.capacity))
  | .popFront numElem => inferInstanceAs (Decidable (numElem ≤ run.deque.length ∧
      run.queue.head + numElem < word ∧ ¬ Wraps run.queue numElem))
  | .popBack => inferInstanceAs (Decidable (run.deque ≠ []))

variable [Inhabited T]

theorem inv_create {capacity : Nat} (positive : 1 ≤ capacity) (fits : capacity < word) :
    (create capacity : QueueRun T).Inv 0 := by
  refine ⟨positive, fits, List.length_replicate, Nat.zero_le _, Nat.le_refl _, (Nat.zero_mod _).symm, ?_, ?_, ?_,
    fun j below => absurd below (Nat.not_lt_zero j), rfl⟩
  · show 0 = 0 / capacity % word
    rw [Nat.zero_div, Nat.zero_mod]
  · by_cases single : capacity ≤ 1
    · exact .inr ⟨rfl, single⟩
    · exact .inl (Nat.mod_eq_of_lt (Nat.not_le.mp single)).symm
  · exact iff_of_true rfl rfl

/-- **The queue refines the bounded deque**: in every run whose calls obey, what is seen of the queue is the deque, and
`isValidIdx` is right exactly for the indices inside. -/
theorem queue_refines {capacity : Nat} (positive : 1 ≤ capacity) (fits : capacity < word)
    (calls : List (QueueCall T)) (obeyed : AllowedRun act Obeys (create capacity) calls) :
    (after capacity calls).Agrees ∧ ∀ idx, ∀ round < word,
      ((after capacity calls).ValidAt idx round ↔ Inside (after capacity calls).queue idx round) := by
  obtain ⟨pos, inv⟩ := obeyed.invariant (fun run => ∃ pos, run.Inv pos) (fun _ _ obeys inv => Inv.act inv obeys)
    ⟨0, inv_create positive fits⟩
  exact ⟨inv.agrees, fun idx round small => inv.validAt_iff small⟩

/-- Two slots, passed three times. -/
theorem queue_of_two : (after 2 ([.pushBack 1, .pushBack 2, .pushBack 3, .popBack, .popFront 1, .pushBack 4, .flush,
    .pushBack 5] : List (QueueCall Nat))).Agrees :=
  (queue_refines (by decide) (by decide) _ (by decide)).1

/-- With a single slot the queue begins outside of the vector. -/
theorem single_slot_outside : ¬ (after 1 ([.pushBack 7] : List (QueueCall Nat))).Agrees := by
  rintro ⟨-, ⟨visited, shown, -⟩, -⟩
  have undefined : (after 1 ([.pushBack 7] : List (QueueCall Nat))).queue.contents = none := by decide
  rw [undefined] at shown
  cases shown

end QueueRun

end Emas.Gem5

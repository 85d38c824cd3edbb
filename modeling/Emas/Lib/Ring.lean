/-
**A ring of the last values.**

`size` slots are written in turn: `push` moves the index to the next slot and writes there, `oldest` is
the slot that the next `push` will overwrite. Read backwards from the index, the slots are the values
pushed last, newest first (`Recent`): `recent_push` keeps this, `Recent.oldest_eq` is what the oldest slot
holds then, wherever the index has wrapped to.

`Spaced gap distance times`: times that are `distance` places apart are `gap` apart. `spaced_append` is
the step, with what is asked of the time `distance` places before the new one; a ring of `distance` slots
has it in its oldest slot (`Recent.spaced_append`).
-/

import Mathlib.Data.List.GetD
import Mathlib.Data.List.Nodup
import Mathlib.Data.Nat.ModEq
import Mathlib.Tactic.Ring

namespace Emas

/-- `size` slots and the index of the one written last. -/
structure Ring (α : Type) (size : Nat) where
  slots : Fin size → α
  index : Fin size

namespace Ring

variable {α : Type} {size : Nat}

/-- All slots alike, and index 0. -/
def replicate (positive : 0 < size) (value : α) : Ring α size := ⟨fun _ => value, ⟨0, positive⟩⟩

def ahead (ring : Ring α size) (steps : Nat) : Fin size :=
  ⟨(ring.index + steps) % size, Nat.mod_lt _ (Nat.zero_lt_of_lt ring.index.isLt)⟩

/-- Write the next slot. -/
def push (ring : Ring α size) (value : α) : Ring α size :=
  ⟨Function.update ring.slots (ring.ahead 1) value, ring.ahead 1⟩

/-- The slot that is written next. -/
def oldest (ring : Ring α size) : α := ring.slots (ring.ahead 1)

/-- The slots are the last values of the history, newest first; before its start they are `start`. -/
def Recent (ring : Ring α size) (start : α) (history : List α) : Prop :=
  ∀ age < size, ring.slots (ring.ahead (size - age)) = history.getD age start

theorem recent_replicate (positive : 0 < size) (value : α) :
    (replicate positive value).Recent value [] := fun _ _ => rfl

theorem ahead_push (ring : Ring α size) (value : α) (steps : Nat) :
    (ring.push value).ahead steps = ring.ahead (1 + steps) := by
  ext
  simp only [ahead, push, Nat.mod_add_mod, Nat.add_assoc]

theorem ahead_add_size (ring : Ring α size) (steps : Nat) : ring.ahead (steps + size) = ring.ahead steps := by
  ext
  simp only [ahead, ← Nat.add_assoc, Nat.add_mod_right]

theorem ahead_ne (ring : Ring α size) {first second : Nat} (less : first < second)
    (turn : second < first + size) : ring.ahead second ≠ ring.ahead first := by
  intro same
  have equal : (ring.index + second) % size = (ring.index + first) % size := congrArg Fin.val same
  have divides : size ∣ ring.index + second - (ring.index + first) :=
    Nat.dvd_of_mod_eq_zero (Nat.sub_mod_eq_zero_of_mod_eq equal)
  have := Nat.le_of_dvd (by omega) divides
  omega

/-- **The ring keeps the last values.** -/
theorem recent_push {ring : Ring α size} {start : α} {history : List α} (recent : ring.Recent start history)
    (value : α) : (ring.push value).Recent start (value :: history) := by
  intro age small
  rw [ahead_push]
  cases age with
  | zero =>
    rw [Nat.sub_zero, ahead_add_size]
    exact Function.update_self ..
  | succ age =>
    have steps : 1 + (size - (age + 1)) = size - age := by omega
    rw [steps]
    refine (Function.update_of_ne (ring.ahead_ne (by omega) (by omega)) _ _).trans ?_
    exact recent age (by omega)

/-- **The oldest slot** is the value `size` pushes ago. -/
theorem Recent.oldest_eq {ring : Ring α size} {start : α} {history : List α}
    (recent : ring.Recent start history) : ring.oldest = history.getD (size - 1) start := by
  have positive : 0 < size := Nat.zero_lt_of_lt ring.index.isLt
  have slot := recent (size - 1) (by omega)
  rwa [Nat.sub_sub_self positive] at slot

end Ring

/-! ### Spaced times -/

/-- Times that are `distance` places apart are at least `gap` apart. -/
def Spaced (gap distance : Nat) (times : List Nat) : Prop :=
  ∀ i first last, times[i]? = some first → times[i + distance]? = some last → first + gap ≤ last

theorem spaced_nil (gap distance : Nat) : Spaced gap distance [] := nofun

theorem spaced_append {gap distance : Nat} {times : List Nat} {now : Nat} (positive : 0 < distance)
    (spaced : Spaced gap distance times)
    (room : ∀ first, times.reverse[distance - 1]? = some first → first + gap ≤ now) :
    Spaced gap distance (times ++ [now]) := by
  intro i first last atFirst atLast
  rw [List.getElem?_append] at atFirst atLast
  split at atLast
  · rename_i inside
    rw [if_pos (by omega)] at atFirst
    exact spaced i first last atFirst atLast
  · rename_i outside
    have place : i + distance - times.length = 0 := by
      by_contra further
      rw [List.getElem?_eq_none (show [now].length ≤ _ from Nat.pos_of_ne_zero further)] at atLast
      cases atLast
    rw [place] at atLast
    obtain rfl : now = last := Option.some.inj atLast
    rw [if_pos (by omega)] at atFirst
    refine room first ?_
    rw [List.getElem?_reverse (by omega), ← atFirst]
    congr 1
    omega

theorem Ring.Recent.spaced_append {gap size start : Nat} {ring : Ring Nat size} {times : List Nat}
    {now : Nat} (recent : ring.Recent start times.reverse) (spaced : Spaced gap size times)
    (room : ring.oldest + gap ≤ now) : Spaced gap size (times ++ [now]) := by
  refine Emas.spaced_append (Nat.zero_lt_of_lt ring.index.isLt) spaced fun first found => ?_
  rw [recent.oldest_eq, List.getD_eq_getElem?_getD, found] at room
  exact room

/-! ### Going round a ring of slots

A round-robin scan looks at `n` slots from `start` on and wraps round. It misses none, also where it goes on in strides
that divide the ring. `RoundRobin n turns` says that `n` slots take turns.
-/

/-- **A round-robin scan gets to every slot.** -/
theorem exists_add_mod_eq {n i : Nat} (start : Nat) (inside : i < n) : ∃ k < n, (start + k) % n = i := by
  have below : start % n < n := Nat.mod_lt _ (by omega)
  refine ⟨if start % n ≤ i then i - start % n else i + n - start % n, ?_, ?_⟩
  · split <;> omega
  · rw [Nat.add_mod]
    split
    · rename_i before
      rw [Nat.mod_eq_of_lt (show i - start % n < n by omega), Nat.add_sub_cancel' before]
      exact Nat.mod_eq_of_lt inside
    · rename_i behind
      rw [Nat.mod_eq_of_lt (show i + n - start % n < n by omega),
        show start % n + (i + n - start % n) = i + n by omega, Nat.add_mod_right]
      exact Nat.mod_eq_of_lt inside

theorem exists_add_mul_mod_eq {blocks stride i start : Nat} (aligned : stride ∣ start) (inside : i < blocks) :
    ∃ k < blocks, (start + k * stride) % (stride * blocks) = stride * i := by
  obtain ⟨block, rfl⟩ := aligned
  obtain ⟨k, small, reached⟩ := exists_add_mod_eq block inside
  refine ⟨k, small, ?_⟩
  calc (stride * block + k * stride) % (stride * blocks)
      = (stride * (block + k)) % (stride * blocks) := by ring_nf
    _ = stride * ((block + k) % blocks) := Nat.mul_mod_mul_left ..
    _ = stride * i := by rw [reached]

/-- The slots in their cyclic order, and each of them once in any `n` turns. -/
structure RoundRobin (n : Nat) (turns : List Nat) : Prop where
  cyclic : ∀ k (inside : k < turns.length), turns[k] = k % n
  once : ∀ before lap after, before ++ lap ++ after = turns → lap.length = n → ∀ i < n, lap.count i = 1

theorem count_lap {n i : Nat} (start : Nat) (inside : i < n) :
    ((List.range n).map fun k => (start + k) % n).count i = 1 := by
  refine List.count_eq_one_of_mem (List.Nodup.map_on (fun k small k' small' same => ?_) List.nodup_range) ?_
  · have same : Nat.ModEq n (start + k) (start + k') := same
    exact Nat.ModEq.eq_of_lt_of_lt (Nat.ModEq.add_left_cancel' start same) (List.mem_range.mp small)
      (List.mem_range.mp small')
  · obtain ⟨k, small, reached⟩ := exists_add_mod_eq start inside
    exact List.mem_map.mpr ⟨k, List.mem_range.mpr small, reached⟩

/-- **The cyclic order is enough.** -/
theorem RoundRobin.of_cyclic {n : Nat} {turns : List Nat}
    (cyclic : ∀ k (inside : k < turns.length), turns[k] = k % n) : RoundRobin n turns := by
  refine ⟨cyclic, fun before lap after split length i inside => ?_⟩
  have turn : lap = (List.range n).map fun k => (before.length + k) % n := by
    refine List.ext_getElem (by simp [length]) fun k small small' => ?_
    subst split
    have here := cyclic (before.length + k) (by simp only [List.length_append]; omega)
    rw [List.getElem_append_left (by simp only [List.length_append]; omega),
      List.getElem_append_right (Nat.le_add_right ..)] at here
    simpa using here
  rw [turn]
  exact count_lap before.length inside

end Emas

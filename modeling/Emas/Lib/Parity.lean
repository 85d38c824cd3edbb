/-
**Parity checks on bit vectors.**

A check says that one bit, at `pos`, is the parity of some other bits (`rest`) up to a `target`. Checks are separated
when their positions differ and none of them is read by another check: then the checked bits can be filled in one
after the other, and the vector that meets all checks is determined by its other bits.

* `settle_meets` — **filling in** the checked bits gives a vector that meets the checks.
* `eq_of_meets` — **uniqueness**: vectors that meet the checks and agree elsewhere are equal.
-/

import Mathlib.Data.List.Basic

namespace Emas.Bits

variable {w : Nat}

/-! ### Single bits -/

/-- The vector with one bit. -/
def bitAt (w pos : Nat) : BitVec w := 1#w <<< pos

@[simp] theorem getLsbD_bitAt (pos j : Nat) : (bitAt w pos).getLsbD j = (decide (j < w) && decide (j = pos)) := by
  simp only [bitAt, BitVec.getLsbD_shiftLeft, BitVec.getLsbD_one]
  rcases Nat.lt_trichotomy j pos with below | rfl | above
  · simp [below, Nat.ne_of_lt below]
  · by_cases inside : j < w <;> simp [inside]
    omega
  · have far : j - pos ≠ 0 := by omega
    simp [Nat.ne_of_gt above, far]

/-- The vector with the bit at `pos` replaced. -/
def setBit (a : BitVec w) (pos : Nat) (value : Bool) : BitVec w :=
  a &&& ~~~ bitAt w pos ||| if value then bitAt w pos else 0#w

variable {pos : Nat}

theorem getLsbD_setBit (a : BitVec w) (inside : pos < w) (value : Bool) (j : Nat) :
    (setBit a pos value).getLsbD j = if j = pos then value else a.getLsbD j := by
  by_cases same : j = pos
  · subst same
    cases value <;> simp [setBit, inside]
  · by_cases bound : j < w
    · cases value <;> simp [setBit, same, bound, -BitVec.getLsbD_eq_getElem]
    · have outside : w ≤ j := Nat.le_of_not_lt bound
      rw [if_neg same, BitVec.getLsbD_of_ge _ _ outside, BitVec.getLsbD_of_ge _ _ outside]

/-! ### Parity -/

/-- The number of bits that are set. -/
def popCount (a : BitVec w) : Nat := (List.range w).countP a.getLsbD

/-- Whether an odd number of bits is set. -/
def parity (a : BitVec w) : Bool := popCount a % 2 == 1

theorem countP_split {p q : Nat → Bool} {positions : List Nat} (nodup : positions.Nodup)
    (member : pos ∈ positions) (cleared : q pos = false) (same : ∀ j, j ≠ pos → p j = q j) :
    positions.countP p = (p pos).toNat + positions.countP q := by
  induction positions with
  | nil => simp at member
  | cons head rest ih =>
    obtain ⟨fresh, nodupRest⟩ := List.nodup_cons.mp nodup
    by_cases here : head = pos
    · subst here
      have others : rest.countP p = rest.countP q :=
        List.countP_congr fun j inside => by rw [same j (by rintro rfl; exact fresh inside)]
      rw [List.countP_cons, List.countP_cons, others, cleared]
      cases p head <;> simp [Nat.add_comm]
    · have later := ih nodupRest ((List.mem_cons.mp member).resolve_left (Ne.symm here))
      rw [List.countP_cons, List.countP_cons, later, same head here]
      omega

theorem popCount_split (a : BitVec w) (inside : pos < w) :
    popCount a = (a.getLsbD pos).toNat + popCount (a &&& ~~~ bitAt w pos) := by
  refine countP_split List.nodup_range (List.mem_range.mpr inside) (by simp) fun j other => ?_
  by_cases bound : j < w
  · simp [other, bound, -BitVec.getLsbD_eq_getElem]
  · simp [BitVec.getLsbD_of_ge _ _ (Nat.le_of_not_lt bound)]

theorem parity_split (a : BitVec w) (inside : pos < w) :
    parity a = (a.getLsbD pos ^^ parity (a &&& ~~~ bitAt w pos)) := by
  rw [parity, parity, popCount_split a inside]
  rcases Nat.mod_two_eq_zero_or_one (popCount (a &&& ~~~ bitAt w pos)) with even | odd
  · cases a.getLsbD pos <;> simp [Nat.add_mod, even]
  · cases a.getLsbD pos <;> simp [Nat.add_mod, odd]

@[simp] theorem popCount_zero : popCount (0#w) = 0 := by
  simp [popCount]

@[simp] theorem parity_zero : parity (0#w) = false := by
  simp [parity]

theorem and_congr_of_bits {a b m : BitVec w} (same : ∀ j, m.getLsbD j = true → a.getLsbD j = b.getLsbD j) :
    a &&& m = b &&& m := by
  apply BitVec.eq_of_getLsbD_eq
  intro j _
  rw [BitVec.getLsbD_and, BitVec.getLsbD_and]
  cases inside : m.getLsbD j with
  | false => simp
  | true => rw [same j inside]

/-! ### Checks -/

/-- The bit at `pos` makes the parity of itself and of `rest` the `target`. -/
structure Check (w : Nat) where
  pos : Nat
  rest : BitVec w
  target : Bool

/-- Positions inside the vector that differ and that no check reads. -/
structure Separated (checks : List (Check w)) : Prop where
  inside : ∀ check ∈ checks, check.pos < w
  distinct : (checks.map Check.pos).Nodup
  unread : ∀ check ∈ checks, ∀ other ∈ checks, other.rest.getLsbD check.pos = false

/-- The address has the parity of each check. -/
def Meets (checks : List (Check w)) (a : BitVec w) : Prop :=
  ∀ check ∈ checks, a.getLsbD check.pos = (check.target ^^ parity (a &&& check.rest))

/-- The checked bits filled in, one after the other. -/
def settle (checks : List (Check w)) (a : BitVec w) : BitVec w :=
  checks.foldl (fun a check => setBit a check.pos (check.target ^^ parity (a &&& check.rest))) a

/-- Two vectors agree outside the positions of the checks. -/
def AgreeOff (checks : List (Check w)) (a b : BitVec w) : Prop :=
  ∀ j, j ∉ checks.map Check.pos → a.getLsbD j = b.getLsbD j

variable {checks : List (Check w)} {a b : BitVec w}

theorem AgreeOff.symm (agree : AgreeOff checks a b) : AgreeOff checks b a := fun j off => (agree j off).symm

theorem AgreeOff.trans {c : BitVec w} (first : AgreeOff checks a b) (second : AgreeOff checks b c) :
    AgreeOff checks a c := fun j off => (first j off).trans (second j off)

theorem Separated.and_rest_eq (separated : Separated checks) (agree : AgreeOff checks a b) {check : Check w}
    (member : check ∈ checks) : a &&& check.rest = b &&& check.rest := by
  refine and_congr_of_bits fun j read => agree j fun position => ?_
  obtain ⟨other, inside, rfl⟩ := List.mem_map.mp position
  rw [separated.unread other inside check member] at read
  exact Bool.false_ne_true read

/-- **Uniqueness.** -/
theorem Separated.eq_of_meets (separated : Separated checks) (meetsA : Meets checks a) (meetsB : Meets checks b)
    (agree : AgreeOff checks a b) : a = b := by
  apply BitVec.eq_of_getLsbD_eq
  intro j _
  by_cases position : j ∈ checks.map Check.pos
  · obtain ⟨check, member, rfl⟩ := List.mem_map.mp position
    rw [meetsA check member, meetsB check member, separated.and_rest_eq agree member]
  · exact agree j position

theorem settle_agreeOff (inside : ∀ check ∈ checks, check.pos < w) : AgreeOff checks (settle checks a) a := by
  induction checks generalizing a with
  | nil => exact fun _ _ => rfl
  | cons check rest ih =>
    intro j off
    rw [List.map_cons, List.mem_cons, not_or] at off
    obtain ⟨other, offRest⟩ := off
    show (settle rest _).getLsbD j = _
    rw [ih (fun later member => inside later (.tail _ member)) j offRest,
      getLsbD_setBit _ (inside check (List.mem_cons_self ..)), if_neg other]

/-- **Filling in** meets the checks. -/
theorem Separated.settle_meets (separated : Separated checks) : Meets checks (settle checks a) := by
  induction checks generalizing a with
  | nil => exact fun _ member => absurd member (List.not_mem_nil)
  | cons check rest ih =>
    have first := @List.mem_cons_self _ check rest
    obtain ⟨fresh, distinctRest⟩ := List.nodup_cons.mp separated.distinct
    have separatedRest : Separated rest :=
      ⟨fun later member => separated.inside later (.tail _ member), distinctRest,
        fun later member other inside => separated.unread later (.tail _ member) other (.tail _ inside)⟩
    intro some member
    rcases List.mem_cons.mp member with rfl | later
    · -- the bit just set, which the later checks neither set nor read
      have kept : AgreeOff rest (settle (some :: rest) a)
          (setBit a some.pos (some.target ^^ parity (a &&& some.rest))) :=
        settle_agreeOff separatedRest.inside
      have sameRest : settle (some :: rest) a &&& some.rest = a &&& some.rest :=
        separated.and_rest_eq (settle_agreeOff separated.inside) first
      rw [sameRest, kept _ fresh, getLsbD_setBit _ (separated.inside some first), if_pos rfl]
    · exact ih separatedRest some later

theorem Separated.settle_congr (separated : Separated checks) (agree : AgreeOff checks a b) :
    settle checks a = settle checks b :=
  separated.eq_of_meets separated.settle_meets separated.settle_meets
    (((settle_agreeOff separated.inside).trans agree).trans (settle_agreeOff separated.inside).symm)

end Emas.Bits

/-
**Positions in laps.**

A ring of `size` slots is passed again and again. A position counts all steps; what a program keeps of it is the slot it
lies in and the number of the lap, and the latter only modulo some `wrap` (`Spot`). One step and many steps forwards
move a spot as they move a position (`Spot.of_succ`, `Spot.of_add`), a step back over less than a lap likewise
(`sub_within`, `sub_across`), and positions that are less than all laps apart lie in different spots (`Spot.inj`).
Positions that count steps back as well are integers (`Spot.ofInt`), and a spot is moved by any number of steps
(`Spot.ofInt_add`).
-/

import Mathlib.Data.Int.ModEq
import Mathlib.Tactic.Ring

namespace Emas

/-- A slot in a ring, and how often the ring was gone round. -/
structure Spot where
  slot : Nat
  lap : Nat
  deriving DecidableEq, Repr

namespace Spot

variable {size wrap : Nat}

/-- The spot of a position. -/
def of (size wrap pos : Nat) : Spot := ⟨pos % size, pos / size % wrap⟩

theorem of_add (positive : 0 < size) (pos steps : Nat) : of size wrap (pos + steps) =
    ⟨(pos % size + steps) % size, (pos / size % wrap + (steps + pos % size) / size) % wrap⟩ := by
  have whole : pos + steps = steps + pos % size + size * (pos / size) := by
    have split := Nat.div_add_mod pos size
    omega
  have lap : (pos + steps) / size = pos / size + (steps + pos % size) / size := by
    rw [whole, Nat.add_mul_div_left _ _ positive, Nat.add_comm]
  rw [of, lap, Nat.mod_add_mod, Nat.mod_add_mod]

theorem of_succ (positive : 0 < size) (pos : Nat) : of size wrap (pos + 1) = ⟨(pos % size + 1) % size,
      if (pos % size + 1) % size = 0 then (pos / size % wrap + 1) % wrap else pos / size % wrap⟩ := by
  have below := Nat.mod_lt pos positive
  rw [of_add positive, Nat.add_comm 1]
  by_cases last : pos % size + 1 = size
  · rw [last, Nat.mod_self, if_pos rfl, Nat.div_self positive]
  · have inside : pos % size + 1 < size := by omega
    rw [Nat.mod_eq_of_lt inside, if_neg (Nat.succ_ne_zero _), Nat.div_eq_of_lt inside]
    exact congrArg (Spot.mk _) (Nat.mod_mod ..)

theorem inj {pos pos' : Nat} (le : pos ≤ pos') (near : pos' < pos + size * wrap)
    (same : of size wrap pos = of size wrap pos') : pos = pos' := by
  rw [of, of, Spot.mk.injEq] at same
  have split := Nat.div_add_mod pos size
  have split' := Nat.div_add_mod pos' size
  have lapLe : pos / size ≤ pos' / size := Nat.div_le_div_right le
  have laps : pos' - pos = size * (pos' / size - pos / size) := by
    rw [Nat.mul_sub]
    omega
  have close : pos' / size - pos / size < wrap := by
    by_contra far
    have many := Nat.mul_le_mul_left size (Nat.not_lt.mp far)
    omega
  have divides : wrap ∣ pos' / size - pos / size := (Nat.modEq_iff_dvd' lapLe).mp same.2
  rw [Nat.eq_zero_of_dvd_of_lt divides close, Nat.mul_zero] at laps
  omega

theorem inj_of_lap (positive : 0 < size) (wraps : 1 < wrap) {pos pos' : Nat} (le : pos ≤ pos')
    (near : pos' ≤ pos + size) (same : of size wrap pos = of size wrap pos') : pos = pos' := by
  have further : size * 1 < size * wrap := Nat.mul_lt_mul_of_pos_left wraps positive
  exact inj le (by omega) same

/-! ### Steps forwards and back -/

/-- The spot of a position that may lie before the first one. -/
def ofInt (size wrap : Nat) (z : Int) : Spot := ⟨(z % size).toNat, (z / size % wrap).toNat⟩

theorem ofInt_natCast (pos : Nat) : ofInt size wrap pos = of size wrap pos := by
  rw [ofInt, ← Int.natCast_emod, ← Int.natCast_ediv, ← Int.natCast_emod, Int.toNat_natCast, Int.toNat_natCast, of]

theorem slot_ofInt (positive : 0 < size) (z : Int) : ((ofInt size wrap z).slot : Int) = z % size :=
  Int.toNat_of_nonneg (Int.emod_nonneg z (by omega))

theorem lap_ofInt (wraps : 0 < wrap) (z : Int) : ((ofInt size wrap z).lap : Int) = z / size % wrap :=
  Int.toNat_of_nonneg (Int.emod_nonneg _ (by omega))

theorem eq_ofInt_iff (positive : 0 < size) (wraps : 0 < wrap) {spot : Spot} {z : Int} :
    spot = ofInt size wrap z ↔ (spot.slot : Int) = z % size ∧ (spot.lap : Int) = z / size % wrap := by
  rw [← @slot_ofInt size wrap positive, ← lap_ofInt wraps, Int.ofNat_inj, Int.ofNat_inj]
  constructor
  · rintro rfl
    exact ⟨rfl, rfl⟩
  · intro both
    rw [Spot.mk.injEq]
    exact both

theorem eq_ofInt {spot : Spot} (slot : spot.slot < size) (lap : spot.lap < wrap) :
    spot = ofInt size wrap (spot.lap * size + spot.slot) := by
  refine (eq_ofInt_iff (by omega) (by omega)).mpr ⟨?_, ?_⟩
  · rw [Int.mul_add_emod_self_right, Int.emod_eq_of_lt (by omega) (by omega)]
  · rw [Int.add_comm, Int.add_mul_ediv_right _ _ (by omega), Int.ediv_eq_zero_of_lt (by omega) (by omega), Int.zero_add,
      Int.emod_eq_of_lt (by omega) (by omega)]

theorem ofInt_add (positive : 0 < size) (z t : Int) :
    (z + t) % size = (z % size + t) % size ∧ (z + t) / size = z / size + (z % size + t) / size := by
  refine ⟨(Int.emod_add_emod ..).symm, ?_⟩
  have whole : z + t = z % size + t + z / size * size := by
    have split := Int.emod_add_mul_ediv z size
    rw [Int.mul_comm] at split
    omega
  rw [whole, Int.add_mul_ediv_right _ _ (by omega), Int.add_comm]

end Spot

/-! ### Laps in a word -/

theorem ediv_of_word {size wrap word : Int} (positive : 0 < size) (divides : size * wrap ∣ word) (z : Int) :
    z % word / size % wrap = z / size % wrap := by
  obtain ⟨m, rfl⟩ := divides
  have whole : z = z % (size * wrap * m) + z / (size * wrap * m) * (wrap * m) * size := by
    have split := Int.emod_add_mul_ediv z (size * wrap * m)
    calc z = z % (size * wrap * m) + size * wrap * m * (z / (size * wrap * m)) := split.symm
      _ = _ := by ring
  have laps : z / size = z % (size * wrap * m) / size + z / (size * wrap * m) * (wrap * m) := by
    conv_lhs => rw [whole]
    rw [Int.add_mul_ediv_right _ _ (by omega)]
  rw [laps]
  have divides : wrap ∣ z / (size * wrap * m) * (wrap * m) := ⟨z / (size * wrap * m) * m, by ring⟩
  rw [Int.add_emod, Int.emod_eq_zero_of_dvd divides, Int.add_zero, Int.emod_emod_of_dvd _ (Int.dvd_refl wrap)]

/-- If a negative number of steps is read as a word of twice the width, the laps come out right only if whole laps fill the
word. -/
theorem dvd_of_ediv_word {size wrap : Int} (positive : 0 < size) (less : size < wrap) {z : Int}
    (same : (z + wrap * wrap) / size % wrap = z / size % wrap) : size ∣ wrap := by
  have split := Int.emod_add_mul_ediv z size
  have split' := Int.emod_add_mul_ediv (z + wrap * wrap) size
  have low := Int.emod_nonneg z positive.ne'
  have high := Int.emod_lt_of_pos z positive
  have low' := Int.emod_nonneg (z + wrap * wrap) positive.ne'
  have high' := Int.emod_lt_of_pos (z + wrap * wrap) positive
  obtain ⟨m, laps⟩ := (show (z + wrap * wrap) / size ≡ z / size [ZMOD wrap] from same).dvd
  generalize z % size = slot at *
  generalize (z + wrap * wrap) % size = slot' at *
  generalize (z + wrap * wrap) / size = lap' at *
  generalize z / size = lap at *
  -- the slots differ by a multiple of the word, so they do not
  have multiple : slot' - slot = wrap * (wrap + size * m) := by
    have both : slot' - slot = wrap * wrap + size * (lap - lap') := by
      rw [Int.mul_sub]
      omega
    rw [both, laps]
    ring
  have equal : slot' - slot = 0 := by
    refine Int.eq_zero_of_abs_lt_dvd ⟨_, multiple⟩ (abs_lt.mpr ⟨?_, ?_⟩)
    · omega
    · omega
  rw [equal] at multiple
  rcases Int.mul_eq_zero.mp multiple.symm with none | whole
  · omega
  · exact ⟨-m, by rw [Int.mul_neg]; omega⟩

variable {size pos steps : Nat}

theorem slot_ne {pos' : Nat} (less : pos < pos') (near : pos' < pos + size) : pos' % size ≠ pos % size := by
  intro same
  have divides : size ∣ pos' - pos := Nat.dvd_of_mod_eq_zero (Nat.sub_mod_eq_zero_of_mod_eq same)
  have lap := Nat.le_of_dvd (by omega) divides
  omega

theorem lap_cases {pos' : Nat} (positive : 0 < size) (le : pos ≤ pos') (near : pos' ≤ pos + size) :
    (pos' / size = pos / size ∧ pos % size ≤ pos' % size) ∨ pos' / size = pos / size + 1 := by
  have split := Nat.div_add_mod pos size
  have split' := Nat.div_add_mod pos' size
  have low : pos / size ≤ pos' / size := Nat.div_le_div_right le
  have high : pos' / size ≤ pos / size + 1 := by
    rw [← Nat.add_div_right _ positive]
    exact Nat.div_le_div_right near
  rcases Nat.lt_or_eq_of_le high with same | next
  · have equal : pos' / size = pos / size := by omega
    rw [equal] at split'
    exact .inl ⟨equal, by omega⟩
  · exact .inr next

theorem sub_within (positive : 0 < size) (within : steps ≤ pos % size) :
    (pos - steps) % size = pos % size - steps ∧ (pos - steps) / size = pos / size := by
  have below := Nat.mod_lt pos positive
  have whole : pos - steps = pos % size - steps + size * (pos / size) := by
    have split := Nat.div_add_mod pos size
    omega
  rw [whole, Nat.add_mul_mod_self_left, Nat.add_mul_div_left _ _ positive, Nat.mod_eq_of_lt (by omega),
    Nat.div_eq_of_lt (by omega), Nat.zero_add]
  exact ⟨rfl, rfl⟩

theorem sub_across (across : pos % size < steps) (less : steps ≤ size) (le : steps ≤ pos) :
    (pos - steps) % size = pos % size + size - steps ∧ (pos - steps) / size + 1 = pos / size := by
  have positive : 0 < size := by omega
  have split := Nat.div_add_mod pos size
  have lap : 0 < pos / size := by
    by_contra none
    rw [Nat.eq_zero_of_not_pos none, Nat.mul_zero] at split
    omega
  obtain ⟨before, is⟩ := Nat.exists_eq_succ_of_ne_zero (Nat.ne_of_gt lap)
  have whole : pos - steps = pos % size + size - steps + size * before := by
    rw [is, Nat.mul_succ] at split
    omega
  rw [whole, Nat.add_mul_mod_self_left, Nat.add_mul_div_left _ _ positive, Nat.mod_eq_of_lt (by omega),
    Nat.div_eq_of_lt (by omega), Nat.zero_add, is]
  exact ⟨rfl, rfl⟩

theorem exists_spot_within {first last wrap slot lap : Nat} (positive : 0 < size) (same : first / size = last / size) :
    (∃ pos, first ≤ pos ∧ pos ≤ last ∧ pos % size = slot ∧ pos / size % wrap = lap) ↔
      first % size ≤ slot ∧ slot ≤ last % size ∧ last / size % wrap = lap := by
  have splitFirst := Nat.div_add_mod first size
  have splitLast := Nat.div_add_mod last size
  rw [same] at splitFirst
  constructor
  · rintro ⟨pos, from', to', rfl, rfl⟩
    have above : last / size ≤ pos / size := same ▸ Nat.div_le_div_right from'
    have between : pos / size = last / size := Nat.le_antisymm (Nat.div_le_div_right to') above
    have split := Nat.div_add_mod pos size
    rw [between] at split
    exact ⟨by omega, by omega, by rw [between]⟩
  · rintro ⟨low, high, rfl⟩
    have below := Nat.mod_lt last positive
    refine ⟨slot + size * (last / size), by omega, by omega, ?_, ?_⟩
    · rw [Nat.add_mul_mod_self_left, Nat.mod_eq_of_lt (by omega)]
    · rw [Nat.add_mul_div_left _ _ positive, Nat.div_eq_of_lt (by omega), Nat.zero_add]

theorem exists_spot_across {first last wrap slot lap : Nat} (positive : 0 < size)
    (next : first / size + 1 = last / size) :
    (∃ pos, first ≤ pos ∧ pos ≤ last ∧ pos % size = slot ∧ pos / size % wrap = lap) ↔
      (slot ≤ last % size ∧ last / size % wrap = lap) ∨
        (first % size ≤ slot ∧ slot < size ∧ first / size % wrap = lap) := by
  have splitFirst := Nat.div_add_mod first size
  have splitLast := Nat.div_add_mod last size
  have lapAfter : size * (last / size) = size * (first / size) + size := by rw [← next, Nat.mul_succ]
  have belowFirst := Nat.mod_lt first positive
  have belowLast := Nat.mod_lt last positive
  constructor
  · rintro ⟨pos, from', to', rfl, rfl⟩
    have low : first / size ≤ pos / size := Nat.div_le_div_right from'
    have high : pos / size ≤ last / size := Nat.div_le_div_right to'
    have split := Nat.div_add_mod pos size
    have below := Nat.mod_lt pos positive
    by_cases before : pos / size = first / size
    · rw [before] at split
      exact .inr ⟨by omega, below, by rw [before]⟩
    · have after : pos / size = last / size := by omega
      rw [after] at split
      exact .inl ⟨by omega, by rw [after]⟩
  · rintro (⟨high, rfl⟩ | ⟨low, inside, rfl⟩)
    · refine ⟨slot + size * (last / size), by omega, by omega, ?_, ?_⟩
      · rw [Nat.add_mul_mod_self_left, Nat.mod_eq_of_lt (by omega)]
      · rw [Nat.add_mul_div_left _ _ positive, Nat.div_eq_of_lt (by omega), Nat.zero_add]
    · refine ⟨slot + size * (first / size), by omega, by omega, ?_, ?_⟩
      · rw [Nat.add_mul_mod_self_left, Nat.mod_eq_of_lt (by omega)]
      · rw [Nat.add_mul_div_left _ _ positive, Nat.div_eq_of_lt (by omega), Nat.zero_add]

end Emas

/-
**Iterators of the circular queue as positions.**

An iterator of a `CircularQueue` stands for a position, its round times the capacity plus its index. The operators of
`base/circular_queue.hh` move it in unsigned and signed words of 32 and 64 bits.

* `advance_spotOf`, `retreat_spotOf` — they lead where as many single steps lead if the capacity divides 2^32, and otherwise
  if no lap is left backwards.
* `difference_spotOf` — a difference is that of the positions in a signed word.

**`randomAccess_iff`** — the iterators are positions if and only if nothing of that goes wrong (`Fits`).
-/

import Emas.Gem5.CircularQueue

namespace Emas.Gem5

namespace CircularQueue

variable {T : Type}

/-- `sub( op1, op2, size )`, an `int32_t`. -/
def sub (op1 op2 size : Nat) : Int :=
  if op1 > op2 then Int.bmod ((op1 - op2) % size : Nat) word else Int.bmod (-((op2 - op1) % size : Nat)) word

def moduloSub (op1 op2 size : Nat) : Nat :=
  let ret := sub op1 op2 size
  if ret ≥ 0 then ret.toNat else ((ret + size) % word).toNat

variable (queue : CircularQueue T)

/-- `--it`, where its assertion holds. -/
def prev (it : Spot) : Spot :=
  ⟨queue.decrease it.slot, if it.slot = 0 then (it.lap + (word - 1)) % word else it.lap⟩

/-- `it += t`: the quotient is one of unsigned words of 64 bits. -/
def advance (it : Spot) (t : Int) : Spot :=
  ⟨moduloAdd it.slot (t % word).toNat queue.capacity,
    (it.lap + ((t + it.slot) % (word * word : Nat)).toNat / queue.capacity) % word⟩

/-- `it -= t`. -/
def retreat (it : Spot) (t : Int) : Spot :=
  if t ≥ 0 then
    ⟨moduloSub it.slot (t % word).toNat queue.capacity,
      (it.lap + ((-t + it.slot) % (word * word : Nat)).toNat / queue.capacity) % word⟩
  else queue.advance it (-t)

/-- `it - that`, an `int32_t`. -/
def difference (it that : Spot) : Int :=
  let ret := sub it.slot that.slot queue.capacity
  if it.lap ≠ that.lap then
    Int.bmod (ret + ((it.lap : Int) - that.lap) % word * queue.capacity) word
  else ret

/-- `it <= that`. -/
def lessEq (it that : Spot) : Bool := !less that it

/-- `it > that`. -/
def greater (it that : Spot) : Bool := !lessEq it that

/-- `it >= that`. -/
def greaterEq (it that : Spot) : Bool := !less it that

/-- The position of an iterator. -/
def position (it : Spot) : Int := it.lap * queue.capacity + it.slot

/-- An index into the vector, and a round of 32 bits. -/
structure IsIterator (it : Spot) : Prop where
  slot : it.slot < queue.capacity
  lap : it.lap < word

/-- The arithmetic of two iterators is that of their positions. -/
structure RandomAccess (a b : Spot) (n : Nat) : Prop where
  plus : queue.advance a n = queue.next^[n] a
  minus : n ≤ queue.position a → queue.retreat a n = queue.prev^[n] a
  plus_minus : queue.retreat (queue.advance a n) n = a
  plus_difference : queue.difference (queue.advance a n) a = n
  difference_plus : queue.advance b (queue.difference a b) = a
  less : less a b = true ↔ queue.position a < queue.position b
  lessEq : lessEq a b = true ↔ queue.position a ≤ queue.position b
  greater : greater a b = true ↔ queue.position a > queue.position b
  greaterEq : greaterEq a b = true ↔ queue.position a ≥ queue.position b
  difference : queue.difference a b = queue.position a - queue.position b

/-- No number leaves the range in which the operators are those of positions. -/
def Fits (a b : Spot) (n : Nat) : Prop :=
  n < 2 ^ 31 ∧ (-2 ^ 31 ≤ queue.position a - queue.position b ∧ queue.position a - queue.position b < 2 ^ 31) ∧
    (queue.capacity ∣ word ∨ a.slot < 2 ^ 31 ∧ a.slot + n < queue.capacity ∧ (n ≤ a.slot ∨ queue.position a < n) ∧
        0 ≤ b.slot + (queue.position a - queue.position b) ∧ b.slot + (queue.position a - queue.position b) < word)

/-! ### Subtraction in signed words -/

theorem bmod_of_small {x : Int} (low : -2 ^ 31 ≤ x) (high : x < 2 ^ 31) : Int.bmod x word = x :=
  Int.bmod_eq_of_le_mul_two (by rw [word]; omega) (by rw [word]; omega)

theorem moduloSub_eq {size : Nat} (positive : 0 < size) (small : size ≤ 2 ^ 31) (op1 op2 : Nat) :
    (moduloSub op1 op2 size : Int) = ((op1 : Int) - op2) % size := by
  unfold moduloSub sub
  by_cases greater : op1 > op2
  · have below := Nat.mod_lt (op1 - op2) positive
    rw [if_pos greater, bmod_of_small (by omega) (by omega)]
    dsimp only
    rw [if_pos (Int.natCast_nonneg _), Int.toNat_natCast, Int.natCast_emod, Int.natCast_sub greater.le]
  · have below := Nat.mod_lt (op2 - op1) positive
    have back : ((op1 : Int) - op2) = -((op2 - op1 : Nat) : Int) := by omega
    rw [if_neg greater, bmod_of_small (by omega) (by omega), back]
    have split := Nat.mod_add_div (op2 - op1) size
    dsimp only
    by_cases whole : (op2 - op1) % size = 0
    · rw [whole, if_pos (by decide)]
      exact (Int.emod_eq_zero_of_dvd (Int.dvd_neg.mpr (Int.natCast_dvd_natCast.mpr (Nat.dvd_of_mod_eq_zero whole)))).symm
    · have result : (-((op2 - op1 : Nat) : Int)) % size = size - ((op2 - op1) % size : Nat) := by
        have expand : -((op2 - op1 : Nat) : Int) =
            size - ((op2 - op1) % size : Nat) + size * (-((op2 - op1) / size : Nat) - 1) := by
          rw [Int.mul_sub, Int.mul_neg]
          omega
        rw [expand, Int.add_mul_emod_self_left, Int.emod_eq_of_lt (by omega) (by omega)]
      rw [if_neg (by omega), result, Int.emod_eq_of_lt (by omega) (by rw [word]; omega), Int.toNat_of_nonneg (by omega)]
      omega

variable {op1 op2 size : Nat}

theorem moduloSub_of_le (below : op1 < size) (le : op2 ≤ op1) (small : op1 - op2 < 2 ^ 31) :
    moduloSub op1 op2 size = op1 - op2 := by
  unfold moduloSub sub
  by_cases greater : op1 > op2
  · rw [if_pos greater, Nat.mod_eq_of_lt (by omega), bmod_of_small (by omega) (by omega)]
    dsimp only
    rw [if_pos (Int.natCast_nonneg _), Int.toNat_natCast]
  · obtain rfl : op1 = op2 := by omega
    rw [if_neg greater, Nat.sub_self, Nat.zero_mod]
    rfl

theorem moduloSub_ne (below : op1 < size) (fits : size < word) (large : 2 ^ 31 ≤ op1 - op2) :
    moduloSub op1 op2 size ≠ op1 - op2 := by
  have overflow : Int.bmod (op1 - op2 : Nat) word = (op1 - op2 : Nat) - word := by
    have inside : ((op1 - op2 : Nat) : Int) % word = (op1 - op2 : Nat) := Int.emod_eq_of_lt (by omega) (by omega)
    rw [Int.bmod_neg _ _ (by rw [inside, word]; omega), inside]
  have ret : sub op1 op2 size = (op1 - op2 : Nat) - word := by
    rw [sub, if_pos (by omega), Nat.mod_eq_of_lt (by omega), overflow]
  unfold moduloSub
  rw [ret]
  dsimp only
  rw [if_neg (by omega)]
  by_cases beyond : word ≤ op1 - op2 + size
  · rw [Int.emod_eq_of_lt (by omega) (by omega)]
    omega
  · rw [← Int.add_emod_right, Int.emod_eq_of_lt (by omega) (by omega)]
    omega

/-! ### Moves -/

section Moves

variable {queue : CircularQueue T} (positive : 0 < queue.capacity)

def spotOf (queue : CircularQueue T) (z : Int) : Spot := .ofInt queue.capacity word z

theorem word_pos : 0 < word := by decide

theorem IsIterator.eq_spotOf {it : Spot} (iterator : queue.IsIterator it) : it = queue.spotOf (queue.position it) :=
  Spot.eq_ofInt iterator.slot iterator.lap

include positive

theorem slot_spotOf (z : Int) : ((queue.spotOf z).slot : Int) = z % queue.capacity := Spot.slot_ofInt positive z

omit positive in
theorem lap_spotOf (z : Int) : ((queue.spotOf z).lap : Int) = z / queue.capacity % word := Spot.lap_ofInt word_pos z

variable {z t : Int}

theorem eq_spotOf_add {it : Spot} (slot : (it.slot : Int) = (z % queue.capacity + t) % queue.capacity)
    (lap : (it.lap : Int) = (z / queue.capacity + (z % queue.capacity + t) / queue.capacity) % word) :
    it = queue.spotOf (z + t) := by
  obtain ⟨slots, laps⟩ := Spot.ofInt_add positive z t
  exact (Spot.eq_ofInt_iff positive word_pos).mpr ⟨slot.trans slots.symm, by rw [lap, laps]⟩

theorem IsIterator.exists_position {it : Spot} (iterator : queue.IsIterator it) :
    ∃ z, queue.position it = z ∧ it = queue.spotOf z ∧ (it.slot : Int) = z % queue.capacity := by
  refine ⟨queue.position it, rfl, iterator.eq_spotOf, ?_⟩
  rw [← slot_spotOf positive, ← iterator.eq_spotOf]

theorem next_spotOf (fits : queue.capacity < word) (z : Int) : queue.next (queue.spotOf z) = queue.spotOf (z + 1) := by
  have slot := slot_spotOf positive z
  have lap := @lap_spotOf T queue z
  have low := Int.emod_nonneg z (show (queue.capacity : Int) ≠ 0 by omega)
  have high := Int.emod_lt_of_pos z (show (0 : Int) < queue.capacity by omega)
  have inner : ((queue.spotOf z).slot + 1) % word = (queue.spotOf z).slot + 1 := Nat.mod_eq_of_lt (by omega)
  unfold next increase moduloAdd
  rw [inner]
  refine eq_spotOf_add positive ?_ ?_
  · rw [Int.natCast_emod, Int.natCast_add, slot]
    rfl
  · by_cases last : (queue.spotOf z).slot + 1 = queue.capacity
    · have full : z % queue.capacity + 1 = queue.capacity := by omega
      dsimp only
      rw [last, Nat.mod_self, if_pos rfl, full, Int.ediv_self (by omega), Int.natCast_emod, Int.natCast_add, lap,
        Int.natCast_one, Int.emod_add_emod]
    · have within : (queue.spotOf z).slot + 1 < queue.capacity := by omega
      have same : (z % queue.capacity + 1) / queue.capacity = 0 := Int.ediv_eq_zero_of_lt (by omega) (by omega)
      dsimp only
      rw [Nat.mod_eq_of_lt within, if_neg (Nat.succ_ne_zero _), same, Int.add_zero, lap]

theorem prev_spotOf (z : Int) : queue.prev (queue.spotOf z) = queue.spotOf (z - 1) := by
  have slot := slot_spotOf positive z
  have lap := @lap_spotOf T queue z
  have low := Int.emod_nonneg z (show (queue.capacity : Int) ≠ 0 by omega)
  have high := Int.emod_lt_of_pos z (show (0 : Int) < queue.capacity by omega)
  unfold prev decrease
  by_cases first : (queue.spotOf z).slot = 0
  · have zero : z % queue.capacity = 0 := by omega
    rw [if_neg (not_not.mpr first), if_pos first]
    refine eq_spotOf_add positive ?_ ?_
    · rw [zero, Int.zero_add, ← Int.add_emod_right, Int.emod_eq_of_lt (by omega) (by omega)]
      dsimp only
      omega
    · have before : (-1 : Int) / queue.capacity = -1 := Int.ediv_eq_neg_one_of_neg_of_le (by decide) (by omega)
      dsimp only
      rw [zero, Int.zero_add, before, Int.natCast_emod, Int.natCast_add, lap, Int.emod_add_emod,
        ← Int.add_emod_right (a := z / queue.capacity + -1)]
      exact congrArg (· % (word : Int)) (by rw [word]; omega)
  · rw [if_pos first, if_neg first]
    refine eq_spotOf_add positive ?_ ?_
    · rw [Int.emod_eq_of_lt (by omega) (by omega)]
      dsimp only
      omega
    · have same : (z % queue.capacity + -1) / queue.capacity = 0 := Int.ediv_eq_zero_of_lt (by omega) (by omega)
      rw [same, Int.add_zero]
      exact lap

theorem next_iterate (fits : queue.capacity < word) (z : Int) (n : Nat) :
    queue.next^[n] (queue.spotOf z) = queue.spotOf (z + n) := by
  induction n with
  | zero => rw [Function.iterate_zero_apply, Int.natCast_zero, Int.add_zero]
  | succ n ih => rw [Function.iterate_succ_apply', ih, next_spotOf positive fits, Int.natCast_succ, Int.add_assoc]

theorem prev_iterate (z : Int) (n : Nat) : queue.prev^[n] (queue.spotOf z) = queue.spotOf (z - n) := by
  induction n with
  | zero => rw [Function.iterate_zero_apply, Int.natCast_zero, Int.sub_zero]
  | succ n ih =>
    rw [Function.iterate_succ_apply', ih, prev_spotOf positive, Int.natCast_succ]
    exact congrArg _ (by omega)

omit positive in
theorem slot_advance (it : Spot) (t : Int) :
    ((queue.advance it t).slot : Int) = (it.slot + t) % word % queue.capacity := by
  show (((it.slot + (t % word).toNat) % word % queue.capacity : Nat) : Int) = _
  rw [Int.natCast_emod, Int.natCast_emod, Int.natCast_add, Int.toNat_of_nonneg (Int.emod_nonneg _ (by decide)),
    Int.add_emod_emod]

omit positive in
theorem lap_advance (it : Spot) (t : Int) :
    ((queue.advance it t).lap : Int) = (it.lap + (it.slot + t) % (word * word : Nat) / queue.capacity) % word := by
  show (((it.lap + ((t + it.slot) % (word * word : Nat)).toNat / queue.capacity) % word : Nat) : Int) = _
  rw [Int.natCast_emod, Int.natCast_add, Int.natCast_ediv, Int.toNat_of_nonneg (Int.emod_nonneg _ (by decide)),
    Int.add_comm t]

theorem ediv_word {x : Int} (fits : queue.capacity ∣ word ∨ (0 ≤ x ∧ x < word)) :
    x % (word * word : Nat) / queue.capacity % word = x / queue.capacity % word := by
  rcases fits with divides | ⟨low, high⟩
  · refine ediv_of_word (by omega) ?_ x
    rw [Int.natCast_mul]
    exact Int.mul_dvd_mul (Int.natCast_dvd_natCast.mpr divides) (Int.dvd_refl _)
  · rw [Int.emod_eq_of_lt low (by rw [word] at high ⊢; omega)]

/-- **Steps forwards and back by `+=`.** -/
theorem advance_spotOf (fits : queue.capacity ∣ word ∨ (0 ≤ z % queue.capacity + t ∧ z % queue.capacity + t < word)) :
    queue.advance (queue.spotOf z) t = queue.spotOf (z + t) := by
  refine eq_spotOf_add positive ?_ ?_
  · rw [slot_advance, slot_spotOf positive]
    rcases fits with divides | ⟨low, high⟩
    · exact Int.emod_emod_of_dvd _ (Int.natCast_dvd_natCast.mpr divides)
    · rw [Int.emod_eq_of_lt low high]
  · rw [lap_advance, lap_spotOf, slot_spotOf positive, Int.emod_add_emod, Int.add_emod, ediv_word positive fits,
      ← Int.add_emod]

omit positive in
theorem half_of_dvd (fits : queue.capacity < word) (divides : queue.capacity ∣ word) : queue.capacity ≤ 2 ^ 31 := by
  obtain ⟨m, whole⟩ := divides
  have two : 2 ≤ m := by
    by_contra less
    obtain rfl | rfl : m = 0 ∨ m = 1 := by omega
    · rw [Nat.mul_zero] at whole
      exact absurd whole (by decide)
    · omega
  have times := Nat.mul_le_mul_left queue.capacity two
  rw [← whole, word] at times
  omega

/-- **Steps back by `-=`.** -/
theorem retreat_spotOf {z : Int} {n : Nat} (fits : queue.capacity < word)
    (back : queue.capacity ∣ word ∨ (n ≤ z % queue.capacity ∧ z % queue.capacity - n < 2 ^ 31)) :
    queue.retreat (queue.spotOf z) n = queue.spotOf (z - n) := by
  have slot := slot_spotOf positive z
  have high := Int.emod_lt_of_pos z (show (0 : Int) < queue.capacity by omega)
  rw [retreat, if_pos (Int.natCast_nonneg n)]
  refine eq_spotOf_add positive ?_ ?_
  · dsimp only
    rcases back with divides | ⟨le, small⟩
    · rw [moduloSub_eq positive (half_of_dvd fits divides), slot, Int.toNat_of_nonneg (Int.emod_nonneg _ (by decide)),
        Int.sub_emod, Int.emod_emod_of_dvd _ (Int.natCast_dvd_natCast.mpr divides), ← Int.sub_emod]
      rfl
    · rw [Int.emod_eq_of_lt (Int.natCast_nonneg n) (by omega), Int.toNat_natCast, moduloSub_of_le (by omega) (by omega)
        (by omega), Int.emod_eq_of_lt (by omega) (by omega)]
      omega
  · dsimp only
    rw [Int.natCast_emod, Int.natCast_add, Int.natCast_ediv, Int.toNat_of_nonneg (Int.emod_nonneg _ (by decide)),
      lap_spotOf, slot, Int.emod_add_emod, Int.add_emod, Int.add_comm (-(n : Int)), ediv_word positive ?_, ← Int.add_emod]
    rcases back with divides | ⟨le, small⟩
    · exact .inl divides
    · exact .inr ⟨by omega, by rw [word]; omega⟩

/-! ### Where the words wrap around -/

omit positive in
theorem isIterator_advance (it : Spot) (t : Int) (positive : 0 < queue.capacity) :
    queue.IsIterator (queue.advance it t) :=
  ⟨Nat.mod_lt _ positive, Nat.mod_lt _ word_pos⟩

omit positive in
theorem dvd_of_slot {x : Int} (low : word ≤ x) (high : x < 2 * word) (same : x % word % queue.capacity = x % queue.capacity) :
    queue.capacity ∣ word := by
  have reduced : x % word = x - word := by
    rw [← Int.sub_emod_right, Int.emod_eq_of_lt (by omega) (by omega)]
  rw [reduced] at same
  have divides := (show x - word ≡ x [ZMOD queue.capacity] from same).dvd
  rw [Int.sub_sub_self] at divides
  exact Int.natCast_dvd_natCast.mp divides

theorem dvd_of_lap (fits : queue.capacity < word) {lap x : Int} (low : -(2 * word : Int) ≤ x) (negative : x < 0)
    (same : (lap % word + x % (word * word : Nat) / queue.capacity) % word = (lap + x / queue.capacity) % word) :
    queue.capacity ∣ word := by
  have reduced : x % (word * word : Nat) = x + (word : Int) * word := by
    rw [← Int.add_emod_right, Int.emod_eq_of_lt (by rw [word] at low ⊢; omega) (by rw [word] at low ⊢; omega), Int.natCast_mul]
  rw [reduced, Int.emod_add_emod] at same
  have laps : (x + (word : Int) * word) / queue.capacity ≡ x / queue.capacity [ZMOD word] :=
    Int.ModEq.add_left_cancel' lap same
  exact Int.natCast_dvd_natCast.mp (dvd_of_ediv_word (by omega) (by omega) laps)

theorem dvd_of_advance (fits : queue.capacity < word) (small : -2 ^ 31 ≤ t) (back : z % queue.capacity + t < 0)
    (right : queue.advance (queue.spotOf z) t = queue.spotOf (z + t)) : queue.capacity ∣ word := by
  have low := Int.emod_nonneg z (show (queue.capacity : Int) ≠ 0 by omega)
  obtain ⟨-, lap⟩ := (Spot.eq_ofInt_iff positive word_pos).mp right
  rw [lap_advance, lap_spotOf, slot_spotOf positive, (Spot.ofInt_add positive z t).2] at lap
  exact dvd_of_lap positive fits (by rw [word]; omega) back lap

theorem dvd_of_advance_far (far : word ≤ z % queue.capacity + t) (near : z % queue.capacity + t < 2 * word)
    (right : queue.advance (queue.spotOf z) t = queue.spotOf (z + t)) : queue.capacity ∣ word := by
  have slot := ((Spot.eq_ofInt_iff positive word_pos).mp right).1
  rw [slot_advance, slot_spotOf positive, (Spot.ofInt_add positive z t).1] at slot
  exact dvd_of_slot far near slot

theorem dvd_of_retreat (fits : queue.capacity < word) {z : Int} {n : Nat} (small : n < 2 ^ 31) (back : z % queue.capacity < n)
    (right : queue.retreat (queue.spotOf z) n = queue.spotOf (z - n)) : queue.capacity ∣ word := by
  have low := Int.emod_nonneg z (show (queue.capacity : Int) ≠ 0 by omega)
  rw [retreat, if_pos (Int.natCast_nonneg n)] at right
  obtain ⟨-, lap⟩ := (Spot.eq_ofInt_iff positive word_pos).mp right
  dsimp only at lap
  rw [Int.natCast_emod, Int.natCast_add, Int.natCast_ediv, Int.toNat_of_nonneg (Int.emod_nonneg _ (by decide)), lap_spotOf,
    slot_spotOf positive, Int.add_comm (-(n : Int)), Int.sub_eq_add_neg, (Spot.ofInt_add positive z (-n)).2] at lap
  exact dvd_of_lap positive fits (by rw [word]; omega) (by omega) lap

/-! ### Differences and comparisons -/

omit positive in
theorem sub_eq (below1 : op1 < size) (below2 : op2 < size) : sub op1 op2 size = Int.bmod ((op1 : Int) - op2) word := by
  unfold sub
  split
  · rw [Nat.mod_eq_of_lt (by omega), Int.natCast_sub (by omega)]
  · rw [Nat.mod_eq_of_lt (by omega)]
    exact congrArg (Int.bmod · word) (by omega)

omit positive in
theorem bmod_congr {x y : Int} (same : x ≡ y [ZMOD word]) : Int.bmod x word = Int.bmod y word := by
  rw [← Int.emod_bmod, show x % word = y % word from same, Int.emod_bmod]

/-- **A difference** is that of the positions, in a signed word. -/
theorem difference_spotOf (z z' : Int) :
    queue.difference (queue.spotOf z) (queue.spotOf z') = Int.bmod (z - z') word := by
  have slot := slot_spotOf positive z
  have slot' := slot_spotOf positive z'
  have high := Int.emod_lt_of_pos z (show (0 : Int) < queue.capacity by omega)
  have high' := Int.emod_lt_of_pos z' (show (0 : Int) < queue.capacity by omega)
  have whole : z - z' = z % queue.capacity - z' % queue.capacity + (z / queue.capacity - z' / queue.capacity) * queue.capacity := by
    have split := Int.emod_add_mul_ediv z queue.capacity
    have split' := Int.emod_add_mul_ediv z' queue.capacity
    rw [Int.sub_mul, Int.mul_comm (z / _), Int.mul_comm (z' / _)]
    omega
  have lap : ((queue.spotOf z).lap : Int) ≡ z / queue.capacity [ZMOD word] := lap_spotOf z ▸ Int.mod_modEq _ _
  have lap' : ((queue.spotOf z').lap : Int) ≡ z' / queue.capacity [ZMOD word] := lap_spotOf z' ▸ Int.mod_modEq _ _
  unfold difference
  rw [@sub_eq _ _ queue.capacity (by omega) (by omega), slot, slot', whole]
  dsimp only
  split
  · rw [Int.bmod_add_bmod]
    exact bmod_congr (((Int.mod_modEq _ _).trans (lap.sub lap')).mul_right _ |>.add_left _)
  · next same =>
    rw [not_not] at same
    have none : z / queue.capacity - z' / queue.capacity ≡ 0 [ZMOD word] := by
      have laps := lap.symm.sub lap'.symm
      rwa [same, Int.sub_self] at laps
    refine bmod_congr ?_
    have sum := (none.mul_right (queue.capacity : Int)).add_left (z % queue.capacity - z' % queue.capacity)
    rw [Int.zero_mul, Int.add_zero] at sum
    exact sum.symm

omit positive in
theorem less_iff {a b : Spot} (inA : queue.IsIterator a) (inB : queue.IsIterator b) :
    less a b = true ↔ queue.position a < queue.position b := by
  have slotA := inA.slot
  have slotB := inB.slot
  unfold less position
  rw [Bool.or_eq_true, Bool.and_eq_true, decide_eq_true_iff, decide_eq_true_iff, decide_eq_true_iff]
  rcases Nat.lt_trichotomy a.lap b.lap with before | same | after
  · have laps : (a.lap + 1) * queue.capacity ≤ b.lap * queue.capacity := Nat.mul_le_mul_right _ before
    rw [Nat.succ_mul] at laps
    refine iff_of_true (.inl before) ?_
    rw [← Int.natCast_mul, ← Int.natCast_mul]
    omega
  · rw [same]
    omega
  · have laps : (b.lap + 1) * queue.capacity ≤ a.lap * queue.capacity := Nat.mul_le_mul_right _ after
    rw [Nat.succ_mul] at laps
    refine iff_of_false (by omega) ?_
    rw [← Int.natCast_mul, ← Int.natCast_mul]
    omega

end Moves

/-! ### Random access -/

section RandomAccess

variable {queue : CircularQueue T} {a b : Spot} {n : Nat}

theorem RandomAccess.fits (small : queue.capacity < word) (inA : queue.IsIterator a) (inB : queue.IsIterator b)
    (access : queue.RandomAccess a b n) : queue.Fits a b n := by
  have positive : 0 < queue.capacity := Nat.zero_lt_of_lt inA.slot
  have signed (x : Int) : -2 ^ 31 ≤ Int.bmod x word ∧ Int.bmod x word < 2 ^ 31 := by
    have low := Int.le_bmod (x := x) word_pos
    have high := Int.bmod_lt (x := x) word_pos
    rw [word] at low high ⊢
    omega
  obtain ⟨z, isZ, isA, slotA⟩ := IsIterator.exists_position positive inA
  obtain ⟨y, isY, isB, slotB⟩ := IsIterator.exists_position positive inB
  have belowA := inA.slot
  have belowB := inB.slot
  -- a difference is one of a signed word
  have few : n < 2 ^ 31 := by
    have distance := access.plus_difference
    rw [(isIterator_advance a n positive).eq_spotOf, isA, difference_spotOf positive] at distance
    have range := signed (queue.position (queue.advance (queue.spotOf z) n) - z)
    rw [distance] at range
    omega
  have apart := access.difference
  have near := signed (z - y)
  rw [← difference_spotOf positive, ← isA, ← isB, apart, isZ, isY] at near
  rw [isZ, isY] at apart
  refine ⟨few, by rwa [isZ, isY], or_iff_not_imp_left.mpr fun uneven => ?_⟩
  -- no sum leaves the word, and no lap is left backwards
  have plus := access.plus
  rw [isA, next_iterate positive small] at plus
  have inside : a.slot + n < word := by
    by_contra beyond
    exact uneven (dvd_of_advance_far positive (by omega) (by rw [word] at small ⊢; omega) plus)
  have back := access.plus_minus
  rw [isA, plus] at back
  have within : a.slot + n < queue.capacity := by
    by_contra beyond
    have reduced : (z + n) % queue.capacity ≤ a.slot + n - queue.capacity := by
      have less := Nat.mod_le (a.slot + n - queue.capacity) queue.capacity
      have lap : (a.slot : Int) + n - queue.capacity = (a.slot + n - queue.capacity : Nat) := by omega
      rw [(Spot.ofInt_add positive z n).1, ← slotA, ← Int.sub_emod_right, lap, ← Int.natCast_emod]
      exact Int.ofNat_le.mpr less
    refine uneven (dvd_of_retreat (z := z + n) positive small few (by omega) ?_)
    rw [back, Int.add_sub_cancel]
  have slotSum : (queue.spotOf (z + n)).slot = a.slot + n := by
    have slot := slot_spotOf positive (z + n)
    rw [(Spot.ofInt_add positive z n).1, ← slotA, Int.emod_eq_of_lt (by omega) (by omega)] at slot
    omega
  refine ⟨?_, within, ?_, ?_, ?_⟩
  · by_contra large
    have slot := congrArg Spot.slot back
    rw [← isA, retreat, if_pos (Int.natCast_nonneg n), slotSum] at slot
    dsimp only at slot
    rw [Int.emod_eq_of_lt (Int.natCast_nonneg n) (by rw [word]; omega), Int.toNat_natCast] at slot
    have wrong := @moduloSub_ne _ n _ within small (by omega)
    omega
  · by_contra! between
    have minus := access.minus between.2
    rw [isA, prev_iterate positive] at minus
    exact uneven (dvd_of_retreat positive small few (by omega) minus)
  · by_contra before
    have moved := access.difference_plus
    rw [apart, isB] at moved
    refine uneven (dvd_of_advance positive small near.1 (by omega) (moved.trans ?_))
    rw [isA]
    exact congrArg _ (by omega)
  · by_contra beyond
    have moved := access.difference_plus
    rw [apart, isB] at moved
    refine uneven (dvd_of_advance_far positive (by omega) (by rw [word] at small ⊢; omega) (moved.trans ?_))
    rw [isA]
    exact congrArg _ (by omega)

theorem Fits.randomAccess (small : queue.capacity < word) (inA : queue.IsIterator a) (inB : queue.IsIterator b)
    (fits : queue.Fits a b n) : queue.RandomAccess a b n := by
  have positive : 0 < queue.capacity := Nat.zero_lt_of_lt inA.slot
  obtain ⟨few, ⟨low, high⟩, rest⟩ := fits
  obtain ⟨z, isZ, isA, slotA⟩ := IsIterator.exists_position positive inA
  obtain ⟨y, isY, isB, slotB⟩ := IsIterator.exists_position positive inB
  rw [isZ, isY] at low high rest
  have distance : queue.difference a b = z - y := by
    rw [isA, isB, difference_spotOf positive, bmod_of_small low high]
  have plus : queue.advance a n = queue.spotOf (z + n) := by
    rw [isA]
    refine advance_spotOf positive ?_
    rcases rest with divides | ⟨-, within, -⟩
    · exact .inl divides
    · exact .inr ⟨by omega, by omega⟩
  refine ⟨?_, fun enough => ?_, ?_, ?_, ?_, less_iff inA inB, ?_, ?_, ?_, by rw [distance, isZ, isY]⟩
  · rw [plus, isA, next_iterate positive small]
  · rw [isZ] at enough
    rw [isA, prev_iterate positive]
    refine retreat_spotOf positive small ?_
    rcases rest with divides | ⟨half, -, inLap, -⟩
    · exact .inl divides
    · exact .inr ⟨by omega, by omega⟩
  · rw [plus, retreat_spotOf positive small ?_, Int.add_sub_cancel, isA]
    rcases rest with divides | ⟨half, within, -⟩
    · exact .inl divides
    · rw [(Spot.ofInt_add positive z n).1, ← slotA, Int.emod_eq_of_lt (by omega) (by omega)]
      exact .inr ⟨by omega, by omega⟩
  · rw [plus, isA, difference_spotOf positive, add_sub_cancel_left, bmod_of_small (by omega) (by omega)]
  · rw [distance, isB, advance_spotOf positive ?_, isA]
    · exact congrArg _ (by omega)
    · rcases rest with divides | ⟨-, -, -, before, beyond⟩
      · exact .inl divides
      · exact .inr ⟨by omega, by omega⟩
  · unfold lessEq
    rw [Bool.not_eq_true', ← Bool.not_eq_true, less_iff inB inA]
    omega
  · unfold greater lessEq
    rw [Bool.not_not, less_iff inB inA]
  · unfold greaterEq
    rw [Bool.not_eq_true', ← Bool.not_eq_true, less_iff inA inB]
    omega

end RandomAccess

/-- **When iterators are a random-access position type.** -/
theorem randomAccess_iff (queue : CircularQueue T) (small : queue.capacity < word) {a b : Spot} (inA : queue.IsIterator a)
    (inB : queue.IsIterator b) (n : Nat) : queue.RandomAccess a b n ↔ queue.Fits a b n :=
  ⟨fun access => access.fits small inA inB, fun fits => fits.randomAccess small inA inB⟩

/-- Two iterators of a queue of four elements, whose capacity divides 2^32. -/
theorem randomAccess_four : RandomAccess (.create 4 : CircularQueue Nat) ⟨1, 2⟩ ⟨3, 0⟩ 5 :=
  (randomAccess_iff _ (by decide) ⟨by decide, by decide⟩ ⟨by decide, by decide⟩ 5).mpr
    ⟨by decide, ⟨by decide, by decide⟩, .inl (by decide)⟩

/-- **One step back from the second lap of three slots.** -/
theorem retreat_three : ¬ ∀ (queue : CircularQueue Nat), queue.capacity < word → ∀ a b, queue.IsIterator a →
    queue.IsIterator b → ∀ n, queue.RandomAccess a b n := by
  intro all
  have access := all (.create 3) (by decide) ⟨0, 1⟩ ⟨0, 1⟩ ⟨by decide, by decide⟩ ⟨by decide, by decide⟩ 1
  exact absurd (access.minus (by decide)) (by decide)

end CircularQueue

end Emas.Gem5

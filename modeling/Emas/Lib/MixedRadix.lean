/-
**Mixed-radix numbers over named digits.**

A number is split into digits along a list of positions, low to high, each position with a radix of its
own. `decode` peels the digits off with `%` and `/`, `encode` puts them together. On a list without
repetition the two are inverse up to the capacity, the product of the radices: `encode_decode` and
`decode_encode`. `bijOn_two_digits` is the case of two digits, as a bijection.
-/

import Mathlib.Algebra.BigOperators.Group.List.Basic
import Mathlib.Order.Interval.Set.Basic
import Mathlib.Algebra.Order.Ring.Nat
import Mathlib.Data.Nat.Bitwise

namespace Emas.MixedRadix

variable {ι : Type} (radix : ι → Nat)

def decode [DecidableEq ι] : List ι → Nat → (ι → Nat) → ι → Nat
  | [], _, digits => digits
  | position :: rest, number, digits =>
    decode rest (number / radix position) (Function.update digits position (number % radix position))

/-- The number with the given digits. -/
def encode (digits : ι → Nat) : List ι → Nat
  | [] => 0
  | position :: rest => digits position + radix position * encode digits rest

/-- How many numbers the digits can tell apart. -/
def capacity (positions : List ι) : Nat := (positions.map radix).prod

variable {radix}

theorem capacity_cons (position : ι) (rest : List ι) :
    capacity radix (position :: rest) = radix position * capacity radix rest := by
  rw [capacity, capacity, List.map_cons, List.prod_cons]

variable {positions : List ι}

theorem encode_lt {digits : ι → Nat} (small : ∀ position ∈ positions, digits position < radix position) :
    encode radix digits positions < capacity radix positions := by
  induction positions with
  | nil => exact Nat.one_pos
  | cons head rest ih =>
    have bound := small head (List.mem_cons_self ..)
    have later := ih fun other inRest => small other (List.mem_cons_of_mem _ inRest)
    calc digits head + radix head * encode radix digits rest
        < radix head + radix head * encode radix digits rest := Nat.add_lt_add_right bound _
      _ = radix head * (encode radix digits rest + 1) := by rw [Nat.mul_add, Nat.mul_one, Nat.add_comm]
      _ ≤ radix head * capacity radix rest := Nat.mul_le_mul_left _ later
      _ = capacity radix (head :: rest) := (capacity_cons head rest).symm

variable [DecidableEq ι]

theorem decode_of_notMem {position : ι} (absent : position ∉ positions) :
    ∀ (number : Nat) (digits : ι → Nat), decode radix positions number digits position = digits position := by
  induction positions with
  | nil => exact fun _ _ => rfl
  | cons head rest ih =>
    intro number digits
    rw [List.mem_cons, not_or] at absent
    rw [decode, ih absent.2, Function.update_of_ne absent.1]

theorem decode_lt (distinct : positions.Nodup) {position : ι}
    (member : position ∈ positions) (positive : 0 < radix position) :
    ∀ (number : Nat) (digits : ι → Nat), decode radix positions number digits position < radix position := by
  induction positions with
  | nil => simp at member
  | cons head rest ih =>
    intro number digits
    rw [List.nodup_cons] at distinct
    rw [decode]
    rcases List.mem_cons.mp member with rfl | later
    · rw [decode_of_notMem distinct.1, Function.update_self]
      exact Nat.mod_lt _ positive
    · exact ih distinct.2 later _ _

/-- **Putting together what was split.** -/
theorem encode_decode (distinct : positions.Nodup) : ∀ (number : Nat) (digits : ι → Nat),
      encode radix (decode radix positions number digits) positions = number % capacity radix positions := by
  induction positions with
  | nil =>
    intro number digits
    rw [encode, capacity, List.map_nil, List.prod_nil, Nat.mod_one]
  | cons head rest ih =>
    intro number digits
    rw [List.nodup_cons] at distinct
    rw [encode, decode, ih distinct.2, decode_of_notMem distinct.1, Function.update_self, capacity_cons, Nat.mod_mul]

/-- **Splitting what was put together.** -/
theorem decode_encode {digits : ι → Nat}
    (small : ∀ position ∈ positions, digits position < radix position) (distinct : positions.Nodup)
    {position : ι} (member : position ∈ positions) (table : ι → Nat) :
    decode radix positions (encode radix digits positions) table position = digits position := by
  induction positions generalizing table with
  | nil => simp at member
  | cons head rest ih =>
    have bound := small head (List.mem_cons_self ..)
    have positive : 0 < radix head := Nat.zero_lt_of_lt bound
    have low : (digits head + radix head * encode radix digits rest) % radix head = digits head := by
      rw [Nat.add_mul_mod_self_left, Nat.mod_eq_of_lt bound]
    have high : (digits head + radix head * encode radix digits rest) / radix head = encode radix digits rest := by
      rw [Nat.add_mul_div_left _ _ positive, Nat.div_eq_of_lt bound, Nat.zero_add]
    rw [List.nodup_cons] at distinct
    rw [encode, decode, low, high]
    rcases List.mem_cons.mp member with rfl | later
    · rw [decode_of_notMem distinct.1, Function.update_self]
    · exact ih (fun other inRest => small other (List.mem_cons_of_mem _ inRest)) distinct.2 later _

theorem mul_add_inj {radix high low high' low' : Nat} (small : low < radix) (small' : low' < radix)
    (same : high * radix + low = high' * radix + low') : high = high' ∧ low = low' := by
  have mod := congrArg (· % radix) same
  have positive : 0 < radix := Nat.zero_lt_of_lt small
  simp only [Nat.mul_add_mod_self_right, Nat.mod_eq_of_lt small, Nat.mod_eq_of_lt small'] at mod
  rw [mod] at same
  exact ⟨Nat.eq_of_mul_eq_mul_right positive (Nat.add_right_cancel same), mod⟩

theorem mul_add_lt {radix size high low : Nat} (bound : high < size) (small : low < radix) :
    high * radix + low < size * radix :=
  calc high * radix + low < high * radix + radix := Nat.add_lt_add_left small _
    _ = (high + 1) * radix := (Nat.succ_mul high radix).symm
    _ ≤ size * radix := Nat.mul_le_mul_right radix bound

/-- **The numbers of two digits** are those below the product of the radices. -/
theorem bijOn_two_digits (radix size : Nat) :
    Set.BijOn (fun digits : Nat × Nat => digits.1 * radix + digits.2) {digits | digits.1 < size ∧ digits.2 < radix}
      (Set.Iio (size * radix)) := by
  refine ⟨fun digits ⟨high, low⟩ => mul_add_lt high low, fun digits ⟨_, low⟩ digits' ⟨_, low'⟩ same => ?_,
    fun number below => ?_⟩
  · obtain ⟨high, low⟩ := mul_add_inj low low' same
    exact Prod.ext high low
  · have positive : 0 < radix := Nat.pos_of_mul_pos_left (Nat.zero_lt_of_lt below)
    refine ⟨(number / radix, number % radix), ⟨?_, Nat.mod_lt _ positive⟩, Nat.div_add_mod' number radix⟩
    exact (Nat.div_lt_iff_lt_mul positive).mpr below

end Emas.MixedRadix

namespace Emas

/-! ### Striping

Addresses are cut into blocks of `2 ^ (low + width)`. The `width` bits in the middle of an address, hashed with the
number of its block, say which of the `2 ^ width` stripes it belongs to; what remains of the address without them is its
place in the stripe.

* `place_lt_place` — in one stripe places are in the order of the addresses.
* `address` — **every place of every stripe is taken**, by one address (`stripe_address`, `place_address`).
-/

/-- The bits that are taken out, and the hash of the block number. -/
structure Striping where
  low : Nat
  width : Nat
  hash : Nat → Nat
  hash_lt : ∀ block, hash block < 2 ^ width

namespace Striping

variable (striping : Striping)

/-- The block of an address. -/
def block (a : Nat) : Nat := a / 2 ^ (striping.low + striping.width)

/-- The bits in the middle. -/
def middle (a : Nat) : Nat := a / 2 ^ striping.low % 2 ^ striping.width

/-- The stripe of an address. -/
def stripe (a : Nat) : Nat := striping.middle a ^^^ striping.hash (striping.block a)

/-- The address without the bits in the middle. -/
def place (a : Nat) : Nat := striping.block a * 2 ^ striping.low + a % 2 ^ striping.low

/-- The address with the given place in the given stripe. -/
def address (m p : Nat) : Nat :=
  (p / 2 ^ striping.low * 2 ^ striping.width + (m ^^^ striping.hash (p / 2 ^ striping.low))) * 2 ^ striping.low +
    p % 2 ^ striping.low

theorem stripe_lt (a : Nat) : striping.stripe a < 2 ^ striping.width :=
  Nat.xor_lt_two_pow (Nat.mod_lt _ (Nat.two_pow_pos _)) (striping.hash_lt _)

theorem block_eq (a : Nat) : striping.block a = a / 2 ^ striping.low / 2 ^ striping.width := by
  rw [block, Nat.pow_add, Nat.div_div_eq_div_mul]

theorem decompose (a : Nat) :
    a = (striping.block a * 2 ^ striping.width + striping.middle a) * 2 ^ striping.low + a % 2 ^ striping.low := by
  rw [block_eq, middle, Nat.div_add_mod', Nat.div_add_mod']

variable {striping}

theorem middle_eq {a : Nat} : striping.middle a = striping.stripe a ^^^ striping.hash (striping.block a) := by
  rw [stripe, Nat.xor_assoc, Nat.xor_self, Nat.xor_zero]

/-- **Places are in the order of the addresses.** -/
theorem place_lt_place {a b : Nat} (same : striping.stripe a = striping.stripe b) (less : a < b) :
    striping.place a < striping.place b := by
  have lowA : a % 2 ^ striping.low < 2 ^ striping.low := Nat.mod_lt _ (Nat.two_pow_pos _)
  have blocks : striping.block a ≤ striping.block b := Nat.div_le_div_right (Nat.le_of_lt less)
  rcases Nat.lt_or_eq_of_le blocks with earlier | equal
  · have whole : (striping.block a + 1) * 2 ^ striping.low ≤ striping.block b * 2 ^ striping.low :=
      Nat.mul_le_mul_right _ earlier
    rw [Nat.succ_mul] at whole
    unfold place
    omega
  · -- in one block the middles are equal too
    have middles : striping.middle a = striping.middle b := by rw [middle_eq, middle_eq, same, equal]
    have splitA := striping.decompose a
    have splitB := striping.decompose b
    rw [equal, middles] at splitA
    unfold place
    rw [equal]
    omega

section Address

variable {m : Nat} (inside : m < 2 ^ striping.width) (p : Nat)

theorem middle_lt (inside : m < 2 ^ striping.width) (p : Nat) :
    m ^^^ striping.hash (p / 2 ^ striping.low) < 2 ^ striping.width :=
  Nat.xor_lt_two_pow inside (striping.hash_lt _)

theorem address_div (p : Nat) : striping.address m p / 2 ^ striping.low =
    p / 2 ^ striping.low * 2 ^ striping.width + (m ^^^ striping.hash (p / 2 ^ striping.low)) := by
  rw [address, Nat.add_comm, Nat.add_mul_div_right _ _ (Nat.two_pow_pos _),
    Nat.div_eq_of_lt (Nat.mod_lt _ (Nat.two_pow_pos _)), Nat.zero_add]

theorem address_mod (p : Nat) : striping.address m p % 2 ^ striping.low = p % 2 ^ striping.low := by
  rw [address, Nat.add_comm, Nat.add_mul_mod_self_right, Nat.mod_mod]

include inside

theorem block_address : striping.block (striping.address m p) = p / 2 ^ striping.low := by
  rw [block_eq, address_div, Nat.add_comm, Nat.add_mul_div_right _ _ (Nat.two_pow_pos _),
    Nat.div_eq_of_lt (middle_lt inside p), Nat.zero_add]

/-- **Every place is taken**: the address is in the stripe, ... -/
theorem stripe_address : striping.stripe (striping.address m p) = m := by
  have mid : striping.middle (striping.address m p) = m ^^^ striping.hash (p / 2 ^ striping.low) := by
    rw [middle, address_div, Nat.add_comm, Nat.add_mul_mod_self_right, Nat.mod_eq_of_lt (middle_lt inside p)]
  rw [stripe, mid, block_address inside p, Nat.xor_assoc, Nat.xor_self, Nat.xor_zero]

theorem place_address : striping.place (striping.address m p) = p := by
  rw [place, block_address inside p, address_mod, Nat.div_add_mod']

end Address

/-! ### Intervals of whole blocks -/

theorem place_mem_iff {s e a : Nat} :
    (s * 2 ^ striping.low ≤ striping.place a ∧ striping.place a < e * 2 ^ striping.low) ↔
      s * 2 ^ (striping.low + striping.width) ≤ a ∧ a < e * 2 ^ (striping.low + striping.width) := by
  have small : a % 2 ^ striping.low < 2 ^ striping.low := Nat.mod_lt _ (Nat.two_pow_pos _)
  have quotient : striping.place a / 2 ^ striping.low = striping.block a := by
    rw [place, Nat.add_comm, Nat.add_mul_div_right _ _ (Nat.two_pow_pos _), Nat.div_eq_of_lt small, Nat.zero_add]
  rw [← Nat.le_div_iff_mul_le (Nat.two_pow_pos _), ← Nat.div_lt_iff_lt_mul (Nat.two_pow_pos _), quotient,
    ← Nat.le_div_iff_mul_le (Nat.two_pow_pos _), ← Nat.div_lt_iff_lt_mul (Nat.two_pow_pos _)]
  rfl

end Striping

end Emas

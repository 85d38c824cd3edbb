/-
**Interleaving bits, removed and added.**

The loop of `removeIntlvBits` closes one gap a round, from the lowest bit up. `addIntlvBits` opens the gaps again and
then fills the lowest bit of each mask so that the selector comes out as `intlvMatch`.

* The gap for the bit `l` of round `i` is opened at `l + i`, though the earlier rounds have moved the address already.
  Opening it doubles the bit below, so that a round too far is made good by the copy; from the third mask on the bit
  under `l` is overwritten.
* The bits of a mask above the lowest are found with `~(1 << lsb)`, an `int`. It loses the bits above 31 when `lsb` is
  31, and is undefined beyond.

`exact_iff` — **exactness**: the two functions are inverse to each other, between the addresses of the stripe and those
without their top bits, if and only if there are at most two masks and the lowest bit of each is below 31, or is the
whole mask and is 31.
-/

import Emas.Gem5.AddrRange
import Mathlib.Data.List.Pairwise

namespace Emas.Gem5

open Bits

/-! ### Bit fields -/

theorem ctz64_spec {m : Addr} (nonzero : m ≠ 0) :
    ctz64 m < 64 ∧ m.getLsbD (ctz64 m) = true ∧ ∀ j < ctz64 m, m.getLsbD j = false := by
  cases found : (List.range 64).find? m.getLsbD with
  | none =>
    refine absurd (BitVec.eq_of_getLsbD_eq fun j bound => ?_) nonzero
    have unset := List.find?_eq_none.mp found j (List.mem_range.mpr bound)
    rw [Bool.not_eq_true] at unset
    rw [unset, BitVec.ofNat_eq_ofNat, BitVec.getLsbD_zero]
  | some l =>
    have value : ctz64 m = l := by rw [ctz64, found, Option.getD_some]
    obtain ⟨set, bound, below⟩ := List.find?_range_eq_some.mp found
    rw [value]
    exact ⟨List.mem_range.mp bound, set, fun j less => by simpa using below j less⟩

/-- The lowest `n` bits. -/
def ones (n : Nat) : Addr := if n = 64 then BitVec.allOnes 64 else 1#64 <<< n - 1#64

variable {n : Nat}

theorem mask_eq (fits : n ≤ 64) : mask n = some (ones n) := by
  unfold mask ones
  by_cases full : n = 64
  · simp [full]
  · have notFull : ¬ (n : Int) = 64 := by omega
    have small : 0 ≤ (n : Int) ∧ (n : Int) < 64 := by omega
    rw [if_neg notFull, if_pos small, if_neg full, Int.toNat_natCast]

theorem getLsbD_ones (fits : n ≤ 64) (j : Nat) : (ones n).getLsbD j = (decide (j < 64) && decide (j < n)) := by
  unfold ones
  split
  · subst n
    rw [BitVec.getLsbD_allOnes, Bool.and_self]
  · have value : (1#64 <<< n - 1#64).toNat = 2 ^ n - 1 := by
      have power : 2 ^ n < 2 ^ 64 := Nat.pow_lt_pow_right (by decide) (by omega)
      have positive : 0 < 2 ^ n := Nat.two_pow_pos n
      have shifted : (1#64 <<< n).toNat = 2 ^ n := by
        rw [BitVec.toNat_shiftLeft, Nat.shiftLeft_eq]
        exact (Nat.mod_eq_of_lt (by simpa using power)).trans (by simp)
      rw [BitVec.toNat_sub, shifted]
      simp only [BitVec.toNat_ofNat]
      omega
    rw [BitVec.getLsbD, value, Nat.testBit_two_pow_sub_one]
    by_cases below : j < n
    · have bound : j < 64 := by omega
      simp [below, bound]
    · simp [below]

/-- The lowest `n` bits of one address under the others of another. -/
def splice (n : Nat) (low high : Addr) : Addr := low &&& ones n ||| high &&& ~~~ ones n

theorem getLsbD_splice (fits : n ≤ 64) (low high : Addr) {j : Nat} (bound : j < 64) :
    (splice n low high).getLsbD j = if j < n then low.getLsbD j else high.getLsbD j := by
  rw [splice, BitVec.getLsbD_or, BitVec.getLsbD_and, BitVec.getLsbD_and, BitVec.getLsbD_not, getLsbD_ones fits]
  by_cases below : j < n <;> simp [below, bound, -BitVec.getLsbD_eq_getElem]

theorem insertBits_low (fits : n ≤ 64) (val bitVal : Addr) {first : Int} (last : first + 1 = n) :
    insertBits val first 0 bitVal = some (splice n bitVal val) := by
  simp [insertBits, last, mask_eq fits, splice]

theorem insertBits_bit (val bitVal : Addr) {pos : Nat} (inside : pos < 64) :
    insertBits val pos pos bitVal = some (setBit val pos (bitVal.getLsbD 0)) := by
  have one : mask 1 = some 1#64 := by decide
  have count : (pos : Int) - pos + 1 = 1 := by omega
  have small : (pos : Int) < 64 := by omega
  simp only [insertBits, count, one, Option.map_some, Int.natCast_nonneg, small, and_self, if_true, Int.toNat_natCast,
    Option.some.injEq]
  apply BitVec.eq_of_getLsbD_eq
  intro j bound
  rw [getLsbD_setBit _ inside, BitVec.getLsbD_or, BitVec.getLsbD_and, BitVec.getLsbD_and, BitVec.getLsbD_not,
    show (1#64 <<< pos) = bitAt 64 pos from rfl, getLsbD_bitAt]
  by_cases same : j = pos
  · subst same
    simp [bound, -BitVec.getLsbD_eq_getElem]
  · simp [bound, same, -BitVec.getLsbD_eq_getElem]

/-! ### The rounds of the loops -/

/-- The gap at bit `n` is closed. -/
def close (n : Nat) (a : Addr) : Addr := splice n a (a >>> 1)

/-- A gap is opened at bit `n`, with a copy of the bit below in it. -/
def widen (n : Nat) (a : Addr) : Addr := splice n a (a <<< 1)

theorem getLsbD_close (fits : n ≤ 64) (a : Addr) {j : Nat} (bound : j < 64) :
    (close n a).getLsbD j = if j < n then a.getLsbD j else a.getLsbD (j + 1) := by
  rw [close, getLsbD_splice fits _ _ bound, BitVec.getLsbD_ushiftRight, Nat.add_comm 1 j]

theorem getLsbD_widen (fits : n ≤ 64) (a : Addr) {j : Nat} (bound : j < 64) :
    (widen n a).getLsbD j = if j < n then a.getLsbD j else decide (0 < j) && a.getLsbD (j - 1) := by
  rw [widen, getLsbD_splice fits _ _ bound, BitVec.getLsbD_shiftLeft]
  by_cases zero : j = 0
  · simp [zero]
  · have positive : 0 < j := Nat.pos_of_ne_zero zero
    simp [bound, positive, zero, -BitVec.getLsbD_eq_getElem]

namespace AddrRange

theorem removeStep_eq {l i : Nat} (order : i ≤ l) (bound : l < 64) (a : Addr) :
    removeStep a (l, i) = some (close (l - i) a) := by
  unfold removeStep
  by_cases positive : l > 0
  · rw [if_pos positive, @insertBits_low (l - i) (by omega) _ _ _ (by omega)]
    rfl
  · have none : l - i = 0 := by omega
    rw [if_neg positive, none]
    refine congrArg some (BitVec.eq_of_getLsbD_eq fun j inside => ?_)
    rw [getLsbD_close (by omega) a inside, if_neg (Nat.not_lt_zero j), BitVec.getLsbD_ushiftRight, Nat.add_comm]

theorem addStep_eq {l i : Nat} (order : i ≤ l) (bound : l + i ≤ 64) (a : Addr) :
    addStep a (l, i) = some (widen (l + i) a) := by
  unfold addStep
  by_cases positive : l > 0
  · rw [if_pos positive, @insertBits_low (l + i) bound _ _ _ (by omega)]
    rfl
  · have none : l + i = 0 := by omega
    rw [if_neg positive, none]
    refine congrArg some (BitVec.eq_of_getLsbD_eq fun j inside => ?_)
    rw [getLsbD_widen (by omega) a inside, if_neg (Nat.not_lt_zero j), BitVec.getLsbD_shiftLeft]
    by_cases zero : j = 0
    · simp [zero]
    · have above : 0 < j := Nat.pos_of_ne_zero zero
      simp [inside, above, zero, -BitVec.getLsbD_eq_getElem]

/-! ### Selectors as checks -/

variable (range : AddrRange)

theorem testBit_parity_shift (m a : Addr) (i j : Nat) :
    ((popCount (a &&& m) % 2) <<< i).testBit j = (decide (j = i) && parity (a &&& m)) := by
  rw [Nat.testBit_shiftLeft, parity]
  rcases Nat.mod_two_eq_zero_or_one (popCount (a &&& m)) with even | odd
  · simp [even]
  · rcases Nat.lt_trichotomy j i with below | rfl | above
    · have notYet : ¬ i ≤ j := by omega
      simp [odd, notYet, Nat.ne_of_lt below]
    · simp [odd]
    · have beyond : j - i ≠ 0 := by omega
      have unset : Nat.testBit 1 (j - i) = false := by
        rw [← Bool.not_eq_true, Nat.testBit_one_eq_true_iff_self_eq_zero]
        exact beyond
      simp [odd, unset, Nat.ne_of_gt above]

theorem testBit_selector (a : Addr) (j : Nat) : ∀ (masks : List Addr) (n sel : Nat),
    ((masks.zipIdx n).foldl (fun sel entry => sel ||| (popCount (a &&& entry.1) % 2) <<< entry.2) sel).testBit j =
      (sel.testBit j || decide (n ≤ j) && (masks[j - n]?.map fun m => parity (a &&& m)).getD false) := by
  intro masks
  induction masks with
  | nil => simp
  | cons m rest ih =>
    intro n sel
    rw [List.zipIdx_cons, List.foldl_cons, ih, Nat.testBit_or, testBit_parity_shift]
    rcases Nat.lt_trichotomy j n with below | rfl | above
    · have notYet : ¬ n ≤ j := by omega
      have notNext : ¬ n + 1 ≤ j := by omega
      simp [notYet, notNext, Nat.ne_of_lt below]
    · simp
    · have next : n + 1 ≤ j := by omega
      have index : j - n = (j - (n + 1)) + 1 := by omega
      simp [next, Nat.le_of_lt above, Nat.ne_of_gt above, index]

/-- An interleaved range as the constructor accepts it, whose masks have lowest bits of their own: non-zero, distinct,
and none of them in another mask. -/
structure Interleaved extends AddrRange where
  striped : masks ≠ []
  fits : intlvMatch.toNat < 2 ^ masks.length
  nonzero : ∀ m ∈ masks, m ≠ 0
  distinct : (masks.map ctz64).Nodup
  separate : masks.Pairwise fun m m' => m'.getLsbD (ctz64 m) = false ∧ m.getLsbD (ctz64 m') = false

/-- What a mask demands of an address: that its lowest bit makes its parity that bit of `intlvMatch`. -/
def trueCheck (entry : Addr × Nat) : Check 64 :=
  ⟨ctz64 entry.1, entry.1 &&& ~~~ bitAt 64 (ctz64 entry.1), range.intlvMatch.toNat.testBit entry.2⟩

/-- What the second loop of `addIntlvBits` sees to, where its shifts are defined. -/
def codeCheck (entry : Addr × Nat) : Check 64 :=
  ⟨ctz64 entry.1, entry.1 &&& if ctz64 entry.1 < 31 then ~~~ bitAt 64 (ctz64 entry.1) else 0x7fffffff#64,
    range.intlvMatch.toNat.testBit entry.2⟩

/-- What an address of the stripe meets. -/
def trueChecks : List (Check 64) := range.masks.zipIdx.map range.trueCheck

/-- What `addIntlvBits` fills in. -/
def codeChecks : List (Check 64) := range.masks.zipIdx.map range.codeCheck

theorem map_pos_trueChecks : range.trueChecks.map Check.pos = range.masks.map ctz64 := by
  rw [trueChecks, List.map_map]
  show range.masks.zipIdx.map (ctz64 ∘ Prod.fst) = _
  rw [← List.map_map, List.zipIdx_map_fst]

theorem map_pos_codeChecks : range.codeChecks.map Check.pos = range.masks.map ctz64 := by
  rw [codeChecks, List.map_map]
  show range.masks.zipIdx.map (ctz64 ∘ Prod.fst) = _
  rw [← List.map_map, List.zipIdx_map_fst]

theorem agreeOff_checks_iff {a b : Addr} : AgreeOff range.codeChecks a b ↔ AgreeOff range.trueChecks a b := by
  rw [AgreeOff, AgreeOff, map_pos_codeChecks, map_pos_trueChecks]

theorem meets_iff (a : Addr) (fits : range.intlvMatch.toNat < 2 ^ range.masks.length)
    (nonzero : ∀ m ∈ range.masks, m ≠ 0) :
    Meets range.trueChecks a ↔ selector range.masks a = range.intlvMatch.toNat := by
  have bits : selector range.masks a = range.intlvMatch.toNat ↔
      ∀ entry ∈ range.masks.zipIdx, parity (a &&& entry.1) = range.intlvMatch.toNat.testBit entry.2 := by
    constructor
    · intro same entry member
      have bit := testBit_selector a entry.2 range.masks 0 0
      rw [List.mem_zipIdx_iff_getElem?] at member
      rw [← same, selector, bit]
      simp [member]
    · intro each
      refine Nat.eq_of_testBit_eq fun j => ?_
      have bit := testBit_selector a j range.masks 0 0
      rw [selector, bit]
      cases found : range.masks[j]? with
      | none =>
        have beyond : range.masks.length ≤ j := List.getElem?_eq_none_iff.mp found
        have unset : range.intlvMatch.toNat.testBit j = false :=
          Nat.testBit_lt_two_pow (Nat.lt_of_lt_of_le fits (Nat.pow_le_pow_right (by decide) beyond))
        simp [unset]
      | some m =>
        have parity := each (m, j) (List.mem_zipIdx_iff_getElem?.mpr found)
        simpa [found] using parity
  rw [bits, Meets, trueChecks, List.forall_mem_map]
  refine forall₂_congr fun entry member => ?_
  have inMasks : entry.1 ∈ range.masks := List.fst_mem_of_mem_zipIdx member
  obtain ⟨inside, set, -⟩ := ctz64_spec (nonzero entry.1 inMasks)
  have split := parity_split (a &&& entry.1) inside
  rw [BitVec.getLsbD_and, set, Bool.and_true, BitVec.and_assoc] at split
  rw [split]
  show a.getLsbD (ctz64 entry.1) = (range.intlvMatch.toNat.testBit entry.2 ^^
    parity (a &&& (entry.1 &&& ~~~ bitAt 64 (ctz64 entry.1)))) ↔ _
  generalize parity (a &&& (entry.1 &&& ~~~ bitAt 64 (ctz64 entry.1))) = others
  generalize range.intlvMatch.toNat.testBit entry.2 = target
  cases a.getLsbD (ctz64 entry.1) <;> cases others <;> cases target <;> decide

/-! ### The loops -/

theorem getLsbD_xor_popCount (target : Bool) (masked : Addr) :
    (BitVec.ofNat 64 ((if target then 1 else 0) ^^^ popCount masked)).getLsbD 0 = (target ^^ parity masked) := by
  rw [BitVec.getLsbD_ofNat, Nat.testBit_xor, Nat.testBit_zero, Nat.testBit_zero, parity]
  rcases Nat.mod_two_eq_zero_or_one (popCount masked) with even | odd
  · cases target <;> simp [even]
  · cases target <;> simp [odd]

/-- The first loop of `addIntlvBits`, where its shifts are defined. -/
def expand (masks : List Addr) (a : Addr) : Addr :=
  (masksLsb masks).zipIdx.foldl (fun a entry => widen (entry.1 + entry.2) a) a

/-- The loop of `removeIntlvBits`. -/
def compress (masks : List Addr) (a : Addr) : Addr :=
  (masksLsb masks).zipIdx.foldl (fun a entry => close (entry.1 - entry.2) a) a

theorem foldlM_eq {β : Type} {step : Addr → β → Option Addr} {total : Addr → β → Addr} {entries : List β}
    (each : ∀ entry ∈ entries, ∀ a, step a entry = some (total a entry)) (a : Addr) :
    entries.foldlM step a = some (entries.foldl total a) := by
  induction entries generalizing a with
  | nil => rfl
  | cons entry rest ih =>
    rw [List.foldlM_cons, each entry (List.mem_cons_self ..)]
    exact ih (fun later member => each later (.tail _ member)) _

theorem foldlM_eq_none {β : Type} {step : Addr → β → Option Addr} {entries : List β} {bad : β}
    (member : bad ∈ entries) (undefined : ∀ a, step a bad = none) (a : Addr) : entries.foldlM step a = none := by
  induction entries generalizing a with
  | nil => exact absurd member List.not_mem_nil
  | cons entry rest ih =>
    rw [List.foldlM_cons]
    rcases List.mem_cons.mp member with rfl | later
    · rw [undefined]
      rfl
    · cases step a entry with
      | none => rfl
      | some next => exact ih later next

theorem index_le {ls : List Nat} (increasing : ls.Pairwise (· < ·)) :
    ∀ n, (∀ l ∈ ls, n ≤ l) → ∀ entry ∈ ls.zipIdx n, entry.2 ≤ entry.1 := by
  induction ls with
  | nil => simp
  | cons l rest ih =>
    obtain ⟨above, increasingRest⟩ := List.pairwise_cons.mp increasing
    intro n least entry member
    rw [List.zipIdx_cons] at member
    rcases List.mem_cons.mp member with rfl | later
    · exact least l (List.mem_cons_self ..)
    · have first := least l (List.mem_cons_self ..)
      exact ih increasingRest (n + 1) (fun l' inside => by have := above l' inside; omega) entry later

variable {masks : List Addr}

theorem mem_masksLsb {l : Nat} : l ∈ masksLsb masks ↔ l ∈ masks.map ctz64 :=
  (List.perm_insertionSort ..).mem_iff

theorem masksLsb_increasing (distinct : (masks.map ctz64).Nodup) : (masksLsb masks).Pairwise (· < ·) := by
  have sorted : (masksLsb masks).Pairwise (· ≤ ·) := List.pairwise_insertionSort ..
  have nodup : (masksLsb masks).Nodup := (List.perm_insertionSort ..).nodup_iff.mpr distinct
  exact sorted.imp₂ (fun _ _ le ne => Nat.lt_of_le_of_ne le ne) nodup

namespace Interleaved

variable (striped : Interleaved)

theorem lsb_lt {l : Nat} (member : l ∈ masksLsb striped.masks) : l < 64 := by
  obtain ⟨m, inside, rfl⟩ := List.mem_map.mp (mem_masksLsb.mp member)
  exact (ctz64_spec (striped.nonzero m inside)).1

theorem entry_order {entry : Nat × Nat} (member : entry ∈ (masksLsb striped.masks).zipIdx) : entry.2 ≤ entry.1 :=
  index_le (masksLsb_increasing striped.distinct) 0 (fun _ _ => Nat.zero_le _) entry member

theorem removeIntlvBits_eq (a : Addr) : striped.removeIntlvBits a = some (compress striped.masks a) :=
  foldlM_eq (fun _ member a =>
    removeStep_eq (striped.entry_order member) (striped.lsb_lt (List.fst_mem_of_mem_zipIdx member)) a) a

theorem addLoop_eq (low : ∀ m ∈ striped.masks, ctz64 m ≤ 31) (a : Addr) :
    (masksLsb striped.masks).zipIdx.foldlM addStep a = some (expand striped.masks a) := by
  refine foldlM_eq (fun _ member a => ?_) a
  have order := striped.entry_order member
  obtain ⟨m, inside, same⟩ := List.mem_map.mp (mem_masksLsb.mp (List.fst_mem_of_mem_zipIdx member))
  have bound := low m inside
  exact addStep_eq order (by omega) a

theorem selectLoop_eq (low : ∀ m ∈ striped.masks, ctz64 m ≤ 31) (a : Addr) :
    striped.masks.zipIdx.foldlM striped.selectStep a = some (settle striped.codeChecks a) := by
  rw [settle, codeChecks, List.foldl_map]
  refine foldlM_eq (fun entry member a => ?_) a
  have inMasks : entry.1 ∈ striped.masks := List.fst_mem_of_mem_zipIdx member
  have bound := low entry.1 inMasks
  have defined : notShifted (ctz64 entry.1) =
      some (if ctz64 entry.1 < 31 then ~~~ bitAt 64 (ctz64 entry.1) else 0x7fffffff#64) := by
    unfold notShifted
    by_cases below : ctz64 entry.1 < 31
    · rw [if_pos below, if_pos below]
    · have last : ctz64 entry.1 = 31 := by omega
      rw [if_neg below, if_neg below, if_pos last]
  simp only [selectStep, defined, Option.bind_some, insertBits_bit _ _ (show ctz64 entry.1 < 64 by omega),
    getLsbD_xor_popCount, BitVec.and_assoc]
  rfl

theorem addIntlvBits_eq_none {m : Addr} (member : m ∈ striped.masks) (high : 32 ≤ ctz64 m) (a : Addr) :
    striped.addIntlvBits a = none := by
  obtain ⟨i, found⟩ := List.mem_iff_getElem?.mp member
  have undefined : ∀ a, striped.selectStep a (m, i) = none := by
    intro a
    have none : notShifted (ctz64 m) = none := by
      rw [notShifted, if_neg (by omega), if_neg (by omega)]
    simp [selectStep, none]
  rw [addIntlvBits]
  cases (masksLsb striped.masks).zipIdx.foldlM addStep a with
  | none => rfl
  | some next => exact foldlM_eq_none (List.mem_zipIdx_iff_getElem?.mpr found) undefined next

theorem addIntlvBits_eq (low : ∀ m ∈ striped.masks, ctz64 m ≤ 31) (a : Addr) :
    striped.addIntlvBits a = some (settle striped.codeChecks (expand striped.masks a)) := by
  rw [addIntlvBits, striped.addLoop_eq low, Option.bind_some, striped.selectLoop_eq low]

theorem unread {m m' : Addr} (member : m ∈ striped.masks) (member' : m' ∈ striped.masks) (other : m ≠ m') :
    m'.getLsbD (ctz64 m) = false := by
  have : Std.Symm fun m m' : Addr => m'.getLsbD (ctz64 m) = false ∧ m.getLsbD (ctz64 m') = false :=
    ⟨fun _ _ both => both.symm⟩
  exact (striped.separate.forall member member' other).1

theorem separated_trueChecks : Separated striped.trueChecks where
  inside check member := by
    obtain ⟨entry, found, rfl⟩ := List.mem_map.mp member
    exact (ctz64_spec (striped.nonzero entry.1 (List.fst_mem_of_mem_zipIdx found))).1
  distinct := by
    rw [map_pos_trueChecks]
    exact striped.distinct
  unread check member other member' := by
    obtain ⟨entry, found, rfl⟩ := List.mem_map.mp member
    obtain ⟨entry', found', rfl⟩ := List.mem_map.mp member'
    show (entry'.1 &&& ~~~ bitAt 64 (ctz64 entry'.1)).getLsbD (ctz64 entry.1) = false
    by_cases same : entry.1 = entry'.1
    · rw [same]
      simp
    · simp [striped.unread (List.fst_mem_of_mem_zipIdx found) (List.fst_mem_of_mem_zipIdx found') same]

theorem separated_codeChecks (low : ∀ m ∈ striped.masks, ctz64 m ≤ 31) : Separated striped.codeChecks where
  inside check member := by
    obtain ⟨entry, found, rfl⟩ := List.mem_map.mp member
    exact (ctz64_spec (striped.nonzero entry.1 (List.fst_mem_of_mem_zipIdx found))).1
  distinct := by
    rw [map_pos_codeChecks]
    exact striped.distinct
  unread check member other member' := by
    obtain ⟨entry, found, rfl⟩ := List.mem_map.mp member
    obtain ⟨entry', found', rfl⟩ := List.mem_map.mp member'
    show (entry'.1 &&& if ctz64 entry'.1 < 31 then ~~~ bitAt 64 (ctz64 entry'.1)
      else 0x7fffffff#64).getLsbD (ctz64 entry.1) = false
    by_cases same : entry.1 = entry'.1
    · rw [same]
      by_cases below : ctz64 entry'.1 < 31
      · simp [below]
      · have last : ctz64 entry'.1 = 31 := by
          have := low entry'.1 (List.fst_mem_of_mem_zipIdx found')
          omega
        rw [last]
        simp
    · simp [striped.unread (List.fst_mem_of_mem_zipIdx found) (List.fst_mem_of_mem_zipIdx found') same]

/-- The masks that `addIntlvBits` treats rightly. -/
def Handled : Prop := striped.masks.length ≤ 2 ∧ ∀ m ∈ striped.masks, ctz64 m < 31 ∨ m = bitAt 64 31

/-- Addresses of the stripe come back, and so do addresses with enough zeros on top. -/
def Exact : Prop :=
  (∀ a, selector striped.masks a = striped.intlvMatch.toNat →
      (striped.removeIntlvBits a).bind striped.addIntlvBits = some a) ∧
    ∀ x : Addr, x.toNat < 2 ^ (64 - striped.masks.length) → ∃ y, striped.addIntlvBits x = some y ∧
      selector striped.masks y = striped.intlvMatch.toNat ∧ striped.removeIntlvBits y = some x

/-! ### Up to two masks -/

theorem ctz64_bitAt_31 : ctz64 (bitAt 64 31) = 31 := by decide

theorem codeChecks_eq (each : ∀ m ∈ striped.masks, ctz64 m < 31 ∨ m = bitAt 64 31) :
    striped.codeChecks = striped.trueChecks := by
  refine List.map_congr_left fun entry found => ?_
  rcases each entry.1 (List.fst_mem_of_mem_zipIdx found) with below | single
  · simp [codeCheck, trueCheck, below]
  · have same : bitAt 64 31 &&& 0x7fffffff#64 = bitAt 64 31 &&& ~~~ bitAt 64 31 := by decide
    simp [codeCheck, trueCheck, single, ctz64_bitAt_31, same]

theorem exact_of_inverse (each : ∀ m ∈ striped.masks, ctz64 m < 31 ∨ m = bitAt 64 31)
    (compressed : ∀ x : Addr, x.toNat < 2 ^ (64 - striped.masks.length) → ∀ b,
      AgreeOff striped.trueChecks b (expand striped.masks x) → compress striped.masks b = x)
    (expanded : ∀ a, AgreeOff striped.trueChecks (expand striped.masks (compress striped.masks a)) a) :
    striped.Exact := by
  have low : ∀ m ∈ striped.masks, ctz64 m ≤ 31 := by
    intro m member
    rcases each m member with below | rfl
    · omega
    · rw [ctz64_bitAt_31]
  have separated := striped.separated_trueChecks
  have add : ∀ a, striped.addIntlvBits a = some (settle striped.trueChecks (expand striped.masks a)) := by
    intro a
    rw [striped.addIntlvBits_eq low, striped.codeChecks_eq each]
  have settled : ∀ a, AgreeOff striped.trueChecks (settle striped.trueChecks a) a := fun a =>
    settle_agreeOff separated.inside
  constructor
  · intro a selected
    have meets := (striped.meets_iff a striped.fits striped.nonzero).mpr selected
    rw [striped.removeIntlvBits_eq, Option.bind_some, add]
    exact congrArg some (separated.eq_of_meets separated.settle_meets meets ((settled _).trans (expanded a)))
  · intro x small
    refine ⟨_, add x, ?_, ?_⟩
    · exact (striped.meets_iff _ striped.fits striped.nonzero).mp separated.settle_meets
    · rw [striped.removeIntlvBits_eq, compressed x small _ (settled _)]

theorem getLsbD_of_small {x : Addr} {n j : Nat} (small : x.toNat < 2 ^ n) (above : n ≤ j) : x.getLsbD j = false :=
  Nat.testBit_lt_two_pow (Nat.lt_of_lt_of_le small (Nat.pow_le_pow_right (by decide) above))

theorem agreeOff_iff {a b : Addr} :
    AgreeOff striped.trueChecks a b ↔ ∀ j, j ∉ masksLsb striped.masks → a.getLsbD j = b.getLsbD j := by
  rw [AgreeOff, map_pos_trueChecks]
  exact forall_congr' fun j => by rw [mem_masksLsb]

theorem exact_of_one (each : ∀ m ∈ striped.masks, ctz64 m < 31 ∨ m = bitAt 64 31) {l : Nat}
    (sorted : masksLsb striped.masks = [l]) : striped.Exact := by
  have bound : l < 64 := striped.lsb_lt (by simp [sorted])
  have single : striped.masks.length = 1 := by
    rw [← List.length_map ctz64, ← (List.perm_insertionSort (· ≤ ·) _).length_eq]
    exact congrArg List.length sorted
  have expandEq : ∀ a, expand striped.masks a = widen l a := by
    intro a
    simp [expand, sorted]
  have compressEq : ∀ a, compress striped.masks a = close l a := by
    intro a
    simp [compress, sorted]
  refine striped.exact_of_inverse each ?_ ?_
  · intro x small b agree
    rw [striped.agreeOff_iff, sorted, expandEq] at agree
    rw [single] at small
    rw [compressEq]
    refine BitVec.eq_of_getLsbD_eq fun j inside => ?_
    rw [getLsbD_close (by omega) b inside]
    split
    · rw [agree j (by simp; omega), getLsbD_widen (by omega) x inside, if_pos (by omega)]
    · by_cases last : j + 1 < 64
      · rw [agree (j + 1) (by simp; omega), getLsbD_widen (by omega) x last, if_neg (by omega)]
        simp
      · rw [BitVec.getLsbD_of_ge b _ (by omega), getLsbD_of_small small (by omega)]
  · intro a
    rw [striped.agreeOff_iff, sorted, compressEq, expandEq]
    intro j off
    have other : j ≠ l := by simpa using off
    by_cases inside : j < 64
    · rw [getLsbD_widen (by omega) _ inside]
      split
      · rw [getLsbD_close (by omega) a inside, if_pos (by omega)]
      · rw [getLsbD_close (by omega) a (by omega), if_neg (by omega), Nat.sub_add_cancel (by omega)]
        simp [show 0 < j by omega]
    · rw [BitVec.getLsbD_of_ge _ _ (by omega), BitVec.getLsbD_of_ge _ _ (by omega)]

/-- Two gaps: the second one is opened one bit too far, and the copy of the bit below takes the place of the bit that
is filled in. -/
theorem exact_of_two (each : ∀ m ∈ striped.masks, ctz64 m < 31 ∨ m = bitAt 64 31) {l l' : Nat}
    (sorted : masksLsb striped.masks = [l, l']) : striped.Exact := by
  have bound : l' < 64 := striped.lsb_lt (by simp [sorted])
  have order : l < l' := by
    have increasing := masksLsb_increasing striped.distinct
    rw [sorted] at increasing
    simpa using increasing
  have double : striped.masks.length = 2 := by
    rw [← List.length_map ctz64, ← (List.perm_insertionSort (· ≤ ·) _).length_eq]
    exact congrArg List.length sorted
  have expandBit : ∀ a {j : Nat}, j < 64 → j ≠ l → j ≠ l' → (expand striped.masks a).getLsbD j =
      if j < l then a.getLsbD j else if j < l' then a.getLsbD (j - 1) else a.getLsbD (j - 2) := by
    intro a j inside off off'
    have eq : expand striped.masks a = widen (l' + 1) (widen l a) := by simp [expand, sorted]
    rw [eq, getLsbD_widen (by omega) _ inside]
    by_cases first : j < l
    · rw [if_pos (by omega), getLsbD_widen (by omega) _ inside, if_pos first, if_pos first]
    · rw [if_neg first]
      by_cases second : j < l'
      · rw [if_pos (by omega), getLsbD_widen (by omega) _ inside, if_neg first, if_pos second]
        simp [show 0 < j by omega]
      · rw [if_neg (by omega), if_neg second, getLsbD_widen (by omega) _ (by omega), if_neg (by omega)]
        simp [show 0 < j by omega, show 0 < j - 1 by omega, Nat.sub_sub]
  have compressBit : ∀ a {j : Nat}, j < 64 → (compress striped.masks a).getLsbD j =
      if j < l then a.getLsbD j else if j < l' - 1 then a.getLsbD (j + 1) else a.getLsbD (j + 2) := by
    intro a j inside
    have eq : compress striped.masks a = close (l' - 1) (close l a) := by simp [compress, sorted]
    rw [eq, getLsbD_close (by omega) _ inside]
    by_cases first : j < l
    · rw [if_pos (by omega), getLsbD_close (by omega) _ inside, if_pos first, if_pos first]
    · rw [if_neg first]
      by_cases second : j < l' - 1
      · rw [if_pos second, getLsbD_close (by omega) _ inside, if_neg first, if_pos second]
      · rw [if_neg second, if_neg second]
        by_cases last : j + 1 < 64
        · rw [getLsbD_close (by omega) _ last, if_neg (by omega)]
        · rw [BitVec.getLsbD_of_ge _ _ (by omega), BitVec.getLsbD_of_ge _ _ (by omega)]
  refine striped.exact_of_inverse each ?_ ?_
  · intro x small b agree
    rw [striped.agreeOff_iff, sorted] at agree
    rw [double] at small
    have agreeAt : ∀ j, j < 64 → j ≠ l → j ≠ l' → b.getLsbD j = (expand striped.masks x).getLsbD j :=
      fun j _ off off' => agree j (by simp [off, off'])
    refine BitVec.eq_of_getLsbD_eq fun j inside => ?_
    rw [compressBit b inside]
    by_cases first : j < l
    · rw [if_pos first, agreeAt j inside (by omega) (by omega), expandBit x inside (by omega) (by omega), if_pos first]
    · rw [if_neg first]
      by_cases second : j < l' - 1
      · rw [if_pos second, agreeAt (j + 1) (by omega) (by omega) (by omega),
          expandBit x (by omega) (by omega) (by omega), if_neg (by omega), if_pos (by omega), Nat.add_sub_cancel]
      · rw [if_neg second]
        by_cases last : j + 2 < 64
        · rw [agreeAt (j + 2) last (by omega) (by omega), expandBit x last (by omega) (by omega),
            if_neg (by omega), if_neg (by omega), Nat.add_sub_cancel]
        · rw [BitVec.getLsbD_of_ge b _ (by omega), getLsbD_of_small small (by omega)]
  · intro a
    rw [striped.agreeOff_iff, sorted]
    intro j off
    have other : j ≠ l ∧ j ≠ l' := by simpa using off
    by_cases inside : j < 64
    · rw [expandBit _ inside other.1 other.2]
      by_cases first : j < l
      · rw [if_pos first, compressBit a inside, if_pos first]
      · rw [if_neg first]
        by_cases second : j < l'
        · rw [if_pos second, compressBit a (by omega), if_neg (by omega), if_pos (by omega),
            Nat.sub_add_cancel (by omega)]
        · rw [if_neg second, compressBit a (by omega), if_neg (by omega), if_neg (by omega),
            Nat.sub_add_cancel (by omega)]
    · rw [BitVec.getLsbD_of_ge _ _ (by omega), BitVec.getLsbD_of_ge _ _ (by omega)]

theorem exact_of_handled (handled : striped.Handled) : striped.Exact := by
  obtain ⟨few, each⟩ := handled
  have length : (masksLsb striped.masks).length = striped.masks.length := by
    rw [masksLsb, (List.perm_insertionSort (· ≤ ·) _).length_eq, List.length_map]
  have some := List.length_pos_iff.mpr striped.striped
  match sorted : masksLsb striped.masks with
  | [] => simp [sorted] at length; omega
  | [l] => exact striped.exact_of_one each sorted
  | [l, l'] => exact striped.exact_of_two each sorted
  | _ :: _ :: _ :: _ => simp [sorted] at length; omega

/-! ### Where it fails -/

variable {striped}

theorem Exact.low (exact : striped.Exact) : ∀ m ∈ striped.masks, ctz64 m ≤ 31 := by
  intro m member
  by_contra high
  obtain ⟨y, defined, -⟩ := exact.2 0 (Nat.two_pow_pos _)
  rw [striped.addIntlvBits_eq_none member (by omega)] at defined
  exact absurd defined (by simp)

theorem parity_bitAt {h : Nat} (inside : h < 64) : parity (bitAt 64 h) = true := by
  rw [parity_split _ inside]
  simp [inside]

theorem Exact.single (exact : striped.Exact) {m : Addr} (member : m ∈ striped.masks) (lowest : ctz64 m = 31) :
    m = bitAt 64 31 := by
  obtain ⟨-, set, below⟩ := ctz64_spec (striped.nonzero m member)
  rw [lowest] at set below
  refine BitVec.eq_of_getLsbD_eq fun h inside => ?_
  rw [getLsbD_bitAt]
  by_cases isLowest : h = 31
  · rw [isLowest, set]
    rfl
  · -- the address of the stripe with bit `h`, and without the other unchecked bits
    suffices unset : m.getLsbD h = false by simp [unset, isLowest]
    by_contra hm
    rw [Bool.not_eq_false] at hm
    obtain ⟨i, found⟩ := List.mem_iff_getElem?.mp member
    have entry : (m, i) ∈ striped.masks.zipIdx := List.mem_zipIdx_iff_getElem?.mpr found
    have separated := striped.separated_trueChecks
    let a := settle striped.trueChecks (bitAt 64 h)
    have meets : Meets striped.trueChecks a := separated.settle_meets
    have wanted := meets _ (List.mem_map.mpr ⟨(m, i), entry, rfl⟩)
    have odd : parity (a &&& (striped.trueCheck (m, i)).rest) = true := by
      rw [separated.and_rest_eq (settle_agreeOff separated.inside) (List.mem_map.mpr ⟨(m, i), entry, rfl⟩)]
      have inRest : bitAt 64 h &&& (striped.trueCheck (m, i)).rest = bitAt 64 h := by
        refine BitVec.eq_of_getLsbD_eq fun j bound => ?_
        by_cases same : j = h
        · subst same
          simp [trueCheck, lowest, bound, hm, isLowest, -BitVec.getLsbD_eq_getElem]
        · simp [same]
      rw [inRest, parity_bitAt inside]
    -- what the code returns has the bare bit of `intlvMatch` at 31
    have low := exact.low
    have returned := exact.1 a ((striped.meets_iff a striped.fits striped.nonzero).mp meets)
    rw [striped.removeIntlvBits_eq, Option.bind_some, striped.addIntlvBits_eq low, Option.some.injEq] at returned
    have given : Meets striped.codeChecks a := by
      rw [← returned]
      exact (striped.separated_codeChecks low).settle_meets
    have bare := given _ (List.mem_map.mpr ⟨(m, i), entry, rfl⟩)
    have nothing : (striped.codeCheck (m, i)).rest = 0#64 := by
      refine BitVec.eq_of_getLsbD_eq fun j bound => ?_
      by_cases under : j < 31
      · simp [codeCheck, lowest, below j under, -BitVec.getLsbD_eq_getElem]
      · have cut : (0x7fffffff#64).getLsbD j = false := by
          have high : 31 ≤ j := by omega
          exact Nat.testBit_lt_two_pow (Nat.lt_of_lt_of_le (by decide) (Nat.pow_le_pow_right (by decide) high))
        simp [codeCheck, lowest, cut, -BitVec.getLsbD_eq_getElem]
    rw [nothing, BitVec.and_zero, parity_zero, Bool.xor_false] at bare
    rw [odd] at wanted
    have clash : striped.intlvMatch.toNat.testBit i = (striped.intlvMatch.toNat.testBit i ^^ true) :=
      bare.symm.trans wanted
    simp at clash

theorem widen_zero (n : Nat) : widen n 0 = 0 := by simp [widen, splice]

theorem expand_zero (masks : List Addr) : expand masks 0 = 0 := by
  rw [expand]
  induction (masksLsb masks).zipIdx with
  | nil => rfl
  | cons entry rest ih => rwa [List.foldl_cons, widen_zero]

/-- Only these two bits may be set. -/
def OnlyAt (p q : Nat) (a : Addr) : Prop := ∀ j, a.getLsbD j = true → j = p ∨ j = q

theorem OnlyAt.widen {p q n : Nat} {a : Addr} (only : OnlyAt p q a) (fits : n ≤ 64) (aboveP : p + 1 < n)
    (aboveQ : q + 1 < n) : OnlyAt p q (widen n a) := by
  intro j set
  rw [getLsbD_widen fits a (BitVec.lt_of_getLsbD set)] at set
  split at set
  · exact only j set
  · rw [Bool.and_eq_true] at set
    have := only (j - 1) set.2
    omega

theorem OnlyAt.foldl_widen {p q : Nat} {entries : List (Nat × Nat)} {a : Addr} (only : OnlyAt p q a)
    (each : ∀ entry ∈ entries, entry.1 + entry.2 ≤ 64 ∧ p + 1 < entry.1 + entry.2 ∧ q + 1 < entry.1 + entry.2) :
    OnlyAt p q (entries.foldl (fun a entry => Gem5.widen (entry.1 + entry.2) a) a) := by
  induction entries generalizing a with
  | nil => exact only
  | cons entry rest ih =>
    obtain ⟨fits, aboveP, aboveQ⟩ := each entry (List.mem_cons_self ..)
    exact ih (only.widen fits aboveP aboveQ) fun later member => each later (.tail _ member)

theorem expand_onlyAt {l₀ l₁ l₂ : Nat} {rest : List Nat}
    (sorted : masksLsb masks = l₀ :: l₁ :: l₂ :: rest) (increasing : (masksLsb masks).Pairwise (· < ·))
    (low : ∀ l ∈ masksLsb masks, l ≤ 31) : OnlyAt l₁ l₂ (expand masks (bitAt 64 (l₂ - 2))) := by
  have order : ∀ entry ∈ (masksLsb masks).zipIdx, entry.2 ≤ entry.1 :=
    index_le increasing 0 fun _ _ => Nat.zero_le _
  rw [sorted] at increasing low order
  obtain ⟨above₀, increasing₁⟩ := List.pairwise_cons.mp increasing
  obtain ⟨above₁, increasing₂⟩ := List.pairwise_cons.mp increasing₁
  obtain ⟨above₂, -⟩ := List.pairwise_cons.mp increasing₂
  have less₀ : l₀ < l₁ := above₀ l₁ (List.mem_cons_self ..)
  have less₁ : l₁ < l₂ := above₁ l₂ (List.mem_cons_self ..)
  have bound : l₂ ≤ 31 := low l₂ (by simp)
  rw [expand, sorted, List.zipIdx_cons, List.zipIdx_cons, List.zipIdx_cons]
  simp only [List.foldl_cons]
  refine OnlyAt.foldl_widen (OnlyAt.widen ?_ (by omega) (by omega) (by omega)) ?_
  · -- after two rounds
    intro j set
    rw [getLsbD_widen (by omega) _ (BitVec.lt_of_getLsbD set)] at set
    have inner : ∀ {k : Nat}, (widen (l₀ + 0) (bitAt 64 (l₂ - 2))).getLsbD k = true → k = l₂ - 1 := by
      intro k inside
      rw [getLsbD_widen (by omega) _ (BitVec.lt_of_getLsbD inside)] at inside
      split at inside
      · rw [getLsbD_bitAt, Bool.and_eq_true, decide_eq_true_eq, decide_eq_true_eq] at inside
        omega
      · rw [Bool.and_eq_true, getLsbD_bitAt, Bool.and_eq_true, decide_eq_true_eq, decide_eq_true_eq,
          decide_eq_true_eq] at inside
        omega
    split at set
    · have := inner set
      omega
    · rw [Bool.and_eq_true, decide_eq_true_eq] at set
      have := inner set.2
      omega
  · intro entry member
    have inRest : entry.1 ∈ rest := List.fst_mem_of_mem_zipIdx member
    have above := above₂ entry.1 inRest
    have small := low entry.1 (by simp [inRest])
    have index : 3 ≤ entry.2 := List.le_snd_of_mem_zipIdx member
    have least := order entry (by simp [List.zipIdx_cons, member])
    omega

theorem Exact.few (exact : striped.Exact) : striped.masks.length ≤ 2 := by
  have low : ∀ l ∈ masksLsb striped.masks, l ≤ 31 := by
    intro l member
    obtain ⟨m, inside, rfl⟩ := List.mem_map.mp (mem_masksLsb.mp member)
    exact exact.low m inside
  have increasing := masksLsb_increasing striped.distinct
  have length : (masksLsb striped.masks).length = striped.masks.length := by
    rw [masksLsb, (List.perm_insertionSort (· ≤ ·) _).length_eq, List.length_map]
  match sorted : masksLsb striped.masks with
  | [] | [_] | [_, _] => simp [sorted] at length; omega
  | l₀ :: l₁ :: l₂ :: rest =>
    exfalso
    have only := expand_onlyAt sorted increasing low
    have bound : l₂ ≤ 31 := low l₂ (by simp [sorted])
    have size : striped.masks.length ≤ 32 := by
      have subset : masksLsb striped.masks ⊆ List.range 32 := fun l member =>
        List.mem_range.mpr (Nat.lt_succ_of_le (low l member))
      have nodup : (masksLsb striped.masks).Nodup := increasing.imp Nat.ne_of_lt
      simpa [length] using (List.subperm_of_subset nodup subset).length_le
    have value : (bitAt 64 (l₂ - 2)).toNat = 2 ^ (l₂ - 2) := by
      have power : 2 ^ (l₂ - 2) < 2 ^ 64 := Nat.pow_lt_pow_right (by decide) (by omega)
      rw [bitAt, BitVec.toNat_shiftLeft, Nat.shiftLeft_eq]
      simpa using power
    -- the bit under the third gap is lost, so that two addresses are sent to one
    have same : striped.addIntlvBits (bitAt 64 (l₂ - 2)) = striped.addIntlvBits 0 := by
      rw [striped.addIntlvBits_eq exact.low, striped.addIntlvBits_eq exact.low, expand_zero]
      refine congrArg some ((striped.separated_codeChecks exact.low).settle_congr ?_)
      rw [agreeOff_checks_iff, striped.agreeOff_iff, sorted]
      intro j off
      have unset : (expand striped.masks (bitAt 64 (l₂ - 2))).getLsbD j = false := by
        by_contra set
        rw [Bool.not_eq_false] at set
        rcases only j set with rfl | rfl <;> simp at off
      rw [unset, BitVec.ofNat_eq_ofNat, BitVec.getLsbD_zero]
    have power : 2 ^ (l₂ - 2) < 2 ^ (64 - striped.masks.length) := Nat.pow_lt_pow_right (by decide) (by omega)
    obtain ⟨y, addX, -, removeX⟩ := exact.2 (bitAt 64 (l₂ - 2)) (by rw [value]; exact power)
    obtain ⟨z, addZero, -, removeZero⟩ := exact.2 0 (Nat.two_pow_pos _)
    rw [same, addZero, Option.some.injEq] at addX
    rw [← addX, removeZero, Option.some.injEq] at removeX
    have zero := congrArg BitVec.toNat removeX
    rw [value] at zero
    exact absurd zero (Nat.ne_of_lt (Nat.two_pow_pos _))

/-- **Exactness.** Removing the interleaving bits of an address of the stripe and adding them again gives it back, and
adding them to an address with enough zeros on top gives an address of the stripe from which they can be removed again,
if and only if there are at most two masks and each has its lowest bit below 31, or is the bit 31 alone. -/
theorem exact_iff (striped : Interleaved) : striped.Exact ↔ striped.Handled := by
  refine ⟨fun exact => ⟨exact.few, fun m member => ?_⟩, striped.exact_of_handled⟩
  have low := exact.low m member
  by_cases below : ctz64 m < 31
  · exact .inl below
  · exact .inr (exact.single member (by omega))

/-- Eight stripes, of 256 bytes each. -/
def eight : Interleaved where
  startAddr := 0
  endAddr := 0x10000
  masks := [0x100, 0x200, 0x400]
  intlvMatch := 5
  striped := by decide
  fits := by decide
  nonzero := by simp
  distinct := by decide +kernel
  separate := by decide +kernel

/-- **A lost bit.** With three masks the address 0x100 and the address 0 are sent to the same address of the stripe. -/
theorem eight_loses_bit :
    eight.addIntlvBits 0x100 = some 0x500 ∧ eight.removeIntlvBits 0x500 = some 0 ∧ ¬ eight.Exact := by
  refine ⟨rfl, rfl, fun exact => ?_⟩
  exact absurd exact.few (by decide)

end Interleaved

end AddrRange

end Emas.Gem5

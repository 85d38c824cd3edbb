/-
**The stripes of an interleaved range.**

The legacy constructor of `AddrRange` builds masks of one bit, or of two with XOR hashing, at consecutive positions.
An address then belongs to the stripe that its middle bits and the hash of its block say (`selector_eq`), and
`removeIntlvBits` is its place there (`removeIntlvBits_place`), so that the range is an instance of `Striping`.

* `stripes_partition` — **the stripes partition the range**, the merging constructor gives their union, and
  `getOffset` numbers the addresses of each stripe from 0 to its size, in order.

The matching value is a `uint8_t`, so there are at most 256 stripes; and a range that ends before it starts has a size.
-/

import Emas.Gem5.IntlvBits
import Emas.Lib.MixedRadix

namespace Emas.Gem5.AddrRange

open Bits

/-! ### The layout of the masks -/

/-- The mask of selector bit `index`: a low bit and, with hashing, a bit further up. -/
def stripeMask (low : Nat) (up : Option Nat) (index : Nat) : Addr :=
  match up with
  | none => bitAt 64 (low + index)
  | some high => bitAt 64 (low + index) ||| bitAt 64 (high + index)

/-- Masks at consecutive positions that do not overlap. -/
structure Layout (masks : List Addr) where
  low : Nat
  up : Option Nat
  width : Nat
  masks_eq : masks = (List.range width).map (stripeMask low up)
  low_le : low + width ≤ 64
  up_le : ∀ high ∈ up, low + width ≤ high ∧ high + width ≤ 64

theorem map_eq_of_mapM {α β : Type} {f : α → Option β} {l : List α} {l' : List β} (same : l.mapM f = some l') :
    l.map f = l'.map some := by
  induction l generalizing l' with
  | nil =>
    obtain rfl : [] = l' := by simpa using same
    rfl
  | cons a rest ih =>
    simp only [List.mapM_cons, Option.bind_eq_bind, Option.pure_def, Option.bind_eq_some_iff, Option.some.injEq] at same
    obtain ⟨b, head, tail, others, rfl⟩ := same
    rw [List.map_cons, List.map_cons, head, ih others]

theorem countdown {high : UInt8} {i : Nat} (small : i < 64) (bit : (high - UInt8.ofNat i).toNat < 64) :
    i ≤ high.toNat ∧ (high - UInt8.ofNat i).toNat = high.toNat - i := by
  have bound := high.toNat_lt
  have byte : (UInt8.ofNat i).toNat = i := by
    rw [UInt8.toNat_ofNat']
    omega
  rw [UInt8.toNat_sub, byte] at bit ⊢
  omega

theorem legacyMasks_layout {intlvHighBit xorHighBit : UInt8} {width : Nat} {masks : List Addr} (striped : width ≠ 0)
    (bound : width < 64) (defined : legacyMasks intlvHighBit xorHighBit width = some masks)
    (apart : xorHighBit ≠ 0 → intlvHighBit.toNat + width ≤ xorHighBit.toNat ∨
      xorHighBit.toNat + width ≤ intlvHighBit.toNat) : ∃ layout : Layout masks, layout.width = width := by
  have rounds := map_eq_of_mapM defined
  have each : ∀ index < width, ∃ m, legacyMask intlvHighBit xorHighBit (width - index - 1) = some m := by
    intro index inside
    have member := List.mem_map_of_mem (f := fun index => legacyMask intlvHighBit xorHighBit (width - index - 1))
      (List.mem_range.mpr inside)
    rw [rounds] at member
    obtain ⟨m, -, same⟩ := List.mem_map.mp member
    exact ⟨m, same.symm⟩
  have bits : ∀ index < width, (intlvHighBit - UInt8.ofNat (width - index - 1)).toNat < 64 ∧
      (xorHighBit = 0 ∨ (xorHighBit - UInt8.ofNat (width - index - 1)).toNat < 64) := by
    intro index inside
    obtain ⟨m, same⟩ := each index inside
    by_contra undefined
    rw [legacyMask, if_neg undefined] at same
    exact absurd same (by simp)
  -- no bit has wrapped, and the last round takes the high bits themselves
  have placed : ∀ high : UInt8, (∀ index < width, (high - UInt8.ofNat (width - index - 1)).toNat < 64) →
      high.toNat < 64 ∧ width ≤ high.toNat + 1 ∧ ∀ index < width,
        (high - UInt8.ofNat (width - index - 1)).toNat = high.toNat + 1 - width + index := by
    intro high defined
    have first := (countdown (by omega) (defined 0 (by omega))).1
    have last := countdown (by omega) (defined (width - 1) (by omega))
    have whole := defined (width - 1) (by omega)
    refine ⟨by omega, by omega, fun index inside => ?_⟩
    rw [(countdown (by omega) (defined index inside)).2]
    omega
  obtain ⟨highBound, highWidth, highBits⟩ := placed intlvHighBit fun index inside => (bits index inside).1
  have masksEq : ∀ {low up}, (∀ index < width,
      legacyMask intlvHighBit xorHighBit (width - index - 1) = some (stripeMask low up index)) →
      masks = (List.range width).map (stripeMask low up) := by
    intro low up each
    have same : masks.map some = ((List.range width).map (stripeMask low up)).map some := by
      rw [← rounds, List.map_map]
      exact List.map_congr_left fun index inside => each index (List.mem_range.mp inside)
    exact List.map_injective_iff.mpr (Option.some_injective _) same
  by_cases noXor : xorHighBit = 0
  · refine ⟨⟨intlvHighBit.toNat + 1 - width, none, width, masksEq fun index inside => ?_, by omega, by simp⟩, rfl⟩
    rw [legacyMask, if_pos (bits index inside), if_pos noXor, highBits index inside, stripeMask]
  · obtain ⟨xorBound, xorWidth, xorBits⟩ :=
      placed xorHighBit fun index inside => (bits index inside).2.resolve_left noXor
    have mask : ∀ index < width, legacyMask intlvHighBit xorHighBit (width - index - 1) =
        some (bitAt 64 (intlvHighBit.toNat + 1 - width + index) |||
          bitAt 64 (xorHighBit.toNat + 1 - width + index)) := by
      intro index inside
      rw [legacyMask, if_pos (bits index inside), if_neg noXor, highBits index inside, xorBits index inside]
    rcases apart noXor with above | below
    · refine ⟨⟨intlvHighBit.toNat + 1 - width, some (xorHighBit.toNat + 1 - width), width, masksEq mask,
        by omega, fun high member => ?_⟩, rfl⟩
      obtain rfl := Option.some.inj member
      omega
    · refine ⟨⟨xorHighBit.toNat + 1 - width, some (intlvHighBit.toNat + 1 - width), width,
        masksEq fun index inside => ?_, by omega, fun high member => ?_⟩, rfl⟩
      · rw [mask index inside, stripeMask, BitVec.or_comm]
      · obtain rfl := Option.some.inj member
        omega

/-- What the checks of the constructor leave. -/
theorem accepted_layout {startAddr endAddr : Addr} {intlvHighBit xorHighBit intlvBits intlvMatch : UInt8}
    {range : AddrRange} (accepted : legacy startAddr endAddr intlvHighBit xorHighBit intlvBits intlvMatch = .ok range) :
    range.startAddr = startAddr ∧ range.endAddr = endAddr ∧ range.intlvMatch = intlvMatch ∧
      (∃ layout : Layout range.masks, layout.width = intlvBits.toNat ∧ (layout.width = 0 → layout.low = 0)) ∧
      ∀ other : UInt8, other.toNat < 2 ^ intlvBits.toNat →
        legacy startAddr endAddr intlvHighBit xorHighBit intlvBits other = .ok { range with intlvMatch := other } := by
  unfold legacy at accepted
  split at accepted
  · exact absurd accepted (by simp)
  · rename_i small
    split at accepted
    · exact absurd accepted (by simp)
    · rename_i fits
      cases apart : checkXor intlvHighBit xorHighBit intlvBits with
      | some fatal => simp [apart] at accepted
      | none =>
        cases defined : legacyMasks intlvHighBit xorHighBit intlvBits.toNat with
        | none => simp [apart, defined] at accepted
        | some masks =>
          obtain rfl : (⟨startAddr, endAddr, masks, intlvMatch⟩ : AddrRange) = range := by
            simpa [apart, defined] using accepted
          refine ⟨rfl, rfl, rfl, ?_, fun other inside => ?_⟩
          · by_cases none : intlvBits = 0
            · subst none
              obtain rfl : [] = masks := by simpa [legacyMasks] using defined
              exact ⟨⟨0, .none, 0, rfl, by decide, by simp⟩, rfl, fun _ => rfl⟩
            · have positive : intlvBits.toNat ≠ 0 := fun zero => none (UInt8.toNat_inj.mp zero)
              suffices apart : xorHighBit ≠ 0 → intlvHighBit.toNat + intlvBits.toNat ≤ xorHighBit.toNat ∨
                  xorHighBit.toNat + intlvBits.toNat ≤ intlvHighBit.toNat by
                obtain ⟨layout, width⟩ := legacyMasks_layout positive (by omega) defined apart
                exact ⟨layout, width, fun zero => absurd (width.symm.trans zero) positive⟩
              intro noXor
              rw [checkXor, if_pos ⟨none, noXor⟩] at apart
              split at apart
              · exact absurd apart (by simp)
              · split at apart
                · split at apart
                  · exact absurd apart (by simp)
                  · omega
                · split at apart
                  · exact absurd apart (by simp)
                  · omega
          · rw [legacy, if_neg small, if_neg (by omega), apart, defined]

/-! ### Selectors and places -/

namespace Layout

variable {masks : List Addr} (layout : Layout masks)

/-- The hash of a block: its bits at the upper positions. -/
def hash (block : Nat) : Nat :=
  match layout.up with
  | none => 0
  | some high => block / 2 ^ (high - layout.low - layout.width) % 2 ^ layout.width

def striping : Striping where
  low := layout.low
  width := layout.width
  hash := layout.hash
  hash_lt block := by
    unfold hash
    cases layout.up with
    | none => exact Nat.two_pow_pos _
    | some high => exact Nat.mod_lt _ (Nat.two_pow_pos _)

theorem parity_and_bitAt (a : Addr) {p : Nat} (inside : p < 64) : parity (a &&& bitAt 64 p) = a.getLsbD p := by
  have cleared : a &&& bitAt 64 p &&& ~~~ bitAt 64 p = 0#64 := by
    rw [BitVec.and_assoc, BitVec.and_not_self]
    exact BitVec.and_zero
  rw [parity_split _ inside, cleared, parity_zero, Bool.xor_false, BitVec.getLsbD_and, getLsbD_bitAt]
  simp [inside, -BitVec.getLsbD_eq_getElem]

theorem parity_and_bits (a : Addr) {p q : Nat} (insideP : p < 64) (insideQ : q < 64) (other : p ≠ q) :
    parity (a &&& (bitAt 64 p ||| bitAt 64 q)) = (a.getLsbD p ^^ a.getLsbD q) := by
  have cleared : a &&& (bitAt 64 p ||| bitAt 64 q) &&& ~~~ bitAt 64 p = a &&& bitAt 64 q := by
    refine BitVec.eq_of_getLsbD_eq fun j inside => ?_
    by_cases first : j = p
    · subst first
      simp [other, inside, -BitVec.getLsbD_eq_getElem]
    · simp [first, inside, -BitVec.getLsbD_eq_getElem]
  rw [parity_split _ insideP, cleared, parity_and_bitAt a insideQ, BitVec.getLsbD_and, BitVec.getLsbD_or,
    getLsbD_bitAt, getLsbD_bitAt]
  simp [insideP, -BitVec.getLsbD_eq_getElem]

theorem parity_stripeMask (a : Addr) {index : Nat} (inside : index < layout.width) :
    parity (a &&& stripeMask layout.low layout.up index) = (a.getLsbD (layout.low + index) ^^
        match layout.up with
        | none => false
        | some high => a.getLsbD (high + index)) := by
  have bound := layout.low_le
  cases found : layout.up with
  | none => rw [stripeMask, parity_and_bitAt a (by omega), Bool.xor_false]
  | some high =>
    have apart := layout.up_le high found
    exact parity_and_bits a (by omega) (by omega) (by omega)

theorem getElem?_masks (index : Nat) :
    masks[index]? = if index < layout.width then some (stripeMask layout.low layout.up index) else none := by
  have same := congrArg (·[index]?) layout.masks_eq
  simp only [List.getElem?_map] at same
  rw [same]
  by_cases inside : index < layout.width
  · rw [List.getElem?_range inside, if_pos inside, Option.map_some]
  · rw [List.getElem?_eq_none (by simpa using inside), if_neg inside, Option.map_none]

theorem testBit_hash (a : Addr) {index : Nat} (inside : index < layout.width) :
    (layout.hash (a.toNat / 2 ^ (layout.low + layout.width))).testBit index =
      match layout.up with
      | none => false
      | some high => a.getLsbD (high + index) := by
  unfold hash
  cases found : layout.up with
  | none => exact Nat.zero_testBit _
  | some high =>
    have apart := (layout.up_le high found).1
    have position : index + (high - layout.low - layout.width) + (layout.low + layout.width) = high + index := by
      omega
    rw [Nat.testBit_mod_two_pow, Nat.testBit_div_two_pow, Nat.testBit_div_two_pow, position,
      decide_eq_true inside, Bool.true_and]
    rfl

/-- **The selector of an address is its stripe.** -/
theorem selector_eq (a : Addr) : selector masks a = layout.striping.stripe a.toNat := by
  refine Nat.eq_of_testBit_eq fun j => ?_
  rw [selector, testBit_selector, Nat.sub_zero, layout.getElem?_masks, Nat.zero_testBit, Bool.false_or,
    decide_eq_true (Nat.zero_le j), Bool.true_and]
  by_cases inside : j < layout.width
  · rw [if_pos inside, Option.map_some, Option.getD_some, layout.parity_stripeMask a inside, Striping.stripe,
      Nat.testBit_xor, Striping.middle]
    have middle : (a.toNat / 2 ^ layout.low % 2 ^ layout.width).testBit j = a.getLsbD (layout.low + j) := by
      rw [Nat.testBit_mod_two_pow, Nat.testBit_div_two_pow, decide_eq_true inside, Bool.true_and, Nat.add_comm]
      rfl
    exact congrArg₂ (· ^^ ·) middle.symm (layout.testBit_hash a inside).symm
  · rw [if_neg inside]
    have beyond : layout.striping.stripe a.toNat < 2 ^ j :=
      Nat.lt_of_lt_of_le (layout.striping.stripe_lt _) (Nat.pow_le_pow_right (by decide) (Nat.le_of_not_lt inside))
    rw [Nat.testBit_lt_two_pow beyond]
    rfl

/-! ### Places -/

theorem ctz64_eq {m : Addr} {l : Nat} (set : m.getLsbD l = true) (below : ∀ j < l, m.getLsbD j = false) :
    ctz64 m = l := by
  have nonzero : m ≠ 0 := by
    rintro rfl
    simp at set
  obtain ⟨-, lowest, under⟩ := ctz64_spec nonzero
  rcases Nat.lt_trichotomy (ctz64 m) l with less | same | greater
  · rw [below _ less] at lowest
    exact absurd lowest (by simp)
  · exact same
  · rw [under l greater] at set
    exact absurd set (by simp)

theorem ctz64_stripeMask {index : Nat} (inside : index < layout.width) :
    ctz64 (stripeMask layout.low layout.up index) = layout.low + index := by
  have bound := layout.low_le
  cases found : layout.up with
  | none => exact ctz64_eq (by simp [stripeMask]; omega) fun j less => by simp [stripeMask]; omega
  | some high =>
    have apart := layout.up_le high found
    exact ctz64_eq (by simp [stripeMask]; omega) fun j less => by simp [stripeMask]; omega

theorem masksLsb_eq : masksLsb masks = (List.range layout.width).map (layout.low + ·) := by
  have lowest : masks.map ctz64 = (List.range layout.width).map (layout.low + ·) := by
    have same := congrArg (List.map ctz64) layout.masks_eq
    rw [same, List.map_map]
    exact List.map_congr_left fun index inside => layout.ctz64_stripeMask (List.mem_range.mp inside)
  have sorted : ((List.range layout.width).map (layout.low + ·)).Pairwise (· ≤ ·) :=
    List.pairwise_map.mpr (List.pairwise_lt_range.imp fun less => by omega)
  rw [masksLsb, lowest, sorted.insertionSort_eq]

theorem getLsbD_iterate_close {low : Nat} (fits : low ≤ 64) (a : Addr) (count : Nat) {j : Nat} (bound : j < 64) :
    ((close low)^[count] a).getLsbD j = if j < low then a.getLsbD j else a.getLsbD (j + count) := by
  induction count generalizing j with
  | zero => simp
  | succ count ih =>
    rw [Function.iterate_succ_apply', getLsbD_close fits _ bound]
    by_cases below : j < low
    · rw [if_pos below, if_pos below, ih bound, if_pos below]
    · rw [if_neg below, if_neg below]
      by_cases last : j + 1 < 64
      · rw [ih last, if_neg (by omega), Nat.add_right_comm, Nat.add_assoc]
      · rw [BitVec.getLsbD_of_ge _ _ (by omega), BitVec.getLsbD_of_ge _ _ (by omega)]

theorem foldl_close (low count : Nat) (a : Addr) :
    (((List.range count).map (low + ·)).zipIdx).foldl (fun a entry => close (entry.1 - entry.2) a) a =
      (close low)^[count] a := by
  induction count with
  | zero => rfl
  | succ count ih =>
    rw [List.range_succ, List.map_append, List.zipIdx_append, List.foldl_append, ih, Function.iterate_succ_apply']
    simp

/-- **`removeIntlvBits` is the place of an address.** -/
theorem removeIntlvBits_place {range : AddrRange} (layout : Layout range.masks) (a : Addr) :
    ∃ offset, range.removeIntlvBits a = some offset ∧ offset.toNat = layout.striping.place a.toNat := by
  have bound := layout.low_le
  refine ⟨(close layout.low)^[layout.width] a, ?_, ?_⟩
  · rw [removeIntlvBits, layout.masksLsb_eq, ← foldl_close]
    refine foldlM_eq (fun entry member a => ?_) a
    have found := List.mem_zipIdx_iff_getElem?.mp member
    rw [List.getElem?_map] at found
    by_cases inside : entry.2 < layout.width
    · rw [List.getElem?_range inside, Option.map_some, Option.some.injEq] at found
      exact removeStep_eq (by omega) (by omega) a
    · rw [List.getElem?_eq_none (by simpa using inside)] at found
      exact absurd found (by simp)
  · refine Nat.eq_of_testBit_eq fun j => ?_
    have lower : a.toNat % 2 ^ layout.low < 2 ^ layout.low := Nat.mod_lt _ (Nat.two_pow_pos _)
    have placeBit : (layout.striping.place a.toNat).testBit j =
        if j < layout.low then a.getLsbD j else a.getLsbD (j + layout.width) := by
      show (a.toNat / 2 ^ (layout.low + layout.width) * 2 ^ layout.low + a.toNat % 2 ^ layout.low).testBit j = _
      rw [Nat.mul_comm, Nat.testBit_two_pow_mul_add _ lower]
      by_cases below : j < layout.low
      · rw [if_pos below, if_pos below, Nat.testBit_mod_two_pow, decide_eq_true below, Bool.true_and]
        rfl
      · have position : j - layout.low + (layout.low + layout.width) = j + layout.width := by omega
        rw [if_neg below, if_neg below, Nat.testBit_div_two_pow, position]
        rfl
    rw [placeBit]
    by_cases inside : j < 64
    · exact getLsbD_iterate_close (by omega) a layout.width inside
    · rw [if_neg (by omega), BitVec.getLsbD_of_ge _ _ (by omega)]
      exact BitVec.getLsbD_of_ge _ _ (by omega)

end Layout

/-! ### The partition -/

/-- The number of low bits that are zero in a multiple of 2 to the highest mask bit and one. -/
def alignment (masks : List Addr) : Nat := (masks.map fun m => m.toNat.log2 + 1).foldr max 0

/-- The stripe with the given match value. -/
def withMatch (range : AddrRange) (intlvMatch : Nat) : AddrRange :=
  { range with intlvMatch := UInt8.ofNat intlvMatch }

/-- `getOffset` numbers the addresses of the range from 0 to its size, in order. -/
structure Compact (range : AddrRange) : Prop where
  offset_lt : ∀ a, range.contains a = true → ∃ offset, range.getOffset a = some offset ∧ offset < range.size
  increasing : ∀ a b offset offset', range.contains a = true → range.contains b = true → a < b →
    range.getOffset a = some offset → range.getOffset b = some offset' → offset < offset'
  surjective : ∀ offset < range.size, ∃ a, range.contains a = true ∧ range.getOffset a = some offset

theorem le_alignment {masks : List Addr} {m : Addr} (member : m ∈ masks) {bit : Nat} (set : m.getLsbD bit = true) :
    bit + 1 ≤ alignment masks := by
  have power : 2 ^ bit ≤ m.toNat := Nat.ge_two_pow_of_testBit set
  have log : bit ≤ m.toNat.log2 := (Nat.le_log2 (by have := Nat.two_pow_pos bit; omega)).mpr power
  induction masks with
  | nil => exact absurd member List.not_mem_nil
  | cons head rest ih =>
    rcases List.mem_cons.mp member with rfl | later
    · exact Nat.le_trans (Nat.succ_le_succ log) (Nat.le_max_left ..)
    · exact Nat.le_trans (ih later) (Nat.le_max_right ..)

namespace Layout

variable {range : AddrRange} (layout : Layout range.masks)

theorem block_le_alignment : layout.low + layout.width ≤ alignment range.masks ∨ layout.width = 0 := by
  by_cases none : layout.width = 0
  · exact .inr none
  · refine .inl ?_
    have inside : layout.width - 1 < layout.width := by omega
    have member : stripeMask layout.low layout.up (layout.width - 1) ∈ range.masks := by
      refine List.mem_iff_getElem?.mpr ⟨layout.width - 1, ?_⟩
      rw [layout.getElem?_masks, if_pos inside]
    have bound := layout.low_le
    have set : (stripeMask layout.low layout.up (layout.width - 1)).getLsbD (layout.low + (layout.width - 1)) =
        true := by
      cases layout.up <;> simp [stripeMask] <;> omega
    have := le_alignment member set
    omega

theorem length_masks : range.masks.length = layout.width := by
  have same := congrArg List.length layout.masks_eq
  rwa [List.length_map, List.length_range] at same

theorem place_start (s : Nat) : layout.striping.place (s * 2 ^ (layout.low + layout.width)) = s * 2 ^ layout.low := by
  have block : s * 2 ^ (layout.low + layout.width) / 2 ^ (layout.low + layout.width) = s :=
    Nat.mul_div_cancel _ (Nat.two_pow_pos _)
  have lower : s * 2 ^ (layout.low + layout.width) % 2 ^ layout.low = 0 := by
    rw [Nat.pow_add, ← Nat.mul_assoc, Nat.mul_right_comm, Nat.mul_mod_left]
  show s * 2 ^ (layout.low + layout.width) / 2 ^ (layout.low + layout.width) * 2 ^ layout.low +
    s * 2 ^ (layout.low + layout.width) % 2 ^ layout.low = _
  rw [block, lower, Nat.add_zero]

/-- The range consists of whole blocks. -/
structure Whole (s e : Nat) : Prop where
  start : range.startAddr.toNat = s * 2 ^ (layout.low + layout.width)
  stop : range.endAddr.toNat = e * 2 ^ (layout.low + layout.width)
  order : s ≤ e

theorem contains_iff (a : Addr) : range.contains a = true ↔
    (range.startAddr ≤ a ∧ a < range.endAddr) ∧ layout.striping.stripe a.toNat = range.intlvMatch.toNat := by
  rw [contains, layout.selector_eq]
  split
  · rename_i within
    simp [within]
  · rename_i outside
    simp [outside]

variable {layout} {s e : Nat}

namespace Whole

variable (whole : layout.Whole s e)

include whole

theorem within_iff (a : Addr) : (range.startAddr ≤ a ∧ a < range.endAddr) ↔
    s * 2 ^ layout.low ≤ layout.striping.place a.toNat ∧ layout.striping.place a.toNat < e * 2 ^ layout.low := by
  rw [BitVec.le_def, BitVec.lt_def, whole.start, whole.stop]
  exact layout.striping.place_mem_iff.symm

theorem getOffset_eq {a : Addr} (within : range.startAddr ≤ a ∧ a < range.endAddr) :
    ∃ offset, range.getOffset a = some offset ∧ offset.toNat = layout.striping.place a.toNat - s * 2 ^ layout.low := by
  have start : layout.striping.place range.startAddr.toNat = s * 2 ^ layout.low := by
    rw [whole.start, layout.place_start]
  have above := ((whole.within_iff a).mp within).1
  rw [getOffset, if_pos within]
  by_cases striped : range.interleaved = true
  · obtain ⟨x, removed, placeA⟩ := layout.removeIntlvBits_place a
    obtain ⟨base, removedStart, placeStart⟩ := layout.removeIntlvBits_place range.startAddr
    refine ⟨x - base, ?_, ?_⟩
    · rw [if_pos striped, removed, removedStart]
      rfl
    · rw [BitVec.toNat_sub_of_le (BitVec.le_def.mpr (by omega)), placeA, placeStart, start]
  · have none : layout.width = 0 := by
      rw [← layout.length_masks]
      simpa [interleaved] using striped
    have plain : ∀ n, layout.striping.place n = n := by
      intro n
      show n / 2 ^ (layout.low + layout.width) * 2 ^ layout.low + n % 2 ^ layout.low = n
      rw [none, Nat.add_zero, Nat.div_add_mod']
    refine ⟨a - range.startAddr, if_neg striped, ?_⟩
    rw [plain] at start ⊢
    rw [BitVec.toNat_sub_of_le within.1, start]

theorem size_eq : range.size.toNat = (e - s) * 2 ^ layout.low := by
  have order : range.startAddr ≤ range.endAddr := by
    rw [BitVec.le_def, whole.start, whole.stop]
    exact Nat.mul_le_mul_right _ whole.order
  rw [size, BitVec.toNat_ushiftRight, BitVec.toNat_sub_of_le order, whole.start, whole.stop, layout.length_masks,
    ← Nat.sub_mul, Nat.shiftRight_eq_div_pow, Nat.pow_add, ← Nat.mul_assoc, Nat.mul_div_cancel _ (Nat.two_pow_pos _)]

/-- **A stripe is compact.** -/
theorem compact (fits : range.intlvMatch.toNat < 2 ^ layout.width) : range.Compact where
  offset_lt a inside := by
    obtain ⟨within, -⟩ := (layout.contains_iff a).mp inside
    obtain ⟨offset, got, value⟩ := whole.getOffset_eq within
    refine ⟨offset, got, ?_⟩
    have bounds := (whole.within_iff a).mp within
    rw [BitVec.lt_def, value, whole.size_eq, Nat.sub_mul]
    omega
  increasing a b offset offset' insideA insideB less gotA gotB := by
    obtain ⟨withinA, stripeA⟩ := (layout.contains_iff a).mp insideA
    obtain ⟨withinB, stripeB⟩ := (layout.contains_iff b).mp insideB
    obtain ⟨x, got, valueA⟩ := whole.getOffset_eq withinA
    obtain ⟨y, got', valueB⟩ := whole.getOffset_eq withinB
    obtain rfl := Option.some.inj (gotA.symm.trans got)
    obtain rfl := Option.some.inj (gotB.symm.trans got')
    have order := Striping.place_lt_place (stripeA.trans stripeB.symm) (BitVec.lt_def.mp less)
    have above := ((whole.within_iff a).mp withinA).1
    rw [BitVec.lt_def, valueA, valueB]
    omega
  surjective offset less := by
    rw [BitVec.lt_def, whole.size_eq, Nat.sub_mul] at less
    have fits' : range.intlvMatch.toNat < 2 ^ layout.striping.width := fits
    let p := offset.toNat + s * 2 ^ layout.low
    have placed := Striping.place_address fits' p
    have between : s * 2 ^ (layout.low + layout.width) ≤ layout.striping.address range.intlvMatch.toNat p ∧
        layout.striping.address range.intlvMatch.toNat p < e * 2 ^ (layout.low + layout.width) := by
      refine layout.striping.place_mem_iff.mp ?_
      rw [placed]
      show s * 2 ^ layout.low ≤ p ∧ p < e * 2 ^ layout.low
      omega
    have value : (BitVec.ofNat 64 (layout.striping.address range.intlvMatch.toNat p)).toNat =
        layout.striping.address range.intlvMatch.toNat p := by
      have bound := range.endAddr.isLt
      rw [whole.stop] at bound
      exact Nat.mod_eq_of_lt (Nat.lt_trans between.2 bound)
    have within : range.startAddr ≤ BitVec.ofNat 64 (layout.striping.address range.intlvMatch.toNat p) ∧
        BitVec.ofNat 64 (layout.striping.address range.intlvMatch.toNat p) < range.endAddr := by
      rw [BitVec.le_def, BitVec.lt_def, value, whole.start, whole.stop]
      exact between
    refine ⟨_, (layout.contains_iff _).mpr ⟨within, ?_⟩, ?_⟩
    · rw [value]
      exact Striping.stripe_address fits' p
    · obtain ⟨x, got, same⟩ := whole.getOffset_eq within
      rw [value, placed] at same
      rw [got, Option.some.injEq, ← BitVec.toNat_inj, same]
      show p - s * 2 ^ layout.low = offset.toNat
      omega

end Whole

end Layout

theorem mergeLoop_stripes (first : AddrRange) (intlvMatch count : Nat) :
    mergeLoop (first.withMatch 0) ((List.range' intlvMatch count).map first.withMatch)
      (UInt8.ofNat intlvMatch) = none := by
  induction count generalizing intlvMatch with
  | zero => rfl
  | succ count ih =>
    have next : UInt8.ofNat intlvMatch + 1 = UInt8.ofNat (intlvMatch + 1) := by
      rw [UInt8.ofNat_add]
      rfl
    have merges : (first.withMatch 0).mergesWith (first.withMatch intlvMatch) = true := by
      simp [mergesWith, withMatch]
    have same : (first.withMatch intlvMatch).intlvMatch = UInt8.ofNat intlvMatch := rfl
    rw [List.range'_succ, List.map_cons, mergeLoop, merges, same, next, if_neg (by simp), if_neg (by simp)]
    exact ih (intlvMatch + 1)

theorem merge_stripes (first : AddrRange) :
    ∃ merged, merge ((List.range (2 ^ first.masks.length)).map first.withMatch) = .ok merged ∧
      ∀ a, merged.contains a = true ↔ first.startAddr ≤ a ∧ a < first.endAddr := by
  have plain : ∀ (startAddr endAddr : Addr) (a : Addr), (⟨startAddr, endAddr, [], 0⟩ : AddrRange).contains a = true ↔
      startAddr ≤ a ∧ a < endAddr := by
    intro startAddr endAddr a
    by_cases within : startAddr ≤ a ∧ a < endAddr
    · simp [contains, selector, within]
    · simp [contains, within]
  cases masks : first.masks with
  | nil =>
    refine ⟨first.withMatch 0, rfl, fun a => ?_⟩
    have same : first.withMatch 0 = ⟨first.startAddr, first.endAddr, [], 0⟩ := by
      rw [withMatch, masks]
      rfl
    rw [same]
    exact plain ..
  | cons m rest =>
    refine ⟨⟨first.startAddr, first.endAddr, [], 0⟩, ?_, plain _ _⟩
    have several : 2 ≤ 2 ^ (m :: rest).length := by
      rw [List.length_cons, Nat.pow_succ]
      have := Nat.two_pow_pos rest.length
      omega
    obtain ⟨more, count⟩ : ∃ more, 2 ^ (m :: rest).length = more + 2 := ⟨_, (Nat.sub_add_cancel several).symm⟩
    have loop := mergeLoop_stripes first 0 (more + 2)
    rw [count, List.range_eq_range']
    rw [List.range'_succ, List.range'_succ, List.map_cons, List.map_cons] at loop ⊢
    have length : (first.withMatch 0 :: first.withMatch (0 + 1) ::
        (List.range' (0 + 1 + 1) more).map first.withMatch).length = 2 ^ (first.withMatch 0).masks.length := by
      simp only [List.length_cons, List.length_map, List.length_range']
      show more + 1 + 1 = 2 ^ first.masks.length
      rw [masks, count]
    rw [merge, if_neg (not_not_intro length)]
    · rw [show UInt8.ofNat 0 = 0 from rfl] at loop
      rw [loop]
      rfl
    · simp

/-- **The stripes partition the range.** Let the legacy constructor accept its parameters, with at most eight
interleaving bits, and let start and end be in order and multiples of 2 to the highest mask bit and one. It then accepts
every match value below `2 ^ intlvBits`; every address of the range is contained in exactly one of the stripes; the
merging constructor accepts them and contains exactly their union; and `getOffset` is a strictly increasing bijection of
each stripe with the numbers below its size. -/
theorem stripes_partition {startAddr endAddr : Addr} {intlvHighBit xorHighBit intlvBits : UInt8} {first : AddrRange}
    (accepted : legacy startAddr endAddr intlvHighBit xorHighBit intlvBits 0 = .ok first) (few : intlvBits ≤ 8)
    (order : startAddr ≤ endAddr) (alignedStart : 2 ^ alignment first.masks ∣ startAddr.toNat)
    (alignedEnd : 2 ^ alignment first.masks ∣ endAddr.toNat) :
    (∀ m < 2 ^ intlvBits.toNat, legacy startAddr endAddr intlvHighBit xorHighBit intlvBits (UInt8.ofNat m) =
        .ok (first.withMatch m)) ∧ (∀ a, startAddr ≤ a → a < endAddr →
        ∃! m, m < 2 ^ intlvBits.toNat ∧ (first.withMatch m).contains a = true) ∧
      (∃ merged, merge ((List.range (2 ^ intlvBits.toNat)).map first.withMatch) = .ok merged ∧
        ∀ a, merged.contains a = true ↔ ∃ m < 2 ^ intlvBits.toNat, (first.withMatch m).contains a = true) ∧
      ∀ m < 2 ^ intlvBits.toNat, (first.withMatch m).Compact := by
  obtain ⟨rfl, rfl, -, ⟨layout, width, noMask⟩, others⟩ := accepted_layout accepted
  have block : layout.low + layout.width ≤ alignment first.masks := by
    rcases layout.block_le_alignment with le | none
    · exact le
    · rw [noMask none, none]
      exact Nat.zero_le _
  obtain ⟨s, start⟩ := Nat.dvd_trans (Nat.pow_dvd_pow 2 block) alignedStart
  obtain ⟨e, stop⟩ := Nat.dvd_trans (Nat.pow_dvd_pow 2 block) alignedEnd
  have bytes : ∀ m < 2 ^ intlvBits.toNat, (UInt8.ofNat m).toNat = m := by
    intro m inside
    have power : 2 ^ intlvBits.toNat ≤ 2 ^ 8 := Nat.pow_le_pow_right (by decide) (UInt8.le_iff_toNat_le.mp few)
    rw [UInt8.toNat_ofNat']
    omega
  let layoutAt : ∀ m, Layout (first.withMatch m).masks := fun _ => layout
  have containsAt : ∀ m < 2 ^ intlvBits.toNat, ∀ a, (first.withMatch m).contains a = true ↔
      (first.startAddr ≤ a ∧ a < first.endAddr) ∧ layout.striping.stripe a.toNat = m := by
    intro m inside a
    rw [(layoutAt m).contains_iff, show (first.withMatch m).intlvMatch = UInt8.ofNat m from rfl, bytes m inside]
    rfl
  have stripeLt : ∀ a : Addr, layout.striping.stripe a.toNat < 2 ^ intlvBits.toNat := by
    intro a
    rw [← width]
    exact layout.striping.stripe_lt _
  refine ⟨?_, ?_, ?_, ?_⟩
  · intro m inside
    exact others (UInt8.ofNat m) (by rw [bytes m inside]; exact inside)
  · intro a above below
    refine ⟨layout.striping.stripe a.toNat, ⟨stripeLt a, ?_⟩, ?_⟩
    · exact (containsAt _ (stripeLt a) a).mpr ⟨⟨above, below⟩, rfl⟩
    · rintro m ⟨inside, contained⟩
      exact ((containsAt m inside a).mp contained).2.symm
  · obtain ⟨merged, built, whole⟩ := merge_stripes first
    rw [layout.length_masks, width] at built
    refine ⟨merged, built, fun a => ?_⟩
    rw [whole]
    constructor
    · intro within
      exact ⟨_, stripeLt a, (containsAt _ (stripeLt a) a).mpr ⟨within, rfl⟩⟩
    · rintro ⟨m, inside, contained⟩
      exact ((containsAt m inside a).mp contained).1
  · intro m inside
    have whole : (layoutAt m).Whole s e :=
      ⟨start.trans (Nat.mul_comm ..), stop.trans (Nat.mul_comm ..), by
        have le := BitVec.le_def.mp order
        rw [start, stop] at le
        exact Nat.le_of_mul_le_mul_left le (Nat.two_pow_pos _)⟩
    refine whole.compact ?_
    rw [show (first.withMatch m).intlvMatch = UInt8.ofNat m from rfl, bytes m inside]
    exact width ▸ inside

/-- Four stripes of 128 bytes, hashed with bits 12 and 13. -/
def four : AddrRange := ⟨0x4000, 0x10000, [0x1080, 0x2100], 0⟩

theorem four_compact :
    legacy 0x4000 0x10000 8 13 2 0 = .ok four ∧ ∀ m < 2 ^ (2 : UInt8).toNat, (four.withMatch m).Compact := by
  have accepted : legacy 0x4000 0x10000 8 13 2 0 = .ok four := rfl
  exact ⟨accepted, (stripes_partition accepted (by decide) (by decide) (by decide) (by decide)).2.2.2⟩

def wide : AddrRange := ⟨0, 0x100000, (List.range 9).map fun index => bitAt 64 (8 + index), 0⟩

/-- A range that ends before it starts. -/
def reversed : AddrRange := ⟨0x1000, 0, [0x100], 0⟩

/-- **Where the stripes do not partition**: with nine bits no match value of eight bits selects the address 0x10000, and
the stripes of a range that ends before it starts have a size but no address. -/
theorem beyond_the_stripes :
    (legacy 0 0x100000 16 0 9 0 = .ok wide ∧ ¬ ∃! m, m < 2 ^ 9 ∧ (wide.withMatch m).contains 0x10000 = true) ∧
      legacy 0x1000 0 8 0 1 0 = .ok reversed ∧ ¬ reversed.Compact := by
  refine ⟨⟨rfl, ?_⟩, rfl, ?_⟩
  · rintro ⟨m, ⟨-, contained⟩, -⟩
    have selected : selector wide.masks 0x10000 = 256 := by decide +kernel
    have small := (UInt8.ofNat m).toNat_lt
    have same : selector wide.masks 0x10000 = (UInt8.ofNat m).toNat := by
      have within : (wide.withMatch m).startAddr ≤ 0x10000 ∧ 0x10000 < (wide.withMatch m).endAddr :=
        show (0 : Addr) ≤ 0x10000 ∧ (0x10000 : Addr) < 0x100000 by decide
      rw [contains, if_pos within] at contained
      exact of_decide_eq_true contained
    omega
  · intro compact
    obtain ⟨a, contained, -⟩ := compact.surjective 0 (by decide)
    rw [contains] at contained
    split at contained
    · rename_i within
      exact absurd within.2 (by simp [reversed])
    · exact Bool.false_ne_true contained

end Emas.Gem5.AddrRange

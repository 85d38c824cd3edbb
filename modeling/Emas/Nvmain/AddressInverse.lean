/-
**Address decoding is invertible, for counts that fit in an `int`.**

For a scheme that lists any distinct partitions, `layout` is the order the parser arrives at, from high
to low: the listed partitions, then the others in the order `SetAddressMappingScheme` fills them in. The
orders are a permutation of `0..5` (`orders_perm`), and `FindOrder` runs through the layout from its end
(`findOrder_layout`). `Translate` and `ReverseTranslate` are then `MixedRadix.decode` and `encode` with
the radices `2^width` (`translateLoop_eq`, `reverseLoop_eq`).
-/

import Emas.Nvmain.AddressTranslator
import Emas.Lib.MixedRadix
import Mathlib.Data.Nat.Log
import Mathlib.Data.List.Nodup
import Mathlib.Data.List.Perm.Subperm
import Mathlib.Algebra.Order.BigOperators.Group.List
import Mathlib.Tactic.IntervalCases
import Mathlib.Tactic.Ring

namespace Emas.Nvmain

open MemoryPartition TranslationMethod

/-! ### Widths -/

theorem mlog2Loop_zero (bits : Nat) (retVal : Int) : mlog2Loop bits 0 retVal = retVal := by
  cases bits <;> rfl

theorem mlog2Loop_eq (bits : Nat) : ∀ (num : Nat) (retVal : Int), num ≠ 0 → num < 2 ^ bits →
    mlog2Loop bits num retVal = retVal + Nat.log 2 num + 1 := by
  induction bits with
  | zero =>
    intro num retVal positive bounded
    omega
  | succ bits ih =>
    intro num retVal positive bounded
    rw [mlog2Loop, if_neg positive]
    by_cases one : num < 2
    · have same : num = 1 := by omega
      subst same
      rw [mlog2Loop_zero, Nat.log_one_right]
      omega
    · rw [ih (num / 2) (retVal + 1) (by omega) (by rw [pow_succ] at bounded; omega), Nat.log_div_base]
      have : 1 ≤ Nat.log 2 num := Nat.log_pos (by decide) (by omega)
      omega

theorem mlog2_eq {num : Nat} (bounded : num < 2 ^ 32) : mlog2 num = Nat.log 2 num := by
  unfold mlog2
  split_ifs with small
  · exact (Nat.log_of_lt (by omega)).symm
  · rw [Int.toNat_natCast, mlog2Loop_eq 32 num (-1) (by omega) bounded]
    omega

theorem width_of_lt {width : Nat} (small : width < 31) : mlog2 (toInt (2 ^ width)) = width := by
  have bound : 2 ^ width < 2 ^ 31 := Nat.pow_lt_pow_right (by decide) small
  have fits : toInt (2 ^ width) = ((2 ^ width : Nat) : Int) := by
    have low : 2 ^ width % 2 ^ 32 = 2 ^ width := Nat.mod_eq_of_lt (by omega)
    simp only [toInt, low, bound, if_true]
  rw [fits, mlog2_eq (by omega), Nat.log_pow (by decide)]

theorem width_of_ge {width : Nat} (large : 31 ≤ width) : mlog2 (toInt (2 ^ width)) = 0 := by
  rcases Nat.eq_or_lt_of_le large with rfl | larger
  · rfl
  · have multiple : 2 ^ width % 2 ^ 32 = 0 :=
      Nat.mod_eq_zero_of_dvd (pow_dvd_pow 2 larger)
    have zero : toInt (2 ^ width) = 0 := by
      simp only [toInt, multiple]
      rfl
    rw [zero]
    rfl

theorem width_lt (width : Nat) : mlog2 (toInt (2 ^ width)) < 64 := by
  rcases lt_or_ge width 31 with small | large
  · rw [width_of_lt small]
    omega
  · rw [width_of_ge large]
    decide

/-! ### The parser -/

/-- The scheme string that lists these partitions, from high to low. -/
def schemeOf (parts : List MemoryPartition) : String :=
  String.ofList ([':'].intercalate (parts.map token))

theorem ofToken_token (part : MemoryPartition) : ofToken part.token = some part := by
  cases part <;> decide

theorem strtok_schemeOf (parts : List MemoryPartition) : strtok (schemeOf parts).toList = parts.map token := by
  rw [schemeOf, String.toList_ofList, strtok]
  have nonempty : (parts.map token).filter (· ≠ []) = parts.map token := by
    refine List.filter_eq_self.mpr fun text member => ?_
    obtain ⟨part, _, rfl⟩ := List.mem_map.mp member
    cases part <;> decide
  cases parts with
  | nil => rfl
  | cons head rest =>
    rw [List.splitOn_intercalate ':' (fun text member => ?_) (by simp), nonempty]
    obtain ⟨part, _, rfl⟩ := List.mem_map.mp member
    cases part <;> decide

theorem mem_all (part : MemoryPartition) : part ∈ all := by
  cases part <;> decide

theorem length_intercalate (texts : List (List Char)) (some : texts ≠ []) :
    ([':'].intercalate texts).length + 1 = (texts.map fun text => text.length + 1).sum := by
  induction texts with
  | nil => exact absurd rfl some
  | cons head rest ih =>
    cases rest with
    | nil => simp
    | cons next rest =>
      have later := ih (by simp)
      rw [List.map_cons, List.sum_cons, ← later, List.intercalate_cons_cons]
      simp
      omega

variable {parts : List MemoryPartition}

theorem schemeOf_length (distinct : parts.Nodup) : (schemeOf parts).length < 16 := by
  rw [schemeOf, String.length_ofList]
  cases parts with
  | nil => decide
  | cons head rest =>
    have length := length_intercalate ((head :: rest).map token) (by simp)
    have subperm : List.Subperm (head :: rest) all :=
      List.subperm_of_subset distinct fun part _ => mem_all part
    obtain ⟨sub, perm, sublist⟩ := subperm
    have bound : (((head :: rest).map token).map fun text => text.length + 1).sum ≤
        ((all.map token).map fun text => text.length + 1).sum := by
      rw [← ((perm.map token).map fun text => text.length + 1).sum_eq]
      exact ((sublist.map token).map fun text => text.length + 1).sum_le_sum (by simp)
    have whole : ((all.map token).map fun text => text.length + 1).sum = 16 := by decide
    omega

/-- Give consecutive partitions consecutive orders, downwards. -/
def assign : List MemoryPartition → (MemoryPartition → Int) × Int → (MemoryPartition → Int) × Int
  | [], state => state
  | part :: rest, (orders, currentOrder) =>
    assign rest (Function.update orders part currentOrder, currentOrder - 1)

theorem parse_eq (parts : List MemoryPartition) : ∀ state, parse (parts.map token) state = assign parts state := by
  induction parts with
  | nil => exact fun _ => rfl
  | cons part rest ih =>
    rintro ⟨orders, currentOrder⟩
    rw [List.map_cons, parse, ofToken_token, assign, ← ih]

theorem fill_eq (distinct : parts.Nodup) :
    ∀ (orders : MemoryPartition → Int) (currentOrder : Int), fill parts (orders, currentOrder) =
        assign (parts.filter (orders · = 0)) (orders, currentOrder) := by
  induction parts with
  | nil => exact fun _ _ => rfl
  | cons part rest ih =>
    intro orders currentOrder
    rw [List.nodup_cons] at distinct
    rw [fill]
    split_ifs with unset
    · have others : rest.filter (Function.update orders part currentOrder · = 0) =
          rest.filter (orders · = 0) := by
        refine List.filter_congr fun other member => ?_
        rw [Function.update_of_ne]
        rintro rfl
        exact distinct.1 member
      rw [ih distinct.2, others, List.filter_cons_of_pos (by simpa using unset), assign]
    · rw [ih distinct.2, List.filter_cons_of_neg (by simpa using unset)]

theorem assign_append (first second : List MemoryPartition) : ∀ state,
    assign (first ++ second) state = assign second (assign first state) := by
  induction first with
  | nil => exact fun _ => rfl
  | cons part rest ih =>
    rintro ⟨orders, currentOrder⟩
    rw [List.cons_append, assign, ih, assign]

theorem assign_order (distinct : parts.Nodup) :
    ∀ (orders : MemoryPartition → Int) (currentOrder : Int) (part : MemoryPartition),
      (assign parts (orders, currentOrder)).1 part =
        if part ∈ parts then currentOrder - parts.idxOf part else orders part := by
  induction parts with
  | nil => exact fun _ _ _ => rfl
  | cons head rest ih =>
    intro orders currentOrder part
    rw [List.nodup_cons] at distinct
    rw [assign, ih distinct.2]
    by_cases same : part = head
    · subst same
      simp [distinct.1]
    · simp only [List.mem_cons, same, false_or, Function.update_of_ne same, List.idxOf_cons_ne rest (Ne.symm same)]
      split_ifs
      · push_cast
        omega
      · rfl

/-- The partitions from high to low, as the parser arranges them. -/
def layout (parts : List MemoryPartition) : List MemoryPartition :=
  parts ++ unset.filter (· ∉ parts)

theorem layout_perm (distinct : parts.Nodup) : (layout parts).Perm all := by
  have nodup : (layout parts).Nodup := by
    refine List.nodup_append.mpr ⟨distinct, (by decide : unset.Nodup).filter _, ?_⟩
    rintro part member other filtered rfl
    simp [member] at filtered
  refine (List.perm_ext_iff_of_nodup nodup (by decide)).mpr fun part => ?_
  refine ⟨fun _ => mem_all part, fun _ => ?_⟩
  by_cases listed : part ∈ parts
  · exact List.mem_append_left _ listed
  · refine List.mem_append_right _ (List.mem_filter.mpr ⟨?_, by simpa using listed⟩)
    cases part <;> decide

theorem layout_nodup (distinct : parts.Nodup) : (layout parts).Nodup :=
  (layout_perm distinct).nodup_iff.mpr (by decide)

theorem layout_length (distinct : parts.Nodup) : (layout parts).length = 6 :=
  (layout_perm distinct).length_eq

/-- **The parser**: a scheme of distinct partitions is accepted, and numbers its layout downwards. -/
theorem setAddressMappingScheme_eq (distinct : parts.Nodup) (method : TranslationMethod) :
    ∃ result, method.setAddressMappingScheme (schemeOf parts) = some result ∧
      result.bitWidths = method.bitWidths ∧ ∀ part, result.order part = 5 - ((layout parts).idxOf part : Int) := by
  refine ⟨_, if_pos (schemeOf_length distinct), rfl, fun part => ?_⟩
  have listed : ∀ other, (assign parts (fun _ => 0, 6)).1 other = 0 ↔ other ∉ parts := by
    intro other
    have short : parts.length ≤ 6 :=
      (List.subperm_of_subset distinct fun part _ => mem_all part).length_le
    rw [assign_order distinct]
    split_ifs with member
    · have := List.idxOf_lt_length_of_mem member
      simp only [member, not_true_eq_false, iff_false]
      omega
    · simp [member]
  have filled : fill unset (parse (strtok (schemeOf parts).toList) (fun _ => 0, 6)) =
      assign (layout parts) (fun _ => 0, 6) := by
    have others : unset.filter ((assign parts (fun _ => 0, 6)).1 · = 0) = unset.filter (· ∉ parts) :=
      List.filter_congr fun other _ => decide_eq_decide.mpr (listed other)
    rw [strtok_schemeOf, parse_eq, layout, assign_append, ← others]
    exact fill_eq (by decide) _ _
  show (fill unset (parse (strtok (schemeOf parts).toList) (fun _ => 0, 6))).1 part - 1 = _
  rw [filled, assign_order (layout_nodup distinct), if_pos ((layout_perm distinct).mem_iff.mpr (mem_all part))]
  omega

/-! ### The loops of the translator -/

section Layout

variable {parts : List MemoryPartition} {translator : AddressTranslator}

/-- **From the low end of the layout the orders are `0..5`.** -/
theorem orders_layout (distinct : parts.Nodup)
    (orders : ∀ part, translator.method.order part = 5 - ((layout parts).idxOf part : Int)) :
    (layout parts).reverse.map translator.method.order = AddressTranslator.positions := by
  have length := layout_length distinct
  refine List.ext_getElem (by simp [length, AddressTranslator.positions]) fun index low high => ?_
  have small : index < 6 := high
  have position : AddressTranslator.positions.get ⟨index, high⟩ = (index : Int) := by
    interval_cases index <;> rfl
  refine Eq.trans ?_ position.symm
  rw [List.getElem_map, List.getElem_reverse, orders, (layout_nodup distinct).idxOf_getElem]
  omega

theorem orders_perm (distinct : parts.Nodup)
    (orders : ∀ part, translator.method.order part = 5 - ((layout parts).idxOf part : Int)) :
    (all.map translator.method.order).Perm AddressTranslator.positions := by
  rw [← orders_layout distinct orders]
  exact (((List.reverse_perm _).trans (layout_perm distinct)).map _).symm

theorem findOrder_eq (distinct : parts.Nodup)
    (orders : ∀ part, translator.method.order part = 5 - ((layout parts).idxOf part : Int))
    {part : MemoryPartition} {order : Int} (found : translator.method.order part = order) :
    translator.findOrder order = some part := by
  unfold AddressTranslator.findOrder
  cases search : all.find? (translator.method.order · = order) with
  | none =>
    have absent := List.find?_eq_none.mp search part (mem_all part)
    simp [found] at absent
  | some other =>
    have same := List.find?_some search
    simp only [decide_eq_true_eq] at same
    rw [← found, orders, orders] at same
    have member := (layout_perm distinct).mem_iff.mpr (mem_all other)
    have index : (layout parts).idxOf other = (layout parts).idxOf part := by omega
    rw [(List.idxOf_inj member).mp index]

/-- **`FindOrder` runs through the layout from its low end.** -/
theorem findOrder_layout (distinct : parts.Nodup)
    (orders : ∀ part, translator.method.order part = 5 - ((layout parts).idxOf part : Int)) :
    List.Forall₂ (fun order part => translator.findOrder order = some part)
      AddressTranslator.positions (layout parts).reverse := by
  rw [← orders_layout distinct orders, List.forall₂_map_left_iff]
  exact List.forall₂_same.mpr fun part _ => findOrder_eq distinct orders rfl

def AddressTranslator.radix (translator : AddressTranslator) (part : MemoryPartition) : Nat :=
  2 ^ translator.method.bitWidths part

/-- **`Translate` is mixed-radix decoding.** -/
theorem translateLoop_eq (narrow : ∀ part, translator.method.bitWidths part < 64)
    {orders : List Int} {fields : List MemoryPartition}
    (found : List.Forall₂ (fun order part => translator.findOrder order = some part) orders fields) :
    ∀ (refAddress : Nat) (partitions : MemoryPartition → Nat),
      translator.translateLoop orders refAddress partitions =
        some (MixedRadix.decode translator.radix fields refAddress partitions) := by
  induction found with
  | nil => exact fun _ _ => rfl
  | @cons order part orders fields here _ ih =>
    intro refAddress partitions
    have size : AddressTranslator.shl64 1 (translator.method.bitWidths part) = translator.radix part := by
      rw [AddressTranslator.shl64, Nat.one_mul]
      exact Nat.mod_eq_of_lt (Nat.pow_lt_pow_right (by decide) (narrow part))
    rw [AddressTranslator.translateLoop, here]
    show translator.translateLoop orders _ _ = _
    rw [ih, MixedRadix.decode, AddressTranslator.modulo, size]
    rfl

/-- **`ReverseTranslate` is mixed-radix encoding**, modulo `2^64`. -/
theorem reverseLoop_eq (values : MemoryPartition → Nat) {orders : List Int} {fields : List MemoryPartition}
    (found : List.Forall₂ (fun order part => translator.findOrder order = some part) orders fields) :
    ∀ phyAddr unitAddr : Nat, phyAddr < 2 ^ 64 →
      translator.reverseLoop values orders phyAddr unitAddr =
        (phyAddr + unitAddr * MixedRadix.encode translator.radix values fields) % 2 ^ 64 := by
  induction found with
  | nil =>
    intro phyAddr unitAddr small
    rw [AddressTranslator.reverseLoop, MixedRadix.encode, Nat.mul_zero, Nat.add_zero, Nat.mod_eq_of_lt small]
  | @cons order part orders fields here _ ih =>
    intro phyAddr unitAddr _
    rw [AddressTranslator.reverseLoop, here]
    show translator.reverseLoop values orders _ _ = _
    rw [ih _ _ (show AddressTranslator.add64 _ _ < _ from Nat.mod_lt _ (by decide)), MixedRadix.encode]
    unfold AddressTranslator.add64 AddressTranslator.mul64 AddressTranslator.shl64
    have regroup : unitAddr * (values part + translator.radix part * MixedRadix.encode translator.radix values fields) =
        values part * unitAddr + unitAddr * 2 ^ translator.method.bitWidths part *
          MixedRadix.encode translator.radix values fields := by
      rw [AddressTranslator.radix]
      ring
    rw [regroup, ← Nat.add_assoc]
    simp only [Nat.add_mod, Nat.mul_mod, Nat.mod_mod]

theorem capacity_eq (fields : List MemoryPartition) :
    MixedRadix.capacity translator.radix fields = 2 ^ (fields.map translator.method.bitWidths).sum := by
  induction fields with
  | nil => rfl
  | cons part rest ih =>
    rw [MixedRadix.capacity_cons, ih, List.map_cons, List.sum_cons, pow_add, AddressTranslator.radix]

end Layout

/-! ### The burst offset -/

section Burst

variable {translator : AddressTranslator}

theorem burst_split (positive : 1 ≤ translator.burstLength)
    (small : translator.busWidth * translator.burstLength < 2 ^ 31) :
    translator.busOffsetBits + translator.lowColBits = translator.burstBits := by
  have longer : translator.busWidth ≤ translator.busWidth * translator.burstLength :=
    Nat.le_mul_of_pos_right _ positive
  have ordered : translator.busOffsetBits ≤ translator.burstBits := by
    unfold AddressTranslator.busOffsetBits AddressTranslator.burstBits
    rw [mlog2_eq (by omega), mlog2_eq (by omega)]
    exact Nat.log_mono_right (Nat.div_le_div_right longer)
  unfold AddressTranslator.lowColBits
  omega

end Burst

/-! ### Both round trips -/

/-- **Address decoding is invertible**: the orders are a permutation of `0..5`; an address put together
again is the address with the bits of the burst offset and those above the total width cleared; and
fields in range are read back. `widths` are the binary logarithms of the counts. -/
structure Invertible (translator : AddressTranslator) (widths : MemoryPartition → Nat) : Prop where
  orders : (all.map translator.method.order).Perm [0, 1, 2, 3, 4, 5]
  address : ∀ address < 2 ^ 64,
    (translator.translate address).map translator.reverseTranslate =
      some (address % 2 ^ (translator.burstBits + (all.map widths).sum) /
        2 ^ translator.burstBits * 2 ^ translator.burstBits)
  fields : ∀ fields : MemoryPartition → Nat, (∀ part, fields part < 2 ^ widths part) →
    translator.translate (translator.reverseTranslate fields) = some fields

section RoundTrip

variable {parts : List MemoryPartition} {translator : AddressTranslator}
  {widths : MemoryPartition → Nat}

theorem translate_eq (distinct : parts.Nodup)
    (orders : ∀ part, translator.method.order part = 5 - ((layout parts).idxOf part : Int))
    (narrow : ∀ part, translator.method.bitWidths part < 64)
    (split : translator.busOffsetBits + translator.lowColBits = translator.burstBits) (address : Nat) :
    translator.translate address = some (MixedRadix.decode translator.radix (layout parts).reverse
      (address / 2 ^ translator.burstBits) fun _ => 0) := by
  rw [AddressTranslator.translate, translateLoop_eq narrow (findOrder_layout distinct orders),
    AddressTranslator.shr64, AddressTranslator.shr64, Nat.div_div_eq_div_mul, ← pow_add, split]

theorem reverseTranslate_eq (distinct : parts.Nodup)
    (orders : ∀ part, translator.method.order part = 5 - ((layout parts).idxOf part : Int))
    (split : translator.busOffsetBits + translator.lowColBits = translator.burstBits) (values : MemoryPartition → Nat) :
    translator.reverseTranslate values = 2 ^ translator.burstBits *
      MixedRadix.encode translator.radix values (layout parts).reverse % 2 ^ 64 := by
  rw [AddressTranslator.reverseTranslate, reverseLoop_eq values (findOrder_layout distinct orders) 0 _
    (by decide), Nat.zero_add, AddressTranslator.shl64, AddressTranslator.shl64, Nat.one_mul,
    Nat.mod_mul_mod, Nat.mul_assoc, Nat.mod_mul_mod, ← Nat.mul_assoc, ← pow_add, split]

theorem field_eq_zero (distinct : parts.Nodup)
    (orders : ∀ part, translator.method.order part = 5 - ((layout parts).idxOf part : Int))
    (narrow : ∀ part, translator.method.bitWidths part < 64)
    (split : translator.busOffsetBits + translator.lowColBits = translator.burstBits)
    {part : MemoryPartition} (zero : translator.method.bitWidths part = 0) {address : Nat}
    {fields : MemoryPartition → Nat} (read : translator.translate address = some fields) : fields part = 0 := by
  have one : translator.radix part = 1 := by rw [AddressTranslator.radix, zero, pow_zero]
  have member : part ∈ (layout parts).reverse :=
    List.mem_reverse.mpr ((layout_perm distinct).mem_iff.mpr (mem_all part))
  have positive : 0 < translator.radix part := by
    rw [one]
    exact Nat.one_pos
  have below := MixedRadix.decode_lt (List.nodup_reverse.mpr (layout_nodup distinct)) member
    positive (address / 2 ^ translator.burstBits) fun _ => 0
  rw [translate_eq distinct orders narrow split] at read
  rw [← Option.some.inj read]
  omega

theorem invertible_of_widths (distinct : parts.Nodup)
    (orders : ∀ part, translator.method.order part = 5 - ((layout parts).idxOf part : Int))
    (same : translator.method.bitWidths = widths) (narrow : ∀ part, widths part < 64)
    (split : translator.busOffsetBits + translator.lowColBits = translator.burstBits)
    (total : translator.burstBits + (all.map widths).sum ≤ 64) : Invertible translator widths := by
  have nodup : (layout parts).reverse.Nodup := List.nodup_reverse.mpr (layout_nodup distinct)
  have perm : (layout parts).reverse.Perm all := (List.reverse_perm _).trans (layout_perm distinct)
  have capacity : MixedRadix.capacity translator.radix (layout parts).reverse = 2 ^ (all.map widths).sum := by
    rw [capacity_eq, same, (perm.map widths).sum_eq]
  have fits : ∀ value < 2 ^ (all.map widths).sum,
      2 ^ translator.burstBits * value % 2 ^ 64 = 2 ^ translator.burstBits * value := by
    intro value small
    refine Nat.mod_eq_of_lt (lt_of_lt_of_le ?_ (Nat.pow_le_pow_right (by decide) total))
    rw [pow_add]
    exact Nat.mul_lt_mul_of_pos_left small (by positivity)
  have narrow' : ∀ part, translator.method.bitWidths part < 64 := by rw [same]; exact narrow
  refine ⟨orders_perm distinct orders, fun address _ => ?_, fun fields small => ?_⟩
  · rw [translate_eq distinct orders narrow' split, Option.map_some,
      reverseTranslate_eq distinct orders split, MixedRadix.encode_decode nodup, capacity,
      fits _ (Nat.mod_lt _ (by positivity)), pow_add, Nat.mod_mul_right_div_self, Nat.mul_comm]
  · have inRange : ∀ part ∈ (layout parts).reverse, fields part < translator.radix part := by
      intro part _
      rw [AddressTranslator.radix, same]
      exact small part
    have bound := MixedRadix.encode_lt inRange
    rw [capacity] at bound
    rw [translate_eq distinct orders narrow' split, reverseTranslate_eq distinct orders split,
      fits _ bound, Nat.mul_div_cancel_left _ (by positivity)]
    refine congrArg some (funext fun part => ?_)
    exact MixedRadix.decode_encode inRange nodup (perm.mem_iff.mpr (mem_all part)) _

end RoundTrip

/-- The decoder of a configuration: widths from the counts, orders from the scheme. -/
def configure (counts : MemoryPartition → Nat) (scheme : String) (busWidth burstLength : Nat) :
    Option AddressTranslator :=
  ((TranslationMethod.create.setCounts counts).setAddressMappingScheme scheme).map fun method =>
    ⟨method, busWidth, burstLength⟩

/-- **When address decoding is invertible.** For every scheme that lists distinct partitions, and
power-of-two counts whose widths fit in 64 bits together with the burst offset: exactly when every count
is below `2^31`. -/
theorem invertible_iff (parts : List MemoryPartition) (distinct : parts.Nodup)
    (widths : MemoryPartition → Nat) (busWidth burstLength : Nat) (positive : 1 ≤ burstLength)
    (small : busWidth * burstLength < 2 ^ 31)
    (total : mlog2 (busWidth * burstLength / 8 : Nat) + (all.map widths).sum ≤ 64) :
    (∃ translator, configure (fun part => 2 ^ widths part) (schemeOf parts) busWidth burstLength
        = some translator ∧ Invertible translator widths) ↔
      ∀ part, 2 ^ widths part < 2 ^ 31 := by
  obtain ⟨method, accepted, bitWidths, orders⟩ := setAddressMappingScheme_eq distinct
    (TranslationMethod.create.setCounts fun part => 2 ^ widths part)
  have configured : configure (fun part => 2 ^ widths part) (schemeOf parts) busWidth burstLength
      = some ⟨method, busWidth, burstLength⟩ := by
    rw [configure, accepted, Option.map_some]
  let translator : AddressTranslator := ⟨method, busWidth, burstLength⟩
  have split : translator.busOffsetBits + translator.lowColBits = translator.burstBits :=
    burst_split positive small
  constructor
  · rintro ⟨translator, found, invertible⟩ part
    rw [configured] at found
    cases found
    by_contra large
    have wide : 31 ≤ widths part :=
      (Nat.pow_le_pow_iff_right (by decide)).mp (not_lt.mp large)
    have zero : method.bitWidths part = 0 := by
      rw [bitWidths]
      exact width_of_ge wide
    have narrow : ∀ other, translator.method.bitWidths other < 64 := by
      intro other
      show method.bitWidths other < 64
      rw [bitWidths]
      exact width_lt (widths other)
    have read := invertible.fields (Function.update (fun _ => 0) part 1) fun other => by
      by_cases same : other = part
      · rw [same, Function.update_self]
        exact Nat.one_lt_two_pow (by omega)
      · rw [Function.update_of_ne same]
        positivity
    have field := field_eq_zero distinct orders narrow split zero read
    rw [Function.update_self] at field
    exact absurd field (by decide)
  · intro counts
    refine ⟨_, configured, invertible_of_widths distinct orders ?_ ?_ split total⟩
    · rw [bitWidths]
      funext part
      exact width_of_lt ((Nat.pow_lt_pow_iff_right (by decide)).mp (counts part))
    · intro part
      have := (Nat.pow_lt_pow_iff_right (by decide)).mp (counts part)
      omega

/-- A DDR3 layout: rows, banks, ranks and columns of usual size. -/
def usualWidths : MemoryPartition → Nat
  | row => 16
  | col => 10
  | bank => 3
  | rank => 1
  | channel => 0
  | subarray => 0

theorem invertible_usual :
    ∃ translator, configure (fun part => 2 ^ usualWidths part) (schemeOf [row, rank, bank, channel, col])
      64 8 = some translator ∧ Invertible translator usualWidths :=
  (invertible_iff [row, rank, bank, channel, col] (by decide) usualWidths 64 8 (by decide) (by decide)
    (by decide)).mpr fun part => by cases part <;> decide

/-- `2^31` rows and nothing else. -/
def wideRowWidths : MemoryPartition → Nat
  | row => 31
  | _ => 0

/-- **A row is lost.** With `2^31` rows the width of the row is `0`: row `1` is packed into address
`64`, and read back as row `0`. -/
theorem wide_row :
    ∃ translator, configure (fun part => 2 ^ wideRowWidths part) (schemeOf [row]) 64 8
        = some translator ∧ ¬ Invertible translator wideRowWidths ∧
      translator.reverseTranslate (Function.update (fun _ => 0) row 1) = 64 ∧
      (translator.translate 64).map (fun fields => fields row) = some 0 := by
  refine ⟨_, rfl, fun invertible => ?_, by decide +kernel, by decide +kernel⟩
  have read := invertible.fields (Function.update (fun _ => 0) row 1) fun part => by
    cases part <;> decide
  have field := congrArg (Option.map fun fields => fields row) read
  exact absurd field (by decide +kernel)

end Emas.Nvmain

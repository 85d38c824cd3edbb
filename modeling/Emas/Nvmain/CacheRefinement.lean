/-
**The functional cache refines a map.**

* `SetRefines.replace`, `SetRefines.moveToFront`, `SetRefines.congr`: the changes of a set that keep the
  refinement. `Read`, `UpdateData`, `Install` and `Evict` are made of these.
-/

import Emas.Nvmain.CacheBank

namespace Emas.Nvmain

open Table

variable {δ : Type}

/-! ### What keeps the refinement of a set -/

namespace SetRefines

open CacheSet

variable {numAssoc : Nat} {addr : NVMAddress} {data : δ} {set set' : CacheSet δ} {i : Nat}
  {lines : Nat → Option (δ × Bool)}

theorem hitAt (refines : SetRefines numAssoc set lines) (present : CacheSet.present numAssoc addr set = true) :
    ∃ i, HitAt numAssoc addr set i := by
  obtain ⟨i, member, here⟩ := List.any_eq_true.mp present
  have inside := List.mem_range.mp member
  refine ⟨i, inside, here, fun k small found => ?_⟩
  obtain ⟨physical, valid⟩ := hit_iff.mp here
  obtain ⟨physical', valid'⟩ := hit_iff.mp found
  exact refines.distinct k small i inside valid' valid (physical'.trans physical.symm)

theorem line_of_hitAt (refines : SetRefines numAssoc set lines) (found : HitAt numAssoc addr set i) :
    lines addr.physical = some ((set i).data, (set i).dirty) :=
  (refines.lines _ _).mpr ⟨i, found.inside, found.valid, found.physical, rfl⟩

theorem absent (refines : SetRefines numAssoc set lines)
    (absent : CacheSet.present numAssoc addr set = false) : lines addr.physical = none := by
  cases line : lines addr.physical with
  | none => rfl
  | some line' =>
    obtain ⟨i, inside, valid, physical, -⟩ := (refines.lines _ _).mp line
    have missed := List.any_eq_false.mp absent i (List.mem_range.mpr inside)
    exact absurd (hit_iff.mpr ⟨physical, valid⟩) missed

theorem congr (refines : SetRefines numAssoc set lines)
    (agree : ∀ k, set' k = set k ∨ (set' k).valid = false ∧ (set k).valid = false) :
    SetRefines numAssoc set' lines := by
  have same : ∀ k, (set' k).valid = true → set' k = set k := fun k valid => by
    rcases agree k with same | ⟨none, -⟩
    · exact same
    · rw [none] at valid
      cases valid
  have back : ∀ k, (set k).valid = true → set' k = set k := fun k valid => by
    rcases agree k with same | ⟨-, none⟩
    · exact same
    · rw [none] at valid
      cases valid
  constructor
  · intro i inside j inside' valid valid' physical
    have first := same i valid
    have second := same j valid'
    rw [first] at valid physical
    rw [second] at valid' physical
    exact refines.distinct i inside j inside' valid valid' physical
  · intro physical line
    rw [refines.lines]
    constructor
    · rintro ⟨k, inside, valid, rest⟩
      exact ⟨k, inside, by rwa [back k valid], by rwa [back k valid]⟩
    · rintro ⟨k, inside, valid, rest⟩
      have here := same k valid
      rw [here] at valid rest
      exact ⟨k, inside, valid, rest⟩

theorem moveToFront (refines : SetRefines numAssoc set lines) (inside : i < numAssoc) :
    SetRefines numAssoc (CacheSet.moveToFront set 0 i) lines := by
  rw [moveToFront_eq]
  have into : ∀ k < numAssoc, source i k < numAssoc := by
    intro k small
    unfold source
    split
    · exact inside
    · split
      · omega
      · exact small
  have onto : ∀ k < numAssoc, ∃ k' < numAssoc, source i k' = k := by
    intro k small
    unfold source
    rcases Nat.lt_trichotomy k i with below | rfl | above
    · exact ⟨k + 1, by omega, by rw [if_neg (by omega), if_pos (by omega)]; rfl⟩
    · exact ⟨0, by omega, if_pos rfl⟩
    · exact ⟨k, small, by rw [if_neg (by omega), if_neg (by omega)]⟩
  have apart : ∀ k k', source i k = source i k' → k = k' := by
    intro k k' same
    unfold source at same
    split at same <;> split at same <;> (try split at same) <;> (try split at same) <;> omega
  constructor
  · intro k small k' small' valid valid' physical
    exact apart k k' (refines.distinct _ (into k small) _ (into k' small') valid valid' physical)
  · intro physical line
    rw [refines.lines]
    constructor
    · rintro ⟨k, small, rest⟩
      obtain ⟨k', small', rfl⟩ := onto k small
      exact ⟨k', small', rest⟩
    · rintro ⟨k, small, rest⟩
      exact ⟨source i k, into k small, rest⟩

theorem replace {physical : Nat} (refines : SetRefines numAssoc set lines) (inside : i < numAssoc)
    (entry : CacheEntry δ) (old : (set i).valid = true → (set i).address.physical = physical)
    (alone : ∀ k < numAssoc, k ≠ i → (set k).valid = true → (set k).address.physical ≠ physical)
    (new : entry.valid = true → entry.address.physical = physical) :
    SetRefines numAssoc (set1 set i entry)
      (set1 lines physical (if entry.valid then some (entry.data, entry.dirty) else none)) := by
  constructor
  · intro j small k small' valid valid' same
    rw [set1_apply] at valid valid' same
    rw [set1_apply] at same
    split at valid <;> split at valid'
    · omega
    · rename_i atJ awayK
      rw [if_pos atJ, if_neg awayK] at same
      exact absurd (same.symm.trans (new valid)) (alone k small' awayK valid')
    · rename_i awayJ atK
      rw [if_neg awayJ, if_pos atK] at same
      exact absurd (same.trans (new valid')) (alone j small awayJ valid)
    · rename_i awayJ awayK
      rw [if_neg awayJ, if_neg awayK] at same
      exact refines.distinct j small k small' valid valid' same
  · intro query line
    rw [set1_apply]
    constructor
    · intro found
      split at found
      · rename_i here
        split at found
        · rename_i valid
          refine ⟨i, inside, ?_⟩
          rw [set1_self]
          exact ⟨valid, (new valid).trans here.symm, Option.some.inj found⟩
        · cases found
      · rename_i away
        obtain ⟨k, small, valid, physical', rest⟩ := (refines.lines _ _).mp found
        have other : k ≠ i := fun same => away (physical' ▸ old (same ▸ valid) ▸ same ▸ rfl)
        refine ⟨k, small, ?_⟩
        rw [set1_of_ne _ _ other]
        exact ⟨valid, physical', rest⟩
    · rintro ⟨k, small, valid, physical', rest⟩
      rw [set1_apply] at valid physical' rest
      split at valid
      · rename_i here
        rw [if_pos here] at physical' rest
        rw [if_pos (physical'.symm.trans (new valid)), if_pos valid, rest]
      · rename_i away
        rw [if_neg away] at physical' rest
        rw [if_neg fun same => alone k small away valid (physical'.trans same)]
        exact (refines.lines _ _).mpr ⟨k, small, valid, physical', rest⟩

theorem replaceHit (refines : SetRefines numAssoc set lines) (found : HitAt numAssoc addr set i)
    (entry : CacheEntry δ) (new : entry.valid = true → entry.address.physical = addr.physical) :
    SetRefines numAssoc (set1 set i entry)
      (set1 lines addr.physical (if entry.valid then some (entry.data, entry.dirty) else none)) :=
  refines.replace found.inside entry (fun _ => found.physical)
    (fun k small other valid physical => other (found.only k small (hit_iff.mpr ⟨physical, valid⟩))) new

end SetRefines

/-! ### Order -/

namespace CacheSet

variable {numAssoc : Nat} {addr : NVMAddress} {data : δ} {set set' : CacheSet δ} {i : Nat}

theorem others_moveToFront (found : HitAt numAssoc addr set i) :
    others numAssoc addr (moveToFront set 0 i) = others numAssoc addr set := by
  obtain ⟨rest, rfl⟩ := Nat.exists_eq_add_of_lt found.inside
  have skipped : ¬(set i).other addr = true := by simp [CacheEntry.other, found.physical]
  have front : (List.range (i + 1)).map (set ∘ source i) = set i :: (List.range i).map set := by
    rw [List.range_succ_eq_map, List.map_cons, List.map_map]
    refine congrArg _ (List.map_congr_left fun k small => ?_)
    have := List.mem_range.mp small
    simp only [Function.comp, source]
    rw [if_neg (by omega), if_pos (by omega)]
    rfl
  have back : (List.range (i + 1)).map set = (List.range i).map set ++ [set i] := by
    rw [List.range_succ, List.map_append]
    rfl
  have behind : ((List.range rest).map (i + 1 + ·)).map (set ∘ source i) =
      ((List.range rest).map (i + 1 + ·)).map set := by
    refine List.map_congr_left fun k member => ?_
    obtain ⟨j, -, rfl⟩ := List.mem_map.mp member
    simp only [Function.comp, source]
    rw [if_neg (by omega), if_neg (by omega)]
  unfold others
  rw [moveToFront_eq, show i + rest + 1 = i + 1 + rest by omega, List.range_add, List.map_append,
    List.map_append, front, back, behind, List.filter_append, List.filter_append, List.filter_append,
    List.filter_cons_of_neg skipped, List.filter_cons_of_neg skipped, List.filter_nil, List.append_nil]

theorem others_congr (agree : ∀ k, set' k = set k ∨ (set' k).valid = false ∧ (set k).valid = false) :
    others numAssoc addr set' = others numAssoc addr set := by
  unfold others
  induction List.range numAssoc with
  | nil => rfl
  | cons k rest ih =>
    rw [List.map_cons, List.map_cons, List.filter_cons, List.filter_cons, ih]
    rcases agree k with same | ⟨none', none⟩
    · rw [same]
    · simp [CacheEntry.other, none', none]

theorem others_set1 {entry : CacheEntry δ} (found : HitAt numAssoc addr set i)
    (new : entry.address.physical = addr.physical) :
    others numAssoc addr (set1 set i entry) = others numAssoc addr set := by
  unfold others
  induction List.range numAssoc with
  | nil => rfl
  | cons k rest ih =>
    rw [List.map_cons, List.map_cons, List.filter_cons, List.filter_cons, ih, set1_apply]
    split
    · rename_i here
      simp [CacheEntry.other, here, new, found.physical]
    · rfl

end CacheSet

/-! ### Writes -/

/-- The hit is at way 0, or behind two ways that are not valid. -/
def WriteFitsAt (set : CacheSet δ) (i : Nat) : Prop :=
  i = 0 ∨ 2 ≤ i ∧ (set 0).valid = false ∧ (set 1).valid = false

/-- Where the shift of `Write` does what that of `Read` does: the way of the line fits. -/
def WriteFits (numAssoc : Nat) (set : CacheSet δ) (addr : NVMAddress) : Prop :=
  ∀ i < numAssoc, (set i).hit addr = true → WriteFitsAt set i

namespace CacheSet

variable {numAssoc : Nat} {addr : NVMAddress} {data : δ} {set : CacheSet δ} {i : Nat}
  {lines : Nat → Option (δ × Bool)}

theorem HitAt.overwrite (found : HitAt numAssoc addr set i) :
    HitAt numAssoc addr (CacheSet.overwrite data set i) i := by
  refine ⟨found.inside, ?_, fun k inside here => ?_⟩
  · rw [CacheSet.overwrite, set1_self]
    exact found.here
  · unfold CacheSet.overwrite at here
    rw [set1_apply] at here
    split at here
    · assumption
    · exact found.only k inside here

theorem moveToFront_agree (fits : WriteFitsAt set i) (k : Nat) :
    moveToFront set 1 i k = moveToFront set 0 i k ∨
      (moveToFront set 1 i k).valid = false ∧ (moveToFront set 0 i k).valid = false := by
  unfold moveToFront
  rw [set1_apply, set1_apply, shift_apply, shift_apply]
  rcases fits with rfl | ⟨far, first, second⟩
  · left
    rw [if_neg (by omega : ¬(1 < k ∧ k ≤ 0)), if_neg (by omega : ¬(0 < k ∧ k ≤ 0))]
  · by_cases one : k = 1
    · subst one
      right
      rw [if_neg (by omega), if_neg (by omega), if_neg (by omega), if_pos (by omega)]
      exact ⟨second, first⟩
    · left
      by_cases shifted : 0 < k ∧ k ≤ i
      · rw [if_pos (by omega : 1 < k ∧ k ≤ i), if_pos shifted]
      · rw [if_neg (by omega : ¬(1 < k ∧ k ≤ i)), if_neg shifted]

theorem writeFitsAt_overwrite (data : δ) (fits : WriteFitsAt set i) : WriteFitsAt (overwrite data set i) i := by
  rcases fits with rfl | ⟨far, first, second⟩
  · exact .inl rfl
  · refine .inr ⟨far, ?_, ?_⟩
    · rwa [overwrite, set1_of_ne _ _ (by omega)]
    · rwa [overwrite, set1_of_ne _ _ (by omega)]

/-- **A write that fits** refines the write of the line, and moves it to the front. -/
theorem HitAt.write_refines (found : HitAt numAssoc addr set i) (refines : SetRefines numAssoc set lines)
    (fits : WriteFitsAt set i) :
    SetRefines numAssoc (write numAssoc addr data set).1 (set1 lines addr.physical (some (data, true))) ∧
      InFront numAssoc addr set (write numAssoc addr data set).1 := by
  have agree := moveToFront_agree (writeFitsAt_overwrite data fits)
  have written := refines.replaceHit found { set i with data := data, dirty := true } fun _ => found.physical
  rw [if_pos (show _ = true from found.valid)] at written
  rw [found.write_eq]
  refine ⟨(written.moveToFront found.inside).congr agree, ?_, ?_⟩
  · show (moveToFront (CacheSet.overwrite data set i) 1 i 0).hit addr = true
    rw [moveToFront_zero]
    exact found.overwrite.here
  · rw [others_congr agree, others_moveToFront found.overwrite]
    exact others_set1 found found.physical

theorem moveToFront_overwrite_apply (k : Nat) : moveToFront (overwrite data set i) 1 i k =
    if k = 0 then overwrite data set i i else
      if 1 < k ∧ k ≤ i then overwrite data set i (k - 1) else overwrite data set i k := by
  rw [moveToFront, set1_apply, shift_apply]

theorem overwrite_of_ne {k : Nat} (other : k ≠ i) : overwrite data set i k = set k := set1_of_ne _ _ other

theorem HitAt.twice_in_front (found : HitAt numAssoc addr set 1) :
    ¬SetRefines numAssoc (moveToFront (CacheSet.overwrite data set 1) 1 1) lines := by
  intro after
  have here : moveToFront (CacheSet.overwrite data set 1) 1 1 1 =
      moveToFront (CacheSet.overwrite data set 1) 1 1 0 := by
    rw [moveToFront_overwrite_apply, moveToFront_overwrite_apply, if_neg (by omega), if_neg (by omega), if_pos rfl]
  have valid : (moveToFront (CacheSet.overwrite data set 1) 1 1 0).valid = true := by
    rw [moveToFront_zero]
    exact found.overwrite.valid
  have inside := found.inside
  have same := after.distinct 0 (by omega) 1 inside valid (by rw [here, valid]) (by rw [here])
  omega

theorem HitAt.twice_behind (found : HitAt numAssoc addr set i) (far : 2 ≤ i) (second : (set 1).valid = true) :
    ¬SetRefines numAssoc (moveToFront (CacheSet.overwrite data set i) 1 i) lines := by
  intro after
  have inside := found.inside
  have atOne : moveToFront (CacheSet.overwrite data set i) 1 i 1 = set 1 := by
    rw [moveToFront_overwrite_apply, if_neg (by omega), if_neg (by omega), overwrite_of_ne (by omega)]
  have atTwo : moveToFront (CacheSet.overwrite data set i) 1 i 2 = set 1 := by
    rw [moveToFront_overwrite_apply, if_neg (by omega), if_pos (by omega), overwrite_of_ne (by omega)]
  have same := after.distinct 1 (by omega) 2 (by omega) (by rw [atOne, second]) (by rw [atTwo, second])
    (by rw [atOne, atTwo])
  omega

theorem HitAt.lost_first (found : HitAt numAssoc addr set i) (refines : SetRefines numAssoc set lines)
    (far : 2 ≤ i) (first : (set 0).valid = true) :
    ¬SetRefines numAssoc (moveToFront (CacheSet.overwrite data set i) 1 i)
      (set1 lines addr.physical (some (data, true))) := by
  intro after
  have inside := found.inside
  have apart : (set 0).address.physical ≠ addr.physical := fun same => by
    have := found.only 0 (by omega) (hit_iff.mpr ⟨same, first⟩)
    omega
  have line := (refines.lines _ _).mpr ⟨0, by omega, first, rfl, rfl⟩
  rw [← set1_of_ne lines (some (data, true)) apart] at line
  obtain ⟨k, small, valid, physical, -⟩ := (after.lines _ _).mp line
  have other : ∀ k < numAssoc, k ≠ i → (CacheSet.overwrite data set i k).valid = true →
      (CacheSet.overwrite data set i k).address.physical = (set 0).address.physical → k = 0 := by
    intro k small different valid physical
    rw [overwrite_of_ne different] at valid physical
    exact refines.distinct k small 0 (by omega) valid first physical
  rw [moveToFront_overwrite_apply] at valid physical
  split at valid
  · rename_i front
    rw [if_pos front] at physical
    exact apart (physical.symm.trans found.overwrite.physical)
  · rename_i behind
    rw [if_neg behind] at physical
    split at valid
    · rename_i shifted
      rw [if_pos shifted] at physical
      have := other (k - 1) (by omega) (by omega) valid physical
      omega
    · rename_i still
      rw [if_neg still] at physical
      exact behind (other k small (by omega) valid physical)

/-- **A write that does not fit** loses a line or holds one twice. -/
theorem HitAt.writeFitsAt_of_refines (found : HitAt numAssoc addr set i) (refines : SetRefines numAssoc set lines)
    (after : SetRefines numAssoc (write numAssoc addr data set).1
      (set1 lines addr.physical (some (data, true)))) : WriteFitsAt set i := by
  rw [found.write_eq] at after
  rcases (by omega : i = 0 ∨ i = 1 ∨ 2 ≤ i) with front | rfl | far
  · exact .inl front
  · exact absurd after found.twice_in_front
  · refine .inr ⟨far, ?_, ?_⟩
    · cases first : (set 0).valid with
      | true => exact absurd after (found.lost_first refines far first)
      | false => rfl
    · cases second : (set 1).valid with
      | true => exact absurd after (found.twice_behind far second)
      | false => rfl

/-! ### The other operations -/

theorem HitAt.read_refines (found : HitAt numAssoc addr set i) (refines : SetRefines numAssoc set lines) :
    SetRefines numAssoc (read numAssoc addr set).1 lines ∧ InFront numAssoc addr set (read numAssoc addr set).1 := by
  rw [found.read_eq]
  refine ⟨refines.moveToFront found.inside, ?_, others_moveToFront found⟩
  show (moveToFront set 0 i 0).hit addr = true
  rw [moveToFront_zero]
  exact found.here

theorem HitAt.updateData_refines (found : HitAt numAssoc addr set i) (refines : SetRefines numAssoc set lines) :
    SetRefines numAssoc (updateData numAssoc addr data set).1
      (set1 lines addr.physical ((lines addr.physical).map fun line => (data, line.2))) := by
  have updated := refines.replaceHit found { set i with data := data } fun _ => found.physical
  rw [if_pos (show _ = true from found.valid)] at updated
  rw [found.updateData_eq, refines.line_of_hitAt found]
  exact updated

theorem evict_refines (refines : SetRefines numAssoc set lines) :
    SetRefines numAssoc (evict numAssoc addr set).1 (set1 lines addr.physical none) ∧
      (evict numAssoc addr set).2 = lines addr.physical := by
  cases present : CacheSet.present numAssoc addr set with
  | true =>
    obtain ⟨i, found⟩ := refines.hitAt present
    rw [found.evict_eq, refines.line_of_hitAt found]
    exact ⟨refines.replaceHit found { set i with valid := false, dirty := false } nofun, rfl⟩
  | false =>
    have nowhere : (List.range numAssoc).find? (fun i => (set i).hit addr) = none :=
      List.find?_eq_none.mpr (List.any_eq_false.mp present)
    rw [evict, nowhere, set1_same (refines.absent present), refines.absent present]
    exact ⟨refines, rfl⟩

/-- What is not valid is not dirty. -/
def Clean (set : CacheSet δ) : Prop := ∀ k, (set k).valid = false → (set k).dirty = false

theorem install_refines (refines : SetRefines numAssoc set lines) (clean : Clean set)
    (absent : CacheSet.present numAssoc addr set = false) (room : setFull numAssoc set = false) :
    SetRefines numAssoc (install numAssoc addr data set).1 (set1 lines addr.physical (some (data, false))) := by
  unfold install
  cases first : (List.range numAssoc).find? (fun i => !(set i).valid) with
  | none =>
    have full : setFull numAssoc set = true := List.all_eq_true.mpr fun i member => by
      simpa using List.find?_eq_none.mp first i member
    rw [full] at room
    cases room
  | some i =>
    have inside := List.mem_range.mp (List.mem_of_find?_eq_some first)
    have free : (set i).valid = false := by simpa using List.find?_some (p := fun i => !(set i).valid) first
    have alone : ∀ k < numAssoc, k ≠ i → (set k).valid = true → (set k).address.physical ≠ addr.physical :=
      fun k small _ valid physical => List.any_eq_false.mp absent k (List.mem_range.mpr small)
        (hit_iff.mpr ⟨physical, valid⟩)
    have installed := refines.replace inside { set i with address := addr, data := data, valid := true }
      (fun valid => by rw [free] at valid; cases valid) alone fun _ => rfl
    rw [if_pos rfl] at installed
    show SetRefines numAssoc _ (set1 lines addr.physical (some (data, false)))
    rw [← clean i free]
    exact installed

theorem exists_moveToFront (set : CacheSet δ) (stop i k : Nat) : ∃ j, moveToFront set stop i k = set j := by
  rw [moveToFront, set1_apply, shift_apply]
  split
  · exact ⟨i, rfl⟩
  · split
    · exact ⟨k - 1, rfl⟩
    · exact ⟨k, rfl⟩

theorem Clean.moveToFront (clean : Clean set) (stop i : Nat) : Clean (moveToFront set stop i) := by
  intro k none
  obtain ⟨j, same⟩ := exists_moveToFront set stop i k
  rw [same] at none ⊢
  exact clean j none

theorem Clean.set1 {entry : CacheEntry δ} (clean : Clean set) (i : Nat)
    (new : entry.valid = false → entry.dirty = false) : Clean (set1 set i entry) := by
  intro k none
  rw [set1_apply] at none ⊢
  split
  · rename_i here
    rw [if_pos here] at none
    exact new none
  · rename_i away
    rw [if_neg away] at none
    exact clean k none

end CacheSet

/-! ### One operation -/

namespace CacheOp

variable (numAssoc : Nat) (set : CacheSet δ)

/-- `Install` is of a line that is not there, into a set with room; `Read`, `Write` and `UpdateData` are of
lines that are there. -/
def Allowed : CacheOp δ → Prop
  | install addr _ => CacheSet.present numAssoc addr set = false ∧ CacheSet.setFull numAssoc set = false
  | read addr | write addr _ | updateData addr _ => CacheSet.present numAssoc addr set = true
  | evict _ => True

/-- Every `Write` fits. -/
def Fits : CacheOp δ → Prop
  | write addr _ => WriteFits numAssoc set addr
  | _ => True

/-- What an operation returns is of its line, and a line that was read or written is in front. -/
def Answers (line : Option (δ × Bool)) : CacheOp δ → Prop
  | read addr => (CacheSet.read numAssoc addr set).2 = line.map Prod.fst ∧
      InFront numAssoc addr set (CacheSet.read numAssoc addr set).1
  | write addr data => InFront numAssoc addr set (CacheSet.write numAssoc addr data set).1
  | evict addr => (CacheSet.evict numAssoc addr set).2 = line
  | _ => True

variable {numAssoc set} {lines : Nat → Option (δ × Bool)} {op : CacheOp δ}

open CacheSet

/-- **One operation on its set**, if it fits. -/
theorem onSet_refines (refines : SetRefines numAssoc set lines) (clean : Clean set)
    (allowed : op.Allowed numAssoc set) (fits : op.Fits numAssoc set) :
    SetRefines numAssoc (op.onSet numAssoc set) (set1 lines op.addr.physical (op.onLine (lines op.addr.physical))) ∧
      op.Answers numAssoc set (lines op.addr.physical) := by
  cases op with
  | install addr data => exact ⟨install_refines refines clean allowed.1 allowed.2, trivial⟩
  | read addr =>
    obtain ⟨i, found⟩ := refines.hitAt allowed
    obtain ⟨after, front⟩ := found.read_refines refines
    refine ⟨?_, ?_, front⟩
    · show SetRefines numAssoc _ (set1 lines addr.physical (lines addr.physical))
      rw [set1_same rfl]
      exact after
    · show (CacheSet.read numAssoc addr set).2 = (lines addr.physical).map Prod.fst
      rw [found.read_eq, refines.line_of_hitAt found]
      rfl
  | write addr data =>
    obtain ⟨i, found⟩ := refines.hitAt allowed
    exact found.write_refines refines (fits i found.inside found.here)
  | updateData addr data =>
    obtain ⟨i, found⟩ := refines.hitAt allowed
    exact ⟨found.updateData_refines refines, trivial⟩
  | evict addr => exact evict_refines refines

theorem onSet_clean (refines : SetRefines numAssoc set lines) (clean : Clean set)
    (allowed : op.Allowed numAssoc set) : Clean (op.onSet numAssoc set) := by
  cases op with
  | install addr data =>
    show Clean (CacheSet.install numAssoc addr data set).1
    unfold CacheSet.install
    split
    · exact clean.set1 _ nofun
    · exact clean
  | read addr =>
    obtain ⟨i, found⟩ := refines.hitAt allowed
    show Clean (CacheSet.read numAssoc addr set).1
    rw [found.read_eq]
    exact clean.moveToFront 0 i
  | write addr data =>
    obtain ⟨i, found⟩ := refines.hitAt allowed
    show Clean (CacheSet.write numAssoc addr data set).1
    rw [found.write_eq]
    refine Clean.moveToFront (clean.set1 i fun none => ?_) 1 i
    exact absurd (found.valid.symm.trans none) nofun
  | updateData addr data =>
    obtain ⟨i, found⟩ := refines.hitAt allowed
    show Clean (CacheSet.updateData numAssoc addr data set).1
    rw [found.updateData_eq]
    exact clean.set1 i (clean i)
  | evict addr =>
    show Clean (CacheSet.evict numAssoc addr set).1
    unfold CacheSet.evict
    split
    · exact clean.set1 _ fun _ => rfl
    · exact clean

theorem fits_of_refines (refines : SetRefines numAssoc set lines) (allowed : op.Allowed numAssoc set)
    (after : SetRefines numAssoc (op.onSet numAssoc set)
      (set1 lines op.addr.physical (op.onLine (lines op.addr.physical)))) : op.Fits numAssoc set := by
  cases op with
  | write addr data =>
    obtain ⟨i, found⟩ := refines.hitAt allowed
    intro k inside here
    rw [found.only k inside here]
    exact found.writeFitsAt_of_refines refines after
  | install _ _ | read _ | updateData _ _ | evict _ => trivial

end CacheOp

/-! ### Runs -/

section Runs

variable (params : CacheParams)

/-- The operation is allowed on the set of its address. -/
def CacheBank.Allowed (cache : CacheBank δ) (op : CacheOp δ) : Prop :=
  op.Allowed params.numAssoc (cache.findSet params op.addr)

/-- The operation does not reach the ways that `Write` would lose. -/
def CacheBank.Fits (cache : CacheBank δ) (op : CacheOp δ) : Prop :=
  op.Fits params.numAssoc (cache.findSet params op.addr)

/-- The cache behaves like the map: all along the operations it refines it, what an operation returns is of
its line, and a line that was read or written is in front with the others in their order. -/
def CacheBank.Behaves : CacheBank δ → CacheMap δ → List (CacheOp δ) → Prop
  | cache, map, [] => Refines params cache map
  | cache, map, op :: rest => Refines params cache map ∧
      op.Answers params.numAssoc (cache.findSet params op.addr) (map.find params op.addr) ∧
      Behaves (cache.apply params op) (map.apply params op) rest

variable {params} {cache : CacheBank δ} {map : CacheMap δ} {op : CacheOp δ}

theorem CacheBank.Behaves.refines {ops : List (CacheOp δ)} (behaves : cache.Behaves params map ops) :
    Refines params cache map := by
  cases ops with
  | nil => exact behaves
  | cons op rest => exact behaves.1

theorem apply_cacheEntry (row setID : Nat) : (cache.apply params op).cacheEntry row setID =
    if row = op.addr.row ∧ setID = params.decodeFunc op.addr then
      op.onSet params.numAssoc (cache.findSet params op.addr)
    else cache.cacheEntry row setID := rfl

theorem refines_apply_iff (refines : Refines params cache map) :
    Refines params (cache.apply params op) (map.apply params op) ↔
      SetRefines params.numAssoc (op.onSet params.numAssoc (cache.findSet params op.addr))
        (set1 (map op.addr.row (params.decodeFunc op.addr)) op.addr.physical
          (op.onLine (map.find params op.addr))) := by
  have here : ∀ row setID, map.apply params op row setID =
      if row = op.addr.row ∧ setID = params.decodeFunc op.addr then
        set1 (map op.addr.row (params.decodeFunc op.addr)) op.addr.physical (op.onLine (map.find params op.addr))
      else map row setID := by
    intro row setID
    funext physical
    unfold CacheMap.apply
    rw [set3_apply]
    by_cases same : row = op.addr.row ∧ setID = params.decodeFunc op.addr
    · obtain ⟨rfl, rfl⟩ := same
      simp [set1_apply]
    · rw [if_neg same, if_neg fun all => same ⟨all.1, all.2.1⟩]
  constructor
  · intro after
    have set := after op.addr.row (params.decodeFunc op.addr)
    rw [here, if_pos ⟨rfl, rfl⟩, apply_cacheEntry, if_pos ⟨rfl, rfl⟩] at set
    exact set
  · intro after row setID
    rw [here, apply_cacheEntry]
    split
    · exact after
    · exact refines row setID

theorem apply_clean (refines : Refines params cache map) (allowed : cache.Allowed params op)
    (clean : ∀ row setID, CacheSet.Clean (cache.cacheEntry row setID)) (row setID : Nat) :
    CacheSet.Clean ((cache.apply params op).cacheEntry row setID) := by
  rw [apply_cacheEntry]
  split
  · exact CacheOp.onSet_clean (refines _ _) (clean _ _) allowed
  · exact clean row setID

theorem behaves_iff (refines : Refines params cache map)
    (clean : ∀ row setID, CacheSet.Clean (cache.cacheEntry row setID)) {ops : List (CacheOp δ)}
    (allowed : AllowedRun (CacheBank.apply params) (CacheBank.Allowed params) cache ops) :
    cache.Behaves params map ops ↔ AllowedRun (CacheBank.apply params) (CacheBank.Fits params) cache ops := by
  induction ops generalizing cache map with
  | nil => exact ⟨fun _ => trivial, fun _ => refines⟩
  | cons op rest ih =>
    have again : Refines params (cache.apply params op) (map.apply params op) →
        (CacheBank.Behaves params (cache.apply params op) (map.apply params op) rest ↔
          AllowedRun (CacheBank.apply params) (CacheBank.Fits params) (cache.apply params op) rest) :=
      fun after => ih after (apply_clean refines allowed.1 clean) allowed.2
    constructor
    · rintro ⟨-, -, later⟩
      have after := later.refines
      have fits := CacheOp.fits_of_refines (refines _ _) allowed.1 ((refines_apply_iff refines).mp after)
      exact ⟨fits, (again after).mp later⟩
    · rintro ⟨fits, later⟩
      obtain ⟨set, answers⟩ := CacheOp.onSet_refines (refines _ _) (clean _ _) allowed.1 fits
      have after := (refines_apply_iff refines).mpr set
      exact ⟨refines, answers, (again after).mpr later⟩

end Runs

/-- **The cache refines a map exactly where every write fits.** Over every run of operations from the empty
cache. -/
theorem cache_refines_map_iff (params : CacheParams) (address : NVMAddress) (data : δ) (ops : List (CacheOp δ))
    (allowed : AllowedRun (CacheBank.apply params) (CacheBank.Allowed params) (CacheBank.create address data) ops) :
    (CacheBank.create address data).Behaves params (fun _ _ _ => none) ops ↔
      AllowedRun (CacheBank.apply params) (CacheBank.Fits params) (CacheBank.create address data) ops := by
  refine behaves_iff (fun row setID => ⟨?_, fun physical line => ⟨?_, ?_⟩⟩) (fun _ _ _ _ => rfl) allowed
  · intro i _ j _ valid
    cases valid
  · intro found
    cases found
  · rintro ⟨i, -, valid, -⟩
    cases valid

/-- A line of set 0. -/
def lineAddr (physical : Nat) : NVMAddress := ⟨physical, 0, 0, 0, 0, 0⟩

/-- Three lines in a set of four ways, of which two are evicted before the third is written. -/
def fittingOps : List (CacheOp Nat) :=
  [.install (lineAddr 1) 10, .install (lineAddr 2) 20, .install (lineAddr 3) 30, .read (lineAddr 2),
    .write (lineAddr 2) 21, .evict (lineAddr 1), .evict (lineAddr 2), .write (lineAddr 3) 31,
    .updateData (lineAddr 3) 32]

theorem cache_refines_map_fittingOps :
    (CacheBank.create (lineAddr 0) 0).Behaves ⟨4, fun _ => 0⟩ (fun _ _ _ => none) fittingOps := by
  refine (cache_refines_map_iff ⟨4, fun _ => 0⟩ (lineAddr 0) 0 fittingOps ?_).mpr ?_
  · exact ⟨⟨rfl, rfl⟩, ⟨rfl, rfl⟩, ⟨rfl, rfl⟩, rfl, rfl, trivial, trivial, rfl, rfl, trivial⟩
  · refine ⟨trivial, trivial, trivial, trivial, ?_, trivial, trivial, ?_, trivial, trivial⟩
    · intro i small here
      exact .inl (by revert i; decide)
    · intro i small here
      obtain rfl : i = 2 := by revert i; decide
      exact .inr ⟨by decide, rfl, rfl⟩

/-- **A write of the second line loses the first.** It is then at both ways. -/
theorem write_loses_line :
    AllowedRun (CacheBank.apply ⟨2, fun _ => 0⟩) (CacheBank.Allowed ⟨2, fun _ => 0⟩)
      (CacheBank.create (lineAddr 0) 0)
      [.install (lineAddr 1) 10, .install (lineAddr 2) 20, .write (lineAddr 2) 21] ∧
    ¬(CacheBank.create (lineAddr 0) 0).Behaves ⟨2, fun _ => 0⟩ (fun _ _ _ => none)
      [.install (lineAddr 1) 10, .install (lineAddr 2) 20, .write (lineAddr 2) 21] := by
  refine ⟨⟨⟨rfl, rfl⟩, ⟨rfl, rfl⟩, rfl, trivial⟩, ?_⟩
  rintro ⟨-, -, -, -, -, -, last⟩
  have same : (0 : Nat) = 1 := (last 0 0).distinct 0 (by decide) 1 (by decide) rfl rfl rfl
  cases same

end Emas.Nvmain

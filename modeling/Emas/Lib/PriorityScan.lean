/-
**Ordered insertion by a scan over stored keys.**

A list is filled one element after the other: `place` puts a new element in front of the first one
whose `stored` key is greater than the `argument` given for the new one. The two keys may disagree,
and then the list need not come out in the order of the arguments. `arrange_pairwise_iff` says exactly
when it does: the list `arrange seq` is in argument order, and in insertion order among equal
arguments, if and only if every new element `Fits` those before it — no earlier element with an
argument up to the new one is stored above it, and the first of the earlier elements with a greater
argument is.
-/

import Mathlib.Data.List.Perm.Basic
import Mathlib.Data.List.Induction
import Mathlib.Data.List.TakeWhile
import Mathlib.Order.Lattice

namespace Emas.PriorityScan

variable {α π : Type} [LinearOrder π] (argument stored : α → π) (index : α → Nat)

/-- The scan: in front of the first element stored above the argument, or at the end. -/
def place (new : α) : List α → List α
  | [] => [new]
  | head :: rest => if stored head > argument new then new :: head :: rest else head :: place new rest

/-- Fill an empty list. -/
def arrange (seq : List α) : List α := seq.foldl (fun list new => place argument stored new list) []

/-- The order asked for: by argument, then by insertion. -/
def Before (first second : α) : Prop :=
  argument first < argument second ∨ argument first = argument second ∧ index first < index second

instance (first second : α) : Decidable (Before argument index first second) :=
  inferInstanceAs (Decidable (_ ∨ _ ∧ _))

/-- The scan finds the right place for `new`. -/
structure Fits (list : List α) (new : α) : Prop where
  low : ∀ item ∈ list, argument item ≤ argument new → stored item ≤ argument new
  high : ∀ item ∈ list, argument new < argument item →
    (∀ other ∈ list, argument new < argument other → other = item ∨ Before argument index item other) →
      argument new < stored item

/-- Every element fits those inserted before it. -/
def Orderly (seq : List α) : Prop :=
  ∀ front new back, seq = front ++ new :: back → Fits argument stored index front new

variable {argument stored index}

variable (argument stored) in
/-- The elements the scan passes. -/
def lowPart (new : α) (list : List α) : List α :=
  list.takeWhile fun item => decide (stored item ≤ argument new)

variable (argument stored) in
/-- The elements from the one the scan stops at. -/
def highPart (new : α) (list : List α) : List α :=
  list.dropWhile fun item => decide (stored item ≤ argument new)

variable (argument stored) in
theorem lowPart_append_highPart (new : α) (list : List α) :
    lowPart argument stored new list ++ highPart argument stored new list = list :=
  List.takeWhile_append_dropWhile

theorem stored_le_of_mem_lowPart {new item : α} {list : List α}
    (member : item ∈ lowPart argument stored new list) : stored item ≤ argument new := by
  simpa using List.mem_takeWhile_imp member

theorem lt_stored_of_highPart_eq {new first : α} {list tail : List α}
    (stops : highPart argument stored new list = first :: tail) : argument new < stored first := by
  unfold highPart at stops
  have head := List.head_dropWhile_not (p := fun item => decide (stored item ≤ argument new))
    (l := list) (by rw [stops]; simp)
  simpa [stops] using head

theorem place_eq (new : α) : ∀ list : List α, place argument stored new list =
    lowPart argument stored new list ++ new :: highPart argument stored new list
  | [] => rfl
  | head :: rest => by
      have later := place_eq new rest
      unfold lowPart highPart at later ⊢
      rw [place]
      by_cases above : stored head > argument new
      · simp [above, not_le.mpr above]
      · simp [above, not_lt.mp above, later]

theorem place_perm (new : α) (list : List α) : (place argument stored new list).Perm (new :: list) := by
  rw [place_eq]
  refine List.perm_middle.trans (List.Perm.cons new ?_)
  rw [lowPart_append_highPart]

theorem arrange_append (seq : List α) (new : α) :
    arrange argument stored (seq ++ [new]) = place argument stored new (arrange argument stored seq) := by
  rw [arrange, List.foldl_append]
  rfl

theorem arrange_perm (seq : List α) : (arrange argument stored seq).Perm seq := by
  induction seq using List.reverseRecOn with
  | nil => exact .refl _
  | append_singleton seq new ih =>
    rw [arrange_append]
    exact ((place_perm new _).trans (ih.cons new)).trans (List.perm_append_singleton new seq).symm

variable {first second : α}

theorem Before.argument_le (before : Before argument index first second) : argument first ≤ argument second := by
  rcases before with less | ⟨equal, _⟩
  · exact le_of_lt less
  · exact le_of_eq equal

theorem Before.asymm (before : Before argument index first second) : ¬ Before argument index second first := by
  intro after
  rcases before with less | ⟨equal, earlier⟩
  · exact absurd less (not_lt.mpr after.argument_le)
  · rcases after with less | ⟨_, later⟩
    · exact absurd less (by rw [equal]; exact lt_irrefl _)
    · omega

theorem Before.argument_lt (before : Before argument index first second)
    (later : index second < index first) : argument first < argument second := by
  rcases before with less | ⟨_, earlier⟩
  · exact less
  · omega

theorem exists_first_above {list : List α} (sorted : list.Pairwise (Before argument index))
    {bound : π} {item : α} (member : item ∈ list) (above : bound < argument item) :
    ∃ front first back, list = front ++ first :: back ∧ bound < argument first ∧
      (∀ other ∈ front, argument other ≤ bound) ∧ (item = first ∨ item ∈ back) := by
  induction list with
  | nil => simp at member
  | cons head rest ih =>
    by_cases here : bound < argument head
    · exact ⟨[], head, rest, rfl, here, by simp, List.mem_cons.mp member⟩
    · have later : item ∈ rest := by
        rcases List.mem_cons.mp member with rfl | later
        · exact absurd above here
        · exact later
      obtain ⟨front, first, back, split, greater, below, place⟩ := ih sorted.of_cons later
      refine ⟨head :: front, first, back, by rw [split]; rfl, greater, fun other inFront => ?_, place⟩
      rcases List.mem_cons.mp inFront with rfl | deeper
      · exact not_lt.mp here
      · exact below other deeper

section Place

variable {list : List α} {new : α}

theorem fits_of_pairwise_place (later : ∀ item ∈ list, index item < index new)
    (sorted : (place argument stored new list).Pairwise (Before argument index)) :
    Fits argument stored index list new := by
  have split := lowPart_append_highPart argument stored new list
  rw [place_eq, List.pairwise_append] at sorted
  obtain ⟨_, sortedHigh, across⟩ := sorted
  have lowSide : ∀ item ∈ lowPart argument stored new list, argument item ≤ argument new :=
    fun item member => (across item member new (List.mem_cons_self ..)).argument_le
  have highSide : ∀ item ∈ highPart argument stored new list, argument new < argument item :=
    fun item member => ((List.pairwise_cons.mp sortedHigh).1 item member).argument_lt
      (later item (by rw [← split]; exact List.mem_append_right _ member))
  refine ⟨fun item member low => ?_, fun item member high least => ?_⟩
  · rw [← split] at member
    rcases List.mem_append.mp member with front | back
    · exact stored_le_of_mem_lowPart front
    · exact absurd (highSide item back) (not_lt.mpr low)
  · rw [← split] at member
    rcases List.mem_append.mp member with front | back
    · exact absurd high (not_lt.mpr (lowSide item front))
    · cases rest : highPart argument stored new list with
      | nil => rw [rest] at back; simp at back
      | cons first tail =>
        have firstStored := lt_stored_of_highPart_eq rest
        rw [rest] at back highSide sortedHigh split
        have firstLeast := least first
          (by rw [← split]; exact List.mem_append_right _ (List.mem_cons_self ..))
          (highSide first (List.mem_cons_self ..))
        rcases firstLeast with rfl | before
        · exact firstStored
        · rcases List.mem_cons.mp back with rfl | inTail
          · exact firstStored
          · have sortedTail := (List.pairwise_cons.mp sortedHigh).2
            exact absurd before ((List.pairwise_cons.mp sortedTail).1 item inTail).asymm

theorem argument_le_of_mem_lowPart (sorted : list.Pairwise (Before argument index))
    (fits : Fits argument stored index list new) {item : α}
    (member : item ∈ lowPart argument stored new list) : argument item ≤ argument new := by
  by_contra above
  have split := lowPart_append_highPart argument stored new list
  have inList : item ∈ list := by rw [← split]; exact List.mem_append_left _ member
  obtain ⟨front, first, back, whole, greater, below, position⟩ :=
    exists_first_above sorted inList (not_le.mp above)
  have firstMember : first ∈ list := by rw [whole]; simp
  have sortedWhole := sorted
  rw [whole, List.pairwise_append] at sortedWhole
  have behind := (List.pairwise_cons.mp sortedWhole.2.1).1
  have firstStored := fits.high first firstMember greater fun other inWhole high => by
    rw [whole] at inWhole
    rcases List.mem_append.mp inWhole with inFront | inBack
    · exact absurd high (not_lt.mpr (below other inFront))
    · exact (List.mem_cons.mp inBack).imp_right (behind other)
  have notLow : first ∉ lowPart argument stored new list := fun inLow =>
    absurd firstStored (not_lt.mpr (stored_le_of_mem_lowPart inLow))
  have inHigh : first ∈ highPart argument stored new list := by
    rw [← split] at firstMember
    exact (List.mem_append.mp firstMember).resolve_left notLow
  rw [← split, List.pairwise_append] at sorted
  rcases position with rfl | later
  · exact notLow member
  · exact (behind item later).asymm (sorted.2.2 item member first inHigh)

theorem argument_lt_of_mem_highPart (sorted : list.Pairwise (Before argument index))
    (fits : Fits argument stored index list new) {item : α}
    (member : item ∈ highPart argument stored new list) : argument new < argument item := by
  have split := lowPart_append_highPart argument stored new list
  cases rest : highPart argument stored new list with
  | nil => rw [rest] at member; simp at member
  | cons first tail =>
    have firstStored := lt_stored_of_highPart_eq rest
    rw [rest] at member split
    rw [← split, List.pairwise_append] at sorted
    have firstHigh : argument new < argument first := by
      by_contra low
      exact absurd firstStored (not_lt.mpr (fits.low first
        (by rw [← split]; exact List.mem_append_right _ (List.mem_cons_self ..)) (not_lt.mp low)))
    rcases List.mem_cons.mp member with rfl | inTail
    · exact firstHigh
    · exact lt_of_lt_of_le firstHigh
        ((List.pairwise_cons.mp sorted.2.1).1 item inTail).argument_le

theorem pairwise_place_of_fits (later : ∀ item ∈ list, index item < index new)
    (sorted : list.Pairwise (Before argument index)) (fits : Fits argument stored index list new) :
    (place argument stored new list).Pairwise (Before argument index) := by
  have split := lowPart_append_highPart argument stored new list
  have parts := sorted
  rw [← split, List.pairwise_append] at parts
  rw [place_eq, List.pairwise_append]
  refine ⟨parts.1, List.pairwise_cons.mpr
    ⟨fun item member => Or.inl (argument_lt_of_mem_highPart sorted fits member), parts.2.1⟩,
    fun item member other member' => ?_⟩
  rcases List.mem_cons.mp member' with rfl | inHigh
  · have inList : item ∈ list := by rw [← split]; exact List.mem_append_left _ member
    rcases lt_or_eq_of_le (argument_le_of_mem_lowPart sorted fits member) with less | equal
    · exact Or.inl less
    · exact Or.inr ⟨equal, later item inList⟩
  · exact parts.2.2 item member other inHigh

theorem sublist_place (new : α) (list : List α) : list.Sublist (place argument stored new list) := by
  rw [place_eq]
  conv_lhs => rw [← lowPart_append_highPart argument stored new list]
  exact (List.Sublist.refl _).append (List.sublist_cons_self ..)

end Place

theorem Fits.of_mem_iff {list list' : List α} {new : α} (same : ∀ item, item ∈ list ↔ item ∈ list')
    (fits : Fits argument stored index list new) : Fits argument stored index list' new where
  low item member := fits.low item ((same item).mpr member)
  high item member above least :=
    fits.high item ((same item).mpr member) above fun other member' =>
      least other ((same other).mp member')

theorem orderly_append_iff (seq : List α) (new : α) :
    Orderly argument stored index (seq ++ [new]) ↔
      Orderly argument stored index seq ∧ Fits argument stored index seq new := by
  constructor
  · intro orderly
    refine ⟨fun front item back split => orderly front item (back ++ [new]) (by rw [split]; simp),
      orderly seq new [] rfl⟩
  · rintro ⟨orderly, fits⟩ front item back split
    rcases back.eq_nil_or_concat with rfl | ⟨back, last, rfl⟩
    · obtain ⟨rfl, same⟩ := List.append_inj' split rfl
      cases same
      exact fits
    · rw [List.concat_eq_append, ← List.cons_append, ← List.append_assoc] at split
      exact orderly front item back (List.append_inj' split rfl).1

theorem orderly_of_stored_eq {seq : List α} (agree : ∀ item ∈ seq, stored item = argument item) :
    Orderly argument stored index seq := by
  intro front new back split
  have agreeFront : ∀ item ∈ front, stored item = argument item := fun item member =>
    agree item (by rw [split]; exact List.mem_append_left _ member)
  refine ⟨fun item member low => ?_, fun item member high _ => ?_⟩
  · rw [agreeFront item member]
    exact low
  · rw [agreeFront item member]
    exact high

/-- **When the scan sorts.** -/
theorem arrange_pairwise_iff {seq : List α}
    (increasing : seq.Pairwise fun first second => index first < index second) :
    (arrange argument stored seq).Pairwise (Before argument index) ↔ Orderly argument stored index seq := by
  induction seq using List.reverseRecOn with
  | nil => exact ⟨fun _ front new back split => by simp at split, fun _ => List.Pairwise.nil⟩
  | append_singleton seq new ih =>
    obtain ⟨before, _, across⟩ := List.pairwise_append.mp increasing
    have member : ∀ item, item ∈ arrange argument stored seq ↔ item ∈ seq := fun item =>
      (arrange_perm seq).mem_iff
    have later : ∀ item ∈ arrange argument stored seq, index item < index new := fun item inList =>
      across item ((member item).mp inList) new (List.mem_singleton_self _)
    rw [arrange_append, orderly_append_iff, ← ih before]
    constructor
    · intro sorted
      exact ⟨sorted.sublist (sublist_place new _), (fits_of_pairwise_place later sorted).of_mem_iff member⟩
    · rintro ⟨sorted, fits⟩
      exact pairwise_place_of_fits later sorted (fits.of_mem_iff fun item => (member item).symm)

end Emas.PriorityScan

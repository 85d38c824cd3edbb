/-
**Stack distances of a history.**

What the calls of a stack distance calculator are to return, from the calls before alone, most recent first. An address
is present when no removal follows its latest insertion. Its distance is the number of addresses inserted since, and not
removed again, each counted once.
-/

import Emas.Gem5.StackDist
import Mathlib.Data.Finset.Card

namespace Emas.Gem5

namespace StackCall

variable {Addr : Type}

def address : StackCall Addr → Addr
  | .calcStackDistAndUpdate a _ => a
  | .calcStackDist a _ => a

def inserts : StackCall Addr → Bool
  | .calcStackDistAndUpdate _ addNewNode => addNewNode
  | .calcStackDist _ _ => false

variable [DecidableEq Addr]

/-- The calls since the latest insertion of an address that is present. -/
def since (a : Addr) : List (StackCall Addr) → Option (List (StackCall Addr))
  | [] => none
  | call :: past =>
    if call = .calcStackDistAndUpdate a true then some []
    else if call = .calcStackDistAndUpdate a false then none
    else (since a past).map (call :: ·)

/-- An address was inserted, and not removed since. -/
def Present (past : List (StackCall Addr)) (a : Addr) : Prop := (since a past).isSome = true

instance (past : List (StackCall Addr)) : DecidablePred (Present past) :=
  fun a => inferInstanceAs (Decidable ((since a past).isSome = true))

/-- How many addresses were inserted, and not removed since. -/
def distinct (later : List (StackCall Addr)) : Nat := ((later.map address).toFinset.filter (Present later)).card

/-- The last mark set on an address. -/
def lastMark (a : Addr) : List (StackCall Addr) → Bool
  | [] => false
  | .calcStackDist b mark :: past => if b = a then mark else lastMark a past
  | .calcStackDistAndUpdate _ _ :: past => lastMark a past

/-- The distance and the mark of an address. -/
def expected (past : List (StackCall Addr)) (a : Addr) : Nat × Bool :=
  match since a past with
  | none => (StackDistCalc.infinity, false)
  | some later => (distinct later, lastMark a later)

/-- What calls are to return, after others. -/
def expectedAll (past : List (StackCall Addr)) : List (StackCall Addr) → List (Nat × Bool)
  | [] => []
  | call :: rest => expected past call.address :: expectedAll (call :: past) rest

/-! ### The naive stack -/

def onStack (stack : List (Addr × Bool)) : StackCall Addr → List (Addr × Bool)
  | .calcStackDistAndUpdate a true => (a, false) :: stack.filter fun entry => entry.1 ≠ a
  | .calcStackDistAndUpdate a false => stack.filter fun entry => entry.1 ≠ a
  | .calcStackDist a mark => stack.map fun entry => if entry.1 = a then (a, mark) else entry

/-- The present addresses with their marks, the latest insertion first, as `verifyStackDist` keeps them. -/
def naiveStack : List (StackCall Addr) → List (Addr × Bool)
  | [] => []
  | call :: past => onStack (naiveStack past) call

/-- What is found in a stack. -/
def Answers (stack : List (Addr × Bool)) (a : Addr) (answer : Nat × Bool) : Prop :=
  (∃ front mark back, stack = front ++ (a, mark) :: back ∧ answer = (front.length, mark)) ∨
    ((∀ mark, (a, mark) ∉ stack) ∧ answer = (StackDistCalc.infinity, false))

variable {past later : List (StackCall Addr)} {a b : Addr}

/-! ### Presence -/

theorem since_insert (a : Addr) (past : List (StackCall Addr)) :
    since a (.calcStackDistAndUpdate a true :: past) = some [] := if_pos rfl

theorem since_remove (a : Addr) (past : List (StackCall Addr)) :
    since a (.calcStackDistAndUpdate a false :: past) = none := by simp [since]

theorem since_update_of_ne (other : b ≠ a) (addNewNode : Bool) (past : List (StackCall Addr)) :
    since a (.calcStackDistAndUpdate b addNewNode :: past) =
      (since a past).map (.calcStackDistAndUpdate b addNewNode :: ·) := by
  simp [since, other]

theorem since_mark (a b : Addr) (mark : Bool) (past : List (StackCall Addr)) :
    since a (.calcStackDist b mark :: past) = (since a past).map (.calcStackDist b mark :: ·) := by
  simp [since]

theorem present_insert (x b : Addr) : Present (.calcStackDistAndUpdate b true :: past) x ↔ x = b ∨ Present past x := by
  by_cases same : b = x
  · subst same
    simp [Present, since_insert]
  · simp [Present, since_update_of_ne same, Ne.symm same]

theorem present_remove (x b : Addr) : Present (.calcStackDistAndUpdate b false :: past) x ↔ x ≠ b ∧ Present past x := by
  by_cases same : b = x
  · subst same
    simp [Present, since_remove]
  · simp [Present, since_update_of_ne same, Ne.symm same]

theorem present_mark (x b : Addr) (mark : Bool) : Present (.calcStackDist b mark :: past) x ↔ Present past x := by
  simp [Present, since_mark]

theorem Present.mem (present : Present past a) : a ∈ past.map address := by
  induction past with
  | nil => cases present
  | cons call past ih =>
    rw [List.map_cons, List.mem_cons]
    cases call with
    | calcStackDistAndUpdate b addNewNode =>
      cases addNewNode with
      | true => exact ((present_insert a b).mp present).imp_right ih
      | false => exact .inr (ih ((present_remove a b).mp present).2)
    | calcStackDist b mark => exact .inr (ih ((present_mark a b mark).mp present))

/-! ### The place of an address -/

theorem nodup_onStack {stack : List (Addr × Bool)} (nodup : (stack.map Prod.fst).Nodup) (call : StackCall Addr) :
    ((onStack stack call).map Prod.fst).Nodup := by
  have filtered : ∀ a : Addr, ((stack.filter fun entry => entry.1 ≠ a).map Prod.fst).Nodup :=
    fun a => nodup.sublist (List.filter_sublist.map _)
  cases call with
  | calcStackDistAndUpdate a addNewNode =>
    cases addNewNode with
    | true =>
      rw [onStack, List.map_cons, List.nodup_cons]
      exact ⟨by simp, filtered a⟩
    | false => exact filtered a
  | calcStackDist a mark =>
    have same : (onStack stack (.calcStackDist a mark)).map Prod.fst = stack.map Prod.fst := by
      rw [onStack, List.map_map]
      refine List.map_congr_left fun entry _ => ?_
      by_cases this : entry.1 = a
      · simp [this]
      · simp [this]
    rw [same]
    exact nodup

theorem nodup_naiveStack (past : List (StackCall Addr)) : ((naiveStack past).map Prod.fst).Nodup := by
  induction past with
  | nil => exact List.nodup_nil
  | cons call past ih => exact nodup_onStack ih call

theorem naiveStack_none (absent : since a past = none) (mark : Bool) : (a, mark) ∉ naiveStack past := by
  induction past generalizing mark with
  | nil => exact List.not_mem_nil
  | cons call past ih =>
    cases call with
    | calcStackDistAndUpdate b addNewNode =>
      by_cases same : b = a
      · subst same
        cases addNewNode with
        | true => simp [since_insert] at absent
        | false => simp [naiveStack, onStack]
      · rw [since_update_of_ne same, Option.map_eq_none_iff] at absent
        have fresh := ih absent mark
        cases addNewNode with
        | true => simp [naiveStack, onStack, fresh, Ne.symm same]
        | false => simp [naiveStack, onStack, fresh]
    | calcStackDist b mark' =>
      rw [since_mark, Option.map_eq_none_iff] at absent
      rw [naiveStack, onStack, List.mem_map]
      rintro ⟨entry, member, is⟩
      split at is
      next this =>
        obtain rfl : b = a := congrArg Prod.fst is
        exact ih absent entry.2 (this ▸ member)
      next => exact ih absent mark (is ▸ member)

/-- **The addresses before one that is present** are those inserted since. -/
theorem naiveStack_some (present : since a past = some later) :
    ∃ front back, naiveStack past = front ++ (a, lastMark a later) :: back ∧
      ∀ x, x ∈ front.map Prod.fst ↔ Present later x := by
  induction past generalizing later with
  | nil => cases present
  | cons call past ih =>
    cases call with
    | calcStackDistAndUpdate b addNewNode =>
      by_cases same : b = a
      · subst same
        cases addNewNode with
        | true =>
          rw [since_insert, Option.some.injEq] at present
          subst present
          refine ⟨[], _, rfl, fun x => ?_⟩
          simp [Present, since]
        | false => simp [since_remove] at present
      · rw [since_update_of_ne same, Option.map_eq_some_iff] at present
        obtain ⟨earlier, present', rfl⟩ := present
        obtain ⟨front, back, is, members⟩ := ih present'
        have stays : (a, lastMark a earlier).1 ≠ b := Ne.symm same
        have filtered : ∀ x, x ∈ (front.filter fun entry => entry.1 ≠ b).map Prod.fst ↔ x ≠ b ∧ Present earlier x := by
          intro x
          rw [← members x]
          simp [and_comm]
        have split : (naiveStack past).filter (fun entry => entry.1 ≠ b) =
            (front.filter fun entry => entry.1 ≠ b) ++
              (a, lastMark a earlier) :: back.filter fun entry => entry.1 ≠ b := by
          rw [is, List.filter_append, List.filter_cons, if_pos (decide_eq_true stays)]
        cases addNewNode with
        | true =>
          refine ⟨(b, false) :: front.filter fun entry => entry.1 ≠ b, _, congrArg ((b, false) :: ·) split, ?_⟩
          intro x
          rw [present_insert, List.map_cons, List.mem_cons, filtered x]
          by_cases this : x = b
          · simp [this]
          · simp [this]
        | false =>
          refine ⟨_, _, split, fun x => ?_⟩
          rw [present_remove, filtered x]
    | calcStackDist b mark =>
      rw [since_mark, Option.map_eq_some_iff] at present
      obtain ⟨earlier, present', rfl⟩ := present
      obtain ⟨front, back, is, members⟩ := ih present'
      refine ⟨front.map fun entry => if entry.1 = b then (b, mark) else entry,
        back.map fun entry => if entry.1 = b then (b, mark) else entry, ?_, fun x => ?_⟩
      · rw [naiveStack, onStack, is, List.map_append, List.map_cons, lastMark]
        by_cases same : b = a
        · simp [same]
        · simp [same, Ne.symm same]
      · rw [present_mark, ← members x, List.map_map]
        refine Eq.to_iff (congrArg (x ∈ ·) (List.map_congr_left fun entry _ => ?_))
        by_cases this : entry.1 = b
        · simp [this]
        · simp [this]

/-- **The naive stack answers what the history says.** -/
theorem naiveStack_answers {answer : Nat × Bool} (answers : Answers (naiveStack past) a answer) :
    answer = expected past a := by
  rw [expected]
  cases present : since a past with
  | none =>
    rcases answers with ⟨front, mark, back, is, -⟩ | ⟨-, is⟩
    · refine absurd ?_ (naiveStack_none present mark)
      rw [is]
      exact List.mem_append_right _ (List.mem_cons_self ..)
    · exact is
  | some later =>
    obtain ⟨front, back, split, members⟩ := naiveStack_some present
    have nodup := nodup_naiveStack past
    rcases answers with ⟨front', mark, back', split', is⟩ | ⟨absent, -⟩
    -- both splits are at the only entry of the address
    · have sameSplit := congrArg (List.map Prod.fst) (split'.symm.trans split)
      rw [split, List.map_append, List.map_cons, List.nodup_middle, List.nodup_cons, List.mem_append] at nodup
      rw [List.map_append, List.map_cons, List.map_append, List.map_cons, eq_comm,
        List.append_cons_inj_of_notMem (fun inside => nodup.1 (.inl inside)) fun inside => nodup.1 (.inr inside)] at sameSplit
      have length : front.length = front'.length := by
        have lengths := congrArg List.length sameSplit.1
        rwa [List.length_map, List.length_map] at lengths
      have entry := (List.append_inj (split.symm.trans split') length).2
      rw [List.cons.injEq, Prod.mk.injEq] at entry
      have count : distinct later = front.length := by
        have front_nodup : (front.map Prod.fst).Nodup := nodup.2.sublist (List.sublist_append_left _ _)
        rw [← List.length_map (f := Prod.fst), ← List.toFinset_card_of_nodup front_nodup, distinct]
        refine congrArg Finset.card (Finset.ext fun x => ?_)
        rw [Finset.mem_filter, List.mem_toFinset, List.mem_toFinset, members x]
        exact and_iff_right_of_imp Present.mem
      show answer = (distinct later, lastMark a later)
      rw [is, count, length, entry.1.2]
    · refine absurd ?_ (absent (lastMark a later))
      rw [split]
      exact List.mem_append_right _ (List.mem_cons_self ..)

end StackCall

end Emas.Gem5

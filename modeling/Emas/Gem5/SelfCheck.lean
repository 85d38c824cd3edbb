/-
**When the stack distances agree.**

`calcStackDistAndUpdate( a, false )` takes an address out of the tree, but not out of the stack that distances are verified
with. What is in the stack is the addresses that were inserted, whether they are present or not (`entered`).

**`self_check_iff`** — no check fires in a run if and only if each distance that is verified is undisturbed.
-/

import Emas.Gem5.VerifyStack

namespace Emas.Gem5

namespace StackCall

variable {Addr : Type} [DecidableEq Addr]

/-- `stack` after calls, the most recent first. -/
def entered : List (StackCall Addr) → List Addr
  | [] => []
  | .calcStackDistAndUpdate a true :: past => a :: (entered past).erase a
  | .calcStackDistAndUpdate _ false :: past => entered past
  | .calcStackDist _ _ :: past => entered past

/-- An address that was inserted, and those inserted since its latest insertion, are still present. -/
def Undisturbed (past : List (StackCall Addr)) (a : Addr) : Prop :=
  .calcStackDistAndUpdate a true ∈ past → ∀ x,
    x = a ∨ .calcStackDistAndUpdate x true ∈ past.takeWhile (fun call => call ≠ .calcStackDistAndUpdate a true) →
      Present past x

/-- A distance that is verified is undisturbed. -/
def Sound (past : List (StackCall Addr)) : StackCall Addr → Prop
  | .calcStackDistAndUpdate a true => Undisturbed past a
  | .calcStackDistAndUpdate _ false => True
  | .calcStackDist a _ => Undisturbed past a

/-- After calls, every distance that others verify is undisturbed. -/
def SoundAll (past : List (StackCall Addr)) : List (StackCall Addr) → Prop
  | [] => True
  | call :: rest => Sound past call ∧ SoundAll (call :: past) rest

variable {past later before : List (StackCall Addr)} {a x : Addr}

/-! ### What is in the stack -/

theorem nodup_entered (past : List (StackCall Addr)) : (entered past).Nodup := by
  induction past with
  | nil => exact List.nodup_nil
  | cons call past ih =>
    cases call with
    | calcStackDistAndUpdate a addNewNode =>
      cases addNewNode with
      | true => exact List.nodup_cons.mpr ⟨ih.not_mem_erase, ih.erase a⟩
      | false => exact ih
    | calcStackDist a mark => exact ih

theorem mem_entered : x ∈ entered past ↔ .calcStackDistAndUpdate x true ∈ past := by
  induction past with
  | nil => exact iff_of_false List.not_mem_nil List.not_mem_nil
  | cons call past ih =>
    rw [List.mem_cons, ← ih]
    cases call with
    | calcStackDistAndUpdate a addNewNode =>
      cases addNewNode with
      | true =>
        by_cases same : x = a
        · simp [entered, same]
        · simp [entered, same, List.mem_erase_of_ne same]
      | false => simp [entered]
    | calcStackDist a mark => simp [entered]

theorem length_entered_le (past : List (StackCall Addr)) : (entered past).length ≤ past.countP inserts := by
  induction past with
  | nil => exact Nat.le_refl _
  | cons call past ih =>
    cases call with
    | calcStackDistAndUpdate a addNewNode =>
      cases addNewNode with
      | true =>
        rw [List.countP_cons_of_pos rfl]
        exact Nat.succ_le_succ ((List.erase_sublist).length_le.trans ih)
      | false => exact ih.trans (List.sublist_cons_self ..).countP_le
    | calcStackDist a mark => exact ih.trans (List.sublist_cons_self ..).countP_le

/-- **What the tree holds**, the present addresses of the stack. -/
theorem naiveStack_eq (past : List (StackCall Addr)) :
    (naiveStack past).map Prod.fst = (entered past).filter (Present past) := by
  induction past with
  | nil => rfl
  | cons call past ih =>
    have filtered (a : Addr) : ((naiveStack past).filter fun entry => entry.1 ≠ a).map Prod.fst =
        ((entered past).filter (Present past)).filter (· ≠ a) := by
      rw [← ih, List.filter_map]
      rfl
    cases call with
    | calcStackDistAndUpdate a addNewNode =>
      cases addNewNode with
      | true =>
        rw [naiveStack, onStack, entered, List.map_cons, filtered, List.filter_cons_of_pos (by simp [present_insert]),
          (nodup_entered past).erase_eq_filter, List.filter_filter, List.filter_filter]
        refine congrArg (a :: ·) (List.filter_congr fun x _ => ?_)
        by_cases same : x = a
        · simp [same]
        · simp [same, present_insert]
      | false =>
        rw [naiveStack, onStack, entered, filtered, List.filter_filter]
        refine List.filter_congr fun x _ => ?_
        simp [present_remove]
    | calcStackDist a mark =>
      have same : (naiveStack (.calcStackDist a mark :: past)).map Prod.fst = (naiveStack past).map Prod.fst := by
        rw [naiveStack, onStack, List.map_map]
        refine List.map_congr_left fun entry _ => ?_
        by_cases this : entry.1 = a
        · simp [this]
        · simp [this]
      rw [same, ih, entered]
      refine List.filter_congr fun x _ => ?_
      simp [present_mark]

theorem entered_append (since : .calcStackDistAndUpdate a true ∉ later) :
    ∃ below, entered (later ++ .calcStackDistAndUpdate a true :: before) = entered later ++ a :: below := by
  induction later with
  | nil => exact ⟨(entered before).erase a, rfl⟩
  | cons call later ih =>
    obtain ⟨other, since⟩ := not_or.mp (List.mem_cons.not.mp since)
    obtain ⟨below, split⟩ := ih since
    cases call with
    | calcStackDistAndUpdate b addNewNode =>
      cases addNewNode with
      | true =>
        have differ : a ≠ b := by
          rintro rfl
          exact other rfl
        rw [List.cons_append, entered, entered, split]
        by_cases again : b ∈ entered later
        · exact ⟨below, by rw [List.erase_append_left _ again, List.cons_append]⟩
        · refine ⟨below.erase b, ?_⟩
          rw [List.erase_append_right _ again, List.erase_of_not_mem again, List.cons_append,
            List.erase_cons_tail (by simpa using differ)]
      | false => exact ⟨below, split⟩
    | calcStackDist b mark => exact ⟨below, split⟩

theorem exists_answers (stack : List (Addr × Bool)) (a : Addr) : ∃ answer, Answers stack a answer := by
  by_cases inside : ∃ mark, (a, mark) ∈ stack
  · obtain ⟨mark, member⟩ := inside
    obtain ⟨front, back, split⟩ := List.append_of_mem member
    exact ⟨(front.length, mark), .inl ⟨front, mark, back, split, rfl⟩⟩
  · exact ⟨(StackDistCalc.infinity, false), .inr ⟨fun mark member => inside ⟨mark, member⟩, rfl⟩⟩

theorem expected_fst (past : List (StackCall Addr)) (a : Addr) :
    (expected past a).1 =
      if a ∈ (entered past).filter (Present past) then ((entered past).filter (Present past)).idxOf a
      else StackDistCalc.infinity := by
  obtain ⟨answer, answers⟩ := exists_answers (naiveStack past) a
  rw [← naiveStack_answers answers, ← naiveStack_eq]
  have nodup := nodup_naiveStack past
  rcases answers with ⟨front, mark, back, split, rfl⟩ | ⟨absent, rfl⟩
  · rw [split, List.map_append, List.map_cons, List.nodup_append] at nodup
    have above : a ∉ front.map Prod.fst := fun member => nodup.2.2 a member a (List.mem_cons_self ..) rfl
    rw [split, List.map_append, List.map_cons, if_pos (by simp), List.idxOf_append_of_notMem above, List.idxOf_cons_self,
      List.length_map, Nat.add_zero]
  · rw [if_neg]
    intro member
    obtain ⟨entry, inside, rfl⟩ := List.mem_map.mp member
    exact absent entry.2 inside

/-- **When the distance is the one that is found in the stack.** -/
theorem verifyStackDist_iff (few : past.countP inserts < 2 ^ 31) (a : Addr) (updateStack : Bool) :
    (VerifyStack.verifyStackDist (entered past) a updateStack).1 = (expected past a).1 ↔ Undisturbed past a := by
  rw [expected_fst, VerifyStack.verifyStackDist]
  by_cases inserted : .calcStackDistAndUpdate a true ∈ past
  · obtain ⟨later, before, rfl, since⟩ := List.eq_append_cons_of_mem inserted
    obtain ⟨below, split⟩ := @entered_append Addr _ later before a since
    have above : a ∉ entered later := fun member => since (mem_entered.mp member)
    have recent : (later ++ .calcStackDistAndUpdate a true :: before).takeWhile
        (fun call => call ≠ .calcStackDistAndUpdate a true) = later := by
      rw [List.takeWhile_append_of_pos, List.takeWhile_cons_of_neg (by simp), List.append_nil]
      intro call member
      refine decide_eq_true ?_
      rintro rfl
      exact since member
    have short := length_entered_le (later ++ .calcStackDistAndUpdate a true :: before)
    rw [split, List.length_append] at short
    generalize later ++ .calcStackDistAndUpdate a true :: before = past at *
    have undisturbed : Undisturbed past a ↔ Present past a ∧ ∀ x ∈ entered later, Present past x := by
      rw [Undisturbed, forall_prop_of_true inserted, recent]
      simp only [← mem_entered]
      exact ⟨fun all => ⟨all a (.inl rfl), fun x member => all x (.inr member)⟩,
        fun both x => fun inside => inside.elim (fun same => same ▸ both.1) (both.2 x)⟩
    rw [undisturbed, split, if_pos (List.mem_append_right _ (List.mem_cons_self ..)),
      List.idxOf_append_of_notMem above, List.idxOf_cons_self, Nat.add_zero, List.filter_append]
    dsimp only
    by_cases present : Present past a
    · have still : a ∉ (entered later).filter (Present past) := fun member => above (List.mem_of_mem_filter member)
      rw [List.filter_cons_of_pos (by simpa using present), if_pos (List.mem_append_right _ (List.mem_cons_self ..)),
        List.idxOf_append_of_notMem still, List.idxOf_cons_self, Nat.add_zero, and_iff_right present, eq_comm,
        List.length_filter_eq_length_iff]
      simp
    · -- the distance is infinite, and the address is in the stack
      rw [List.filter_cons_of_neg (by simpa using present), if_neg]
      · refine iff_of_false (fun same => ?_) (fun both => present both.1)
        rw [same, StackDistCalc.infinity] at short
        omega
      · intro member
        rcases List.mem_append.mp member with inside | inside
        · exact present (of_decide_eq_true (List.mem_filter.mp inside).2)
        · exact present (of_decide_eq_true (List.mem_filter.mp inside).2)
  · have absent : a ∉ entered past := fun member => inserted (mem_entered.mp member)
    rw [if_neg absent, if_neg fun member => absent (List.mem_of_mem_filter member)]
    exact iff_of_true rfl fun member => absurd member inserted

end StackCall

/-! ### Runs -/

namespace VerifyStack

open StackCall

variable {Addr : Type} [DecidableEq Addr] {state : VerifyStack Addr} {past : List (StackCall Addr)}

/-- The state is the one that the calls of the past lead to, and so is the stack that it is verified with. -/
structure Follows (state : VerifyStack Addr) (past : List (StackCall Addr)) : Prop where
  calculator : state.calculator.Follows past
  stack : state.stack = entered past

/-- What a call compares. -/
def agrees (state : VerifyStack Addr) (distance : Nat) : StackCall Addr → Bool
  | .calcStackDistAndUpdate a true => (verifyStackDist state.stack a true).1 == distance
  | .calcStackDistAndUpdate _ false => true
  | .calcStackDist a _ => (verifyStackDist state.stack a false).1 == distance

/-- What a call does to the stack that distances are verified with. -/
def stackAfter (stack : List Addr) : StackCall Addr → List Addr
  | .calcStackDistAndUpdate a true => a :: stack.erase a
  | .calcStackDistAndUpdate _ false => stack
  | .calcStackDist _ _ => stack

/-- **A call with verification** is one without, and the comparison. -/
theorem call_eq (follows : state.Follows past) (call : StackCall Addr) (few : (call :: past).countP inserts < 2 ^ 31) :
    state.call call = (state.calculator.call call).bind fun (found, next) =>
      if state.agrees found.1 call then some (found, ⟨next, stackAfter state.stack call⟩) else none := by
  obtain ⟨leaves, recalls, mapped, -, index⟩ := follows.calculator
  cases call with
  | calcStackDistAndUpdate a addNewNode =>
    obtain ⟨answer, removed, run, -, recalls', index', -⟩ := recalls.removeOld mapped a addNewNode
    rw [call, calcStackDistAndUpdate, StackDistCalc.call, StackDistCalc.calcStackDistAndUpdate]
    cases addNewNode with
    | true =>
      rw [List.countP_cons_of_pos rfl] at few
      rw [removeOld_eq recalls mapped (by omega), run, Option.bind_some, Option.bind_some]
      dsimp only
      rw [if_pos rfl, if_pos rfl, ← addNew_eq recalls' (by omega)]
      cases addNew removed with
      | none => rfl
      | some added =>
        rw [Option.bind_some, Option.map_some, Option.map_some, Option.bind_some]
        simp [agrees, verifyStackDist, stackAfter]
    | false =>
      rw [List.countP_cons_of_neg (by simp [inserts])] at few
      rw [removeOld_eq recalls mapped (by omega), run]
      rfl
  | calcStackDist a mark =>
    rw [call, calcStackDist, StackDistCalc.call]
    cases state.calculator.calcStackDist a mark with
    | none => rfl
    | some result =>
      rw [Option.bind_some, Option.bind_some]
      simp [agrees, stackAfter]

theorem steps_agree_iff (follows : state.Follows past) (few : past.countP inserts < 2 ^ 31) (call : StackCall Addr) :
    state.agrees (expected past call.address).1 call = true ↔ Sound past call := by
  have stack := follows.stack
  cases call with
  | calcStackDistAndUpdate a addNewNode =>
    cases addNewNode with
    | true =>
      rw [agrees, stack, beq_iff_eq]
      exact verifyStackDist_iff few a true
    | false => exact iff_of_true rfl trivial
  | calcStackDist a mark =>
    rw [agrees, stack, beq_iff_eq]
    exact verifyStackDist_iff few a false

theorem stackAfter_entered (past : List (StackCall Addr)) (call : StackCall Addr) :
    stackAfter (entered past) call = entered (call :: past) := by
  cases call with
  | calcStackDistAndUpdate a addNewNode => cases addNewNode <;> rfl
  | calcStackDist a mark => rfl

/-- **Calls after a history.** -/
theorem callAll_iff (follows : state.Follows past) (calls : List (StackCall Addr))
    (few : past.countP inserts + calls.countP inserts < 2 ^ 31) :
    (state.callAll calls).isSome = true ↔ SoundAll past calls := by
  induction calls generalizing state past with
  | nil => exact iff_of_true rfl trivial
  | cons call rest ih =>
    have count : (call :: past).countP inserts + rest.countP inserts = past.countP inserts + (call :: rest).countP inserts := by
      rw [List.countP_cons, List.countP_cons]
      omega
    obtain ⟨next, run, follows'⟩ := StackDistCalc.call_spec follows.calculator call (by omega)
    have sound := steps_agree_iff follows (by omega) call
    rw [callAll, call_eq follows call (by omega), run, Option.bind_some]
    dsimp only
    by_cases agree : state.agrees (expected past call.address).1 call = true
    · have onward := @ih ⟨next, stackAfter state.stack call⟩ (call :: past)
        ⟨follows', by rw [follows.stack]; exact stackAfter_entered past call⟩ (by omega)
      rw [if_pos agree, Option.bind_some, Option.isSome_map, onward]
      exact (and_iff_right (sound.mp agree)).symm
    · rw [if_neg agree]
      exact iff_of_false Bool.false_ne_true fun all => agree (sound.mpr all.1)

theorem follows_create : (create : VerifyStack Addr).Follows [] := ⟨StackDistCalc.follows_create, rfl⟩

/-- **When no check fires.** -/
theorem self_check_iff (calls : List (StackCall Addr)) (few : calls.countP inserts < 2 ^ 31) :
    ((create : VerifyStack Addr).callAll calls).isSome = true ↔ SoundAll [] calls :=
  callAll_iff follows_create calls (by rwa [List.countP_nil, Nat.zero_add])

/-- An address is inserted, another one is removed, and the first one is looked up. -/
theorem self_check_of_two : ((create : VerifyStack Nat).callAll
    [.calcStackDistAndUpdate 4 true, .calcStackDistAndUpdate 3 true, .calcStackDistAndUpdate 4 false,
      .calcStackDist 3 true]).isSome = true := by
  refine (self_check_iff _ (by decide)).mpr ⟨?_, ?_, trivial, ?_, trivial⟩
  · simp [Sound, Undisturbed]
  · simp [Sound, Undisturbed]
  · intro _ x
    rintro (rfl | recent)
    · decide
    · simp at recent

/-- **A distance does not agree once its address was removed.** -/
theorem removed_address_panics : ¬ ∀ calls : List (StackCall Nat), calls.countP inserts < 2 ^ 31 →
    ((create : VerifyStack Nat).callAll calls).isSome = true := by
  intro all
  have sound := (callAll_iff follows_create _ (by decide)).mp (all
    [.calcStackDistAndUpdate 3 true, .calcStackDistAndUpdate 3 false, .calcStackDistAndUpdate 3 true] (by decide))
  have present := sound.2.2.1 (by simp) 3 (.inl rfl)
  exact absurd present (by decide)

end VerifyStack

end Emas.Gem5

/-
**Stack distances.**

The calculator holds the naive stack of the calls so far: the leaves, from the last one back, are the entries of the
stack, and `aiMap` leads from an address to its leaf (`Recalls`).
-/

import Emas.Gem5.StackHistory
import Emas.Gem5.StackLeaves

namespace Emas.Gem5.StackDistCalc

variable {Addr : Type}

def leavesOf (stack : List (Nat × Addr × Bool)) : Finset Nat := (stack.map Prod.fst).toFinset

/-- The tree has a leaf for each entry of the stack, and its mark. -/
structure Recalls (state : StackDistCalc Addr) (stack : List (Nat × Addr × Bool)) : Prop where
  grown : state.Grown (leavesOf stack) (state.index - 1)
  sorted : stack.Pairwise fun first second => second.1 < first.1
  distinct : (stack.map fun entry => entry.2.1).Nodup
  marked : ∀ entry ∈ stack, ∃ address leaf, state.At 0 entry.1 address leaf ∧ leaf.isMarked = entry.2.2

/-- `aiMap` leads to the leaves. -/
def Mapped (state : StackDistCalc Addr) (stack : List (Nat × Addr × Bool)) : Prop :=
  ∀ a r, state.aiMap a = some r ↔ ∃ mark, (r, a, mark) ∈ stack

variable {state : StackDistCalc Addr} {stack front back : List (Nat × Addr × Bool)} {a : Addr} {r : Nat} {mark mark' : Bool}

theorem mem_leavesOf : r ∈ leavesOf stack ↔ ∃ a mark, (r, a, mark) ∈ stack := by
  simp [leavesOf]

theorem card_after (sorted : (front ++ (r, a, mark) :: back).Pairwise fun first second => second.1 < first.1) :
    ((leavesOf (front ++ (r, a, mark) :: back)).filter fun m => r < m).card = front.length := by
  rw [List.pairwise_append, List.pairwise_cons] at sorted
  obtain ⟨sortedFront, ⟨below, -⟩, across⟩ := sorted
  have nodup : (front.map Prod.fst).Nodup :=
    (List.pairwise_map.mpr sortedFront).imp fun less => Nat.ne_of_gt less
  rw [← List.length_map (f := Prod.fst), ← List.toFinset_card_of_nodup nodup]
  refine congrArg Finset.card (Finset.ext fun m => ?_)
  rw [Finset.mem_filter, List.mem_toFinset, List.mem_map, mem_leavesOf]
  constructor
  · rintro ⟨⟨a', mark', member⟩, later⟩
    rcases List.mem_append.mp member with before | after
    · exact ⟨_, before, rfl⟩
    · rcases List.mem_cons.mp after with this | after
      · exact absurd (congrArg Prod.fst this) (Nat.ne_of_gt later)
      · exact absurd (below _ after) (Nat.lt_asymm later)
  · rintro ⟨⟨m', a', mark'⟩, before, rfl⟩
    exact ⟨⟨a', mark', List.mem_append_left _ before⟩, across _ before _ (List.mem_cons_self ..)⟩

theorem Mapped.absent (mapped : state.Mapped stack) (unknown : state.aiMap a = none) :
    ∀ entry ∈ stack, entry.2.1 ≠ a := by
  rintro ⟨r, a', mark⟩ inside rfl
  have known := (mapped a' r).mpr ⟨mark, inside⟩
  rw [unknown] at known
  cases known

theorem answers_none (absent : ∀ entry ∈ stack, entry.2.1 ≠ a) :
    StackCall.Answers (stack.map Prod.snd) a (infinity, false) := by
  refine .inr ⟨fun mark inside => ?_, rfl⟩
  obtain ⟨entry, member, is⟩ := List.mem_map.mp inside
  exact absent entry member (congrArg Prod.fst is)

variable {state' : StackDistCalc Addr}

namespace Recalls

variable (recalls : state.Recalls stack)

include recalls

theorem eq_of_leaf {entry other : Nat × Addr × Bool} (member : entry ∈ stack) (member' : other ∈ stack)
    (same : entry.1 = other.1) : entry = other := by
  have nodup : (stack.map Prod.fst).Nodup :=
    (List.pairwise_map.mpr recalls.sorted).imp fun less => Nat.ne_of_gt less
  exact List.inj_on_of_nodup_map nodup member member' same

theorem eq_of_addr {entry other : Nat × Addr × Bool} (member : entry ∈ stack) (member' : other ∈ stack)
    (same : entry.2.1 = other.2.1) : entry = other :=
  List.inj_on_of_nodup_map recalls.distinct member member' same

theorem answers_some (member : (r, a, mark) ∈ stack) :
    StackCall.Answers (stack.map Prod.snd) a (((leavesOf stack).filter fun m => r < m).card, mark) := by
  obtain ⟨front, back, rfl⟩ := List.append_of_mem member
  refine .inl ⟨front.map Prod.snd, mark, back.map Prod.snd, ?_, ?_⟩
  · rw [List.map_append, List.map_cons]
  · rw [List.length_map, card_after recalls.sorted]

variable [DecidableEq Addr]

theorem leavesOf_filter (member : (r, a, mark) ∈ stack) :
    leavesOf (stack.filter fun entry => entry.2.1 ≠ a) = (leavesOf stack).erase r := by
  refine Finset.ext fun m => ?_
  rw [Finset.mem_erase, mem_leavesOf, mem_leavesOf]
  constructor
  · rintro ⟨a', mark', left⟩
    obtain ⟨inside, other⟩ := List.mem_filter.mp left
    refine ⟨?_, a', mark', inside⟩
    rintro rfl
    have same := recalls.eq_of_leaf inside member rfl
    rw [Prod.mk.injEq, Prod.mk.injEq] at same
    exact of_decide_eq_true other same.2.1
  · rintro ⟨other, a', mark', inside⟩
    refine ⟨a', mark', List.mem_filter.mpr ⟨inside, decide_eq_true ?_⟩⟩
    rintro rfl
    exact other (congrArg Prod.fst (recalls.eq_of_addr inside member rfl))

theorem filtered (grown : state'.Grown (leavesOf (stack.filter fun entry => entry.2.1 ≠ a)) (state'.index - 1))
    (marked : ∀ entry ∈ stack, entry.2.1 ≠ a → ∃ address leaf, state'.At 0 entry.1 address leaf ∧
      leaf.isMarked = entry.2.2) :
    state'.Recalls (stack.filter fun entry => entry.2.1 ≠ a) where
  grown := grown
  sorted := recalls.sorted.sublist List.filter_sublist
  distinct := recalls.distinct.sublist (List.filter_sublist.map _)
  marked := by
    intro entry left
    obtain ⟨inside, other⟩ := List.mem_filter.mp left
    exact marked entry inside (of_decide_eq_true other)

omit [DecidableEq Addr] in
theorem relabelled (aiMap : Addr → Option Nat) :
    ({ state with aiMap := aiMap } : StackDistCalc Addr).Grown (leavesOf stack) (state.index - 1) :=
  recalls.grown.relabel rfl rfl rfl rfl rfl fun _ node here => ⟨node.isMarked, here⟩

/-- **The leaf of an earlier insertion is removed.** -/
theorem removeOld (mapped : state.Mapped stack) (a : Addr) (addNewNode : Bool) :
    ∃ answer removed, state.removeOld a addNewNode = some (answer, removed) ∧
      StackCall.Answers (stack.map Prod.snd) a answer ∧
      removed.Recalls (stack.filter fun entry => entry.2.1 ≠ a) ∧ removed.index = state.index ∧
      removed.aiMap = Function.update state.aiMap a (if addNewNode then some state.index else none) := by
  have relabelled := recalls.relabelled
  rw [StackDistCalc.removeOld]
  cases found : state.aiMap a with
  | some r =>
    obtain ⟨mark, member⟩ := (mapped a r).mp found
    obtain ⟨address, leaf, here, isMarked⟩ := recalls.marked _ member
    generalize Function.update state.aiMap a (if addNewNode then some state.index else none) = aiMap
    obtain ⟨summed, run, there, grown, index, framed⟩ :=
      (relabelled aiMap).remove (mem_leavesOf.mpr ⟨a, mark, member⟩) here
    simp only [run, Option.bind_some, there.1, there.2, Option.map_some]
    rw [show leaf.isMarked = mark from isMarked]
    refine ⟨_, _, rfl, recalls.answers_some member, recalls.filtered ?_ ?_, index, framed.aiMap⟩
    · rw [recalls.leavesOf_filter member, show (summed.discard 0 r address).index = state.index from index]
      exact grown
    · intro entry inside other
      obtain ⟨address', leaf', at', marked'⟩ := recalls.marked entry inside
      refine ⟨address', leaf', framed.keeps entry.1 address' leaf' ?_ at', marked'⟩
      intro same
      exact other (congrArg (fun entry : Nat × Addr × Bool => entry.2.1) (recalls.eq_of_leaf inside member same))
  | none =>
    have absent := mapped.absent found
    have whole : stack.filter (fun entry => entry.2.1 ≠ a) = stack :=
      List.filter_eq_self.mpr fun entry inside => decide_eq_true (absent entry inside)
    refine ⟨_, _, rfl, answers_none absent, ?_, ?_, ?_⟩
    · rw [whole]
      cases addNewNode with
      | true => exact ⟨relabelled _, recalls.sorted, recalls.distinct, recalls.marked⟩
      | false => exact recalls
    · cases addNewNode <;> rfl
    · cases addNewNode with
      | true => rfl
      | false =>
        show state.aiMap = Function.update state.aiMap a none
        rw [← found, Function.update_eq_self]

omit [DecidableEq Addr] in
theorem ready (few : state.index < 2 ^ 31) :
    ∃ ready, (if state.index % 2 = 0 then state.updateTree else some state) = some ready ∧
      ready.Grown (leavesOf stack) ready.index ∧ state.Framed ready := by
  by_cases even : state.index % 2 = 0
  · rw [if_pos even]
    exact updateTree_spec recalls.grown even few
  · rw [if_neg even]
    exact ⟨state, rfl, recalls.grown.of_odd even, .refl⟩

omit [DecidableEq Addr] in
/-- **A new leaf.** -/
theorem addNew (few : state.index < 2 ^ 31) (fresh : ∀ entry ∈ stack, entry.2.1 ≠ a) :
    ∃ state', state.addNew = some state' ∧ state'.Recalls ((state.index, a, false) :: stack) ∧
      state'.index = state.index + 1 ∧ state'.aiMap = state.aiMap := by
  obtain ⟨ready, grew, grown, framed⟩ := recalls.ready few
  obtain ⟨up, summed, entry, run, index, grown', leafFramed, address, leaf, here, unmarked⟩ := grown.add
  have small : ∀ entry ∈ stack, entry.1 < state.index :=
    fun entry inside => recalls.grown.small entry.1 (mem_leavesOf.mpr ⟨_, _, inside⟩)
  have leaves : leavesOf ((state.index, a, false) :: stack) = insert state.index (leavesOf stack) := by
    rw [leavesOf, List.map_cons, List.toFinset_cons, leavesOf]
  rw [framed.index] at index grown' leafFramed here
  rw [StackDistCalc.addNew, grew, Option.bind_some, entry, Option.bind_some]
  simp only [run, Option.map_some]
  refine ⟨_, rfl, ⟨?_, ?_, ?_, ?_⟩, congrArg (· + 1) index, leafFramed.aiMap.trans framed.aiMap⟩
  · rw [leaves]
    show ({ summed with index := summed.index + 1 } : StackDistCalc Addr).Grown _ (summed.index + 1 - 1)
    rw [Nat.add_sub_cancel, index]
    rw [index] at grown'
    exact grown'
  · exact List.pairwise_cons.mpr ⟨small, recalls.sorted⟩
  · rw [List.map_cons, List.nodup_cons]
    refine ⟨fun inside => ?_, recalls.distinct⟩
    obtain ⟨entry, member, is⟩ := List.mem_map.mp inside
    exact fresh entry member is
  · intro entry member
    rcases List.mem_cons.mp member with rfl | inside
    · exact ⟨address, leaf, here, unmarked⟩
    · obtain ⟨address', leaf', there, isMarked⟩ := recalls.marked entry inside
      have other : entry.1 ≠ state.index := Nat.ne_of_lt (small entry inside)
      exact ⟨address', leaf', leafFramed.keeps _ _ _ other (framed.leaf _ _ _ there), isMarked⟩

omit recalls in
theorem marking_fst (stack : List (Nat × Addr × Bool)) (a : Addr) (mark : Bool) :
    (stack.map fun entry => if entry.2.1 = a then (entry.1, a, mark) else entry).map Prod.fst = stack.map Prod.fst := by
  rw [List.map_map]
  refine List.map_congr_left fun entry _ => ?_
  by_cases this : entry.2.1 = a
  · simp [this]
  · simp [this]

theorem marking (mark : Bool) (member : (r, a, mark') ∈ stack) {address : Nat} {leaf : Node}
    (here : state.At 0 r address leaf) :
    (state.set address { leaf with isMarked := mark }).Recalls
      (stack.map fun entry => if entry.2.1 = a then (entry.1, a, mark) else entry) := by
  have first := marking_fst stack a mark
  have address' : (stack.map fun entry => if entry.2.1 = a then (entry.1, a, mark) else entry).map
      (fun entry => entry.2.1) = stack.map fun entry => entry.2.1 := by
    rw [List.map_map]
    refine List.map_congr_left fun entry _ => ?_
    by_cases this : entry.2.1 = a
    · simp [this]
    · simp [this]
  refine ⟨?_, ?_, ?_, ?_⟩
  · rw [leavesOf, first]
    refine recalls.grown.relabel rfl rfl rfl rfl rfl fun address' node there => ?_
    rw [nodes_set]
    by_cases same : address' = address
    · subst same
      rw [here.2, Option.some.injEq] at there
      subst there
      exact ⟨mark, if_pos rfl⟩
    · exact ⟨node.isMarked, (if_neg same).trans there⟩
  · have pairs : (stack.map Prod.fst).Pairwise fun first second => second < first :=
      List.pairwise_map.mpr recalls.sorted
    rw [← first] at pairs
    exact List.pairwise_map.mp pairs
  · rw [address']
    exact recalls.distinct
  · intro entry inside
    obtain ⟨entry, member', rfl⟩ := List.mem_map.mp inside
    by_cases this : entry.2.1 = a
    · have same := recalls.eq_of_addr member' member this
      subst same
      rw [if_pos this]
      exact ⟨address, _, ⟨here.1, by rw [nodes_set, if_pos rfl]⟩, rfl⟩
    · rw [if_neg this]
      obtain ⟨other, leaf', there, isMarked⟩ := recalls.marked entry member'
      refine ⟨other, leaf', recalls.grown.summed.entries.at_set here.1 ?_ there, isMarked⟩
      rintro ⟨-, same⟩
      exact this (congrArg (fun entry : Nat × Addr × Bool => entry.2.1) (recalls.eq_of_leaf member' member same))

/-- **A distance without an insertion.** -/
theorem calcStackDist (mapped : state.Mapped stack) (a : Addr) (mark : Bool) :
    ∃ answer state', state.calcStackDist a mark = some (answer, state') ∧
      StackCall.Answers (stack.map Prod.snd) a answer ∧
      state'.Recalls (stack.map fun entry => if entry.2.1 = a then (entry.1, a, mark) else entry) ∧
      state'.index = state.index ∧ state'.aiMap = state.aiMap := by
  rw [StackDistCalc.calcStackDist]
  cases found : state.aiMap a with
  | some r =>
    obtain ⟨mark', member⟩ := (mapped a r).mp found
    obtain ⟨address, leaf, here, isMarked⟩ := recalls.marked _ member
    have marked := recalls.marking mark member here
    have grown := marked.grown
    rw [leavesOf, marking_fst] at grown
    have run := grown.getSums (mem_leavesOf.mpr ⟨a, mark', member⟩) ⟨here.1, by rw [nodes_set, if_pos rfl]⟩
    simp only [here.1, here.2, Option.bind_some]
    refine ⟨_, _, (congrArg (Option.map _) run).trans rfl, ?_, marked, rfl, rfl⟩
    rw [show leaf.isMarked = mark' from isMarked]
    exact recalls.answers_some member
  | none =>
    have absent := mapped.absent found
    have whole : stack.map (fun entry => if entry.2.1 = a then (entry.1, a, mark) else entry) = stack := by
      refine (List.map_congr_left fun entry inside => ?_).trans (List.map_id stack)
      rw [if_neg (absent entry inside), id]
    refine ⟨_, _, rfl, answers_none absent, ?_, rfl, rfl⟩
    rw [whole]
    exact recalls

end Recalls

/-! ### Calls -/

theorem grown_create : (create : StackDistCalc Addr).Grown ∅ 0 := by
  have free : ∀ m, ¬ (create : StackDistCalc Addr).Spent ∅ m := fun m spent => Nat.not_lt_zero m spent.1
  have entry : ∀ {k j address}, (create : StackDistCalc Addr).tree k j = some address → k = 1 ∧ j = 0 ∧ address = 0 := by
    intro k j address here
    change (if k = 1 ∧ j = 0 then some 0 else none) = some address at here
    split at here
    next is => exact ⟨is.1, is.2, (Option.some.inj here).symm⟩
    next => cases here
  refine ⟨⟨⟨⟨?_, ?_, ?_⟩, fun k j low inside _ => ?_⟩, by simp, by simp⟩, fun k low => ?_, Nat.one_pos, ?_, .inl rfl⟩
  · intro k j k' j' address left right
    obtain ⟨rfl, rfl, -⟩ := entry left
    obtain ⟨rfl, rfl, -⟩ := entry right
    exact ⟨rfl, rfl⟩
  · intro k j address here
    rw [(entry here).2.2]
    exact Nat.one_pos
  · intro k j high
    refine if_neg ?_
    rintro ⟨rfl, -⟩
    exact Nat.lt_irrefl _ high
  · obtain rfl : k = 0 := Nat.lt_one_iff.mp low
    obtain rfl : j = 0 := Nat.lt_one_iff.mp inside
    refine ⟨0, {}, ⟨rfl, rfl⟩, ⟨rfl, rfl, rfl⟩, rfl, rfl, ?_, ?_⟩
    · exact (iff_false_left Bool.false_ne_true).mpr (Blocks.not_covers_first (free _))
    · exact (iff_false_left Bool.false_ne_true).mpr (Blocks.not_covers_first (free _))
  · obtain rfl : k = 0 := Nat.lt_one_iff.mp low
    rfl
  · exact Nat.two_pow_pos _

variable [DecidableEq Addr]

/-- The calculator holds the naive stack of a history. -/
def Follows (state : StackDistCalc Addr) (past : List (StackCall Addr)) : Prop :=
  ∃ stack, state.Recalls stack ∧ state.Mapped stack ∧ stack.map Prod.snd = StackCall.naiveStack past ∧
    state.index = past.countP StackCall.inserts

theorem follows_create : (create : StackDistCalc Addr).Follows [] := by
  refine ⟨[], ⟨grown_create, .nil, .nil, ?_⟩, ?_, rfl, rfl⟩
  · intro entry member
    cases member
  · intro a r
    simp [create]

theorem filter_snd (stack : List (Nat × Addr × Bool)) (a : Addr) :
    (stack.filter fun entry => entry.2.1 ≠ a).map Prod.snd = (stack.map Prod.snd).filter fun entry => entry.1 ≠ a := by
  rw [List.filter_map]
  rfl

theorem marking_snd (stack : List (Nat × Addr × Bool)) (a : Addr) (mark : Bool) :
    (stack.map fun entry => if entry.2.1 = a then (entry.1, a, mark) else entry).map Prod.snd =
      (stack.map Prod.snd).map fun entry => if entry.1 = a then (a, mark) else entry := by
  rw [List.map_map, List.map_map]
  refine List.map_congr_left fun entry _ => ?_
  by_cases this : entry.2.1 = a
  · simp [this]
  · simp [this]

theorem Mapped.remove (mapped : state.Mapped stack) (a : Addr)
    (aiMap : state'.aiMap = Function.update state.aiMap a none) :
    state'.Mapped (stack.filter fun entry => entry.2.1 ≠ a) := by
  intro b r
  rw [aiMap]
  by_cases this : b = a
  · subst this
    simp
  · rw [Function.update_of_ne this, mapped b r]
    simp [this]

theorem Mapped.insert (mapped : state.Mapped stack) (a : Addr)
    (aiMap : state'.aiMap = Function.update state.aiMap a (some r)) :
    state'.Mapped ((r, a, false) :: stack.filter fun entry => entry.2.1 ≠ a) := by
  intro b r'
  rw [aiMap]
  by_cases this : b = a
  · subst this
    simp [eq_comm]
  · rw [Function.update_of_ne this, mapped b r']
    simp [this]

theorem Mapped.marking (mapped : state.Mapped stack) (a : Addr) (mark : Bool) (aiMap : state'.aiMap = state.aiMap) :
    state'.Mapped (stack.map fun entry => if entry.2.1 = a then (entry.1, a, mark) else entry) := by
  intro b r
  rw [aiMap, mapped b r]
  constructor
  · rintro ⟨old, member⟩
    by_cases this : b = a
    · exact ⟨mark, List.mem_map.mpr ⟨_, member, by simp [this]⟩⟩
    · exact ⟨old, List.mem_map.mpr ⟨_, member, by simp [this]⟩⟩
  · rintro ⟨new, member⟩
    obtain ⟨⟨r', b', old⟩, inside, is⟩ := List.mem_map.mp member
    refine ⟨old, ?_⟩
    split at is
    next this =>
      rw [Prod.mk.injEq, Prod.mk.injEq] at is
      obtain ⟨rfl, rfl, -⟩ := is
      exact this ▸ inside
    next =>
      rw [Prod.mk.injEq, Prod.mk.injEq] at is
      obtain ⟨rfl, rfl, -⟩ := is
      exact inside

/-- **A call returns what the history says.** -/
theorem call_spec {past : List (StackCall Addr)} (follows : state.Follows past) (call : StackCall Addr)
    (few : (call :: past).countP StackCall.inserts < 2 ^ 31) :
    ∃ state', state.call call = some (StackCall.expected past call.address, state') ∧ state'.Follows (call :: past) := by
  obtain ⟨stack, recalls, mapped, naive, index⟩ := follows
  cases call with
  | calcStackDistAndUpdate a addNewNode =>
    obtain ⟨answer, removed, run, answers, recalls', index', aiMap⟩ := recalls.removeOld mapped a addNewNode
    rw [naive] at answers
    rw [call, calcStackDistAndUpdate, run, Option.bind_some, StackCall.naiveStack_answers answers]
    have without := (filter_snd stack a).trans (congrArg (List.filter fun entry => entry.1 ≠ a) naive)
    cases addNewNode with
    | true =>
      have few' : removed.index < 2 ^ 31 := by
        rw [List.countP_cons_of_pos rfl] at few
        omega
      have fresh : ∀ entry ∈ stack.filter (fun entry => entry.2.1 ≠ a), entry.2.1 ≠ a :=
        fun entry inside => of_decide_eq_true (List.mem_filter.mp inside).2
      obtain ⟨state', added, recalls'', index'', aiMap'⟩ := recalls'.addNew few' fresh
      rw [index'] at recalls'' index''
      refine ⟨state', by simp [added, StackCall.address], _, recalls'', ?_, ?_, ?_⟩
      · exact mapped.insert a (aiMap'.trans aiMap)
      · exact congrArg ((a, false) :: ·) without
      · rw [index'', index, List.countP_cons_of_pos rfl]
    | false =>
      refine ⟨removed, rfl, _, recalls', mapped.remove a aiMap, without, ?_⟩
      rw [index', index, List.countP_cons_of_neg (by simp [StackCall.inserts])]
  | calcStackDist a mark =>
    obtain ⟨answer, state', run, answers, recalls', index', aiMap⟩ := recalls.calcStackDist mapped a mark
    rw [naive] at answers
    rw [call, run, StackCall.naiveStack_answers answers]
    refine ⟨state', rfl, _, recalls', mapped.marking a mark aiMap, ?_, ?_⟩
    · exact (marking_snd stack a mark).trans (congrArg _ naive)
    · rw [index', index, List.countP_cons_of_neg (by simp [StackCall.inserts])]

/-- **Calls after a history.** -/
theorem callAll_spec {past : List (StackCall Addr)} (follows : state.Follows past) (calls : List (StackCall Addr))
    (few : past.countP StackCall.inserts + calls.countP StackCall.inserts < 2 ^ 31) :
    ∃ final, state.callAll calls = some (StackCall.expectedAll past calls, final) ∧
      final.Follows (calls.reverse ++ past) := by
  induction calls generalizing state past with
  | nil => exact ⟨state, rfl, follows⟩
  | cons call rest ih =>
    have count : (call :: past).countP StackCall.inserts + rest.countP StackCall.inserts =
        past.countP StackCall.inserts + (call :: rest).countP StackCall.inserts := by
      rw [List.countP_cons, List.countP_cons]
      omega
    obtain ⟨called, run, follows'⟩ := call_spec follows call (by omega)
    obtain ⟨final, runs, follows''⟩ := ih follows' (by omega)
    refine ⟨final, ?_, ?_⟩
    · rw [callAll, run, Option.bind_some]
      simp only [runs, Option.map_some, StackCall.expectedAll]
    · rw [List.reverse_cons, List.append_assoc]
      exact follows''

/-- **Stack distances.** Every call returns the number of addresses inserted since the latest insertion of its address,
and not removed again, with the last mark set since; no node that is needed on the way is missing. -/
theorem distances_of_history (calls : List (StackCall Addr)) (few : calls.countP StackCall.inserts < 2 ^ 31) :
    ∃ final, (create : StackDistCalc Addr).callAll calls = some (StackCall.expectedAll [] calls, final) := by
  obtain ⟨final, run, -⟩ := callAll_spec follows_create calls (by rw [List.countP_nil, Nat.zero_add]; exact few)
  exact ⟨final, run⟩

/-- Two addresses over a root and its successor: a mark, a removal and an insertion again. -/
theorem distances_of_two : ∃ final, (create : StackDistCalc Nat).callAll
    [.calcStackDistAndUpdate 3 true, .calcStackDistAndUpdate 4 true, .calcStackDist 3 true,
      .calcStackDistAndUpdate 3 true, .calcStackDistAndUpdate 4 false, .calcStackDist 3 true] =
    some ([(infinity, false), (infinity, false), (1, false), (1, true), (1, false), (0, false)], final) :=
  distances_of_history _ (by decide)

end Emas.Gem5.StackDistCalc

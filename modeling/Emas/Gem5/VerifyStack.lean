/-
**The stack distance calculator with verification.**

`class StackDistCalc` of `mem/stack_dist_calc.cc` with `verifyStack`: a stack of addresses is kept besides the tree, and
distances are looked up in both. Where a `panic_if` fires there is no result, as where a pointer is null or dangling.

* The checks on the way to the root never fire (`updateSum_eq`, `updateSumsLeavesToRoot_remove`,
  `updateSumsLeavesToRoot_add`): half of the block of a node has no more leaves than it has room for.
* The last parent is the root (`sanityCheckTree_spec`).

`printStack` only writes to the debug output.
-/

import Emas.Gem5.StackDistance

namespace Emas.Gem5

open StackDistCalc

/-- A `StackDistCalc` with `verifyStack`, and `stack` from its back. -/
structure VerifyStack (Addr : Type) where
  calculator : StackDistCalc Addr
  stack : List Addr

namespace VerifyStack

variable {Addr : Type}

/-- The sums of a node are not greater than the number of leaves below each half. -/
def checkSums (node : Node) (level : Nat) : Bool :=
  (shiftOne (level - 1)).any fun width => node.sumLeft ≤ width && node.sumRight ≤ width

def updateSum : Nat → StackDistCalc Addr → Option Nat → Bool → Nat → Nat → Nat → Bool →
    Option (Nat × StackDistCalc Addr)
  | 0, _, _, _, _, _, _, _ => none
  | fuel + 1, state, pointer, fromLeft, sumFromBelow, level, stackDist, discardNode =>
    pointer.bind fun address => (state.nodes address).bind fun old =>
      if checkSums old (level + 1) then
        let node := old.receive fromLeft sumFromBelow discardNode
        let stackDist := if fromLeft then stackDist + node.sumRight else stackDist
        let discards :=
          node.discardLeft && node.discardRight && discardNode && old.parent.isSome && sumFromBelow == 0
        let state := if discards then state.discard (level + 1) old.nodeIndex address else state.set address node
        match old.parent with
        | none => some (stackDist, state)
        | some up => updateSum fuel state (some up) old.isLeftNode (node.sumLeft + node.sumRight) (level + 1)
            stackDist discards
      else none

def updateSumsLeavesToRoot (state : StackDistCalc Addr) (pointer : Option Nat) (isNewLeaf : Bool) :
    Option (Nat × StackDistCalc Addr) :=
  pointer.bind fun address => (state.nodes address).bind fun leaf =>
    if isNewLeaf then
      (updateSum state.depth (state.set address { leaf with sumLeft := 1 }) leaf.parent leaf.isLeftNode 1 0 0 false).map
        fun result => (infinity, result.2)
    else
      updateSum state.depth (state.set address { leaf with sumLeft := 0 }) leaf.parent leaf.isLeftNode 0 0 0 true

/-- The node so many layers above a node, or nothing if there is no parent on the way. -/
def climb (nodes : Nat → Option Node) : Nat → Option Nat → Option Node
  | 0, pointer => pointer.bind nodes
  | layers + 1, pointer => (pointer.bind nodes).bind fun node => climb nodes layers node.parent

def sanityCheckTree (state : StackDistCalc Addr) (pointer : Option Nat) : Bool :=
  ((pointer.bind state.nodes).bind fun leaf => climb state.nodes (state.depth - 1) leaf.parent).any fun root => root.parent.isNone

variable [DecidableEq Addr]

/-- `verifyStackDist( r_address, update_stack )`: the place of an address in the stack, and the stack. -/
def verifyStackDist (stack : List Addr) (a : Addr) (updateStack : Bool) : Nat × List Addr :=
  (if a ∈ stack then stack.idxOf a else infinity, if updateStack then a :: stack.erase a else stack)

/-- The first part of `calcStackDistAndUpdate`. -/
def removeOld (state : StackDistCalc Addr) (a : Addr) (addNewNode : Bool) : Option ((Nat × Bool) × StackDistCalc Addr) :=
  match state.aiMap a with
  | some r =>
    let mapped := { state with aiMap := Function.update state.aiMap a (if addNewNode then some state.index else none) }
    (updateSumsLeavesToRoot mapped (mapped.tree 0 r) false).bind fun (stackDist, summed) =>
      (summed.tree 0 r).bind fun address => (summed.nodes address).map fun leaf =>
        ((stackDist, leaf.isMarked), summed.discard 0 r address)
  | none =>
    some ((infinity, false),
      if addNewNode then { state with aiMap := Function.update state.aiMap a (some state.index) } else state)

omit [DecidableEq Addr] in
/-- The second part of `calcStackDistAndUpdate`, up to the sanity check. -/
def addNew (state : StackDistCalc Addr) : Option (StackDistCalc Addr) :=
  (if state.index % 2 = 0 then state.updateTree else some state).bind fun state =>
    (state.tree 1 (state.nextIndex 1 - 1)).bind fun up =>
      let leafed := (state.place 0 state.index (.make state.index up)).countUp 0
      (updateSumsLeavesToRoot leafed (leafed.tree 0 state.index) true).bind fun result =>
        if sanityCheckTree result.2 (result.2.tree 0 result.2.index) then some result.2 else none

def calcStackDistAndUpdate (state : VerifyStack Addr) (a : Addr) (addNewNode : Bool) :
    Option ((Nat × Bool) × VerifyStack Addr) :=
  (removeOld state.calculator a addNewNode).bind fun (found, removed) =>
    if addNewNode then
      (addNew removed).bind fun added =>
        let (verifyDist, stack) := verifyStackDist state.stack a true
        if verifyDist = found.1 then some (found, ⟨{ added with index := added.index + 1 }, stack⟩) else none
    else some (found, { state with calculator := removed })

def calcStackDist (state : VerifyStack Addr) (a : Addr) (mark : Bool) : Option ((Nat × Bool) × VerifyStack Addr) :=
  (state.calculator.calcStackDist a mark).bind fun (found, marked) =>
    if (verifyStackDist state.stack a false).1 = found.1 then some (found, { state with calculator := marked }) else none

/-- A call, with what it returns. -/
def call (state : VerifyStack Addr) : StackCall Addr → Option ((Nat × Bool) × VerifyStack Addr)
  | .calcStackDistAndUpdate a addNewNode => state.calcStackDistAndUpdate a addNewNode
  | .calcStackDist a mark => state.calcStackDist a mark

omit [DecidableEq Addr] in
/-- `StackDistCalc( true )`. -/
def create : VerifyStack Addr := ⟨.create, []⟩

/-- Calls one after the other, with what they return. -/
def callAll (state : VerifyStack Addr) : List (StackCall Addr) → Option (List (Nat × Bool) × VerifyStack Addr)
  | [] => some ([], state)
  | first :: rest =>
    (state.call first).bind fun (result, called) =>
      (called.callAll rest).map fun (results, final) => (result :: results, final)

/-! ### The sums on the way to the root -/

section Sums

open Blocks

variable {state : StackDistCalc Addr} {live live' : Finset Nat} {spent spent' : Nat → Prop} {r address : Nat} {leaf : Node}

omit [DecidableEq Addr]

theorem checkSums_of_sums {node : Node} {i j : Nat} (sums : node.Sums live spent i j) (low : i < 31) :
    checkSums node (i + 1) = true := by
  rw [checkSums, Nat.add_sub_cancel, shiftOne, if_pos low, Option.any_some, sums.sumLeft, sums.sumRight, Nat.one_shiftLeft]
  simp [total_le]

theorem updateSum_succ {old : Node} (here : state.nodes address = some old) {level : Nat}
    (passed : checkSums old (level + 1) = true) (fuel : Nat) (fromLeft : Bool) (sum stackDist : Nat) (discardNode : Bool) :
    updateSum (fuel + 1) state (some address) fromLeft sum level stackDist discardNode =
      match old.parent with
      | none => some (if fromLeft then stackDist + old.sumRight else stackDist,
          state.visit address level old fromLeft sum discardNode)
      | some up => updateSum fuel (state.visit address level old fromLeft sum discardNode) (some up) old.isLeftNode
          ((old.receive fromLeft sum discardNode).sumLeft + (old.receive fromLeft sum discardNode).sumRight) (level + 1)
          (if fromLeft then stackDist + old.sumRight else stackDist) (old.discarded fromLeft sum discardNode) := by
  rw [updateSum, Option.bind_some, here, Option.bind_some, if_pos passed,
    ← Node.receive_dist old fromLeft sum discardNode stackDist]
  rfl

/-- **No check fires on the way up.** -/
theorem updateSum_eq (change : Change live live' spent spent' r) {fuel i stackDist : Nat} {discardNode : Bool}
    (walk : state.Walk live live' spent spent' r i) (low : i < state.depth) (shallow : state.depth ≤ 31)
    (inside : ∀ k, k < state.depth → r / 2 ^ (k + 1) < state.nextIndex (k + 1))
    (discarded : discardNode = true ↔ Covers spent' i (r / 2 ^ i)) :
    updateSum fuel state (state.tree (i + 1) (r / 2 ^ (i + 1))) (decide (r / 2 ^ i % 2 = 0)) (total live' i (r / 2 ^ i)) i
        stackDist discardNode = state.updateSum fuel (state.tree (i + 1) (r / 2 ^ (i + 1))) (decide (r / 2 ^ i % 2 = 0))
        (total live' i (r / 2 ^ i)) i stackDist discardNode := by
  induction fuel generalizing i state stackDist discardNode with
  | zero => rfl
  | succ fuel ih =>
    obtain ⟨address, old, next, here, sums, visited, kept, outcome⟩ := walk.step change low inside discarded
    rw [here.1, updateSum_succ here.2 (checkSums_of_sums sums (by omega)), StackDistCalc.updateSum_succ here.2, visited]
    rcases outcome with ⟨-, rootless, -⟩ | ⟨low', ⟨above, up, entry⟩, isLeft, sum, discards, walk'⟩
    · rw [rootless]
    · rw [up, isLeft, sum]
      have onward := fun stackDist => @ih next (i + 1) stackDist _ walk' (by rw [kept.depth]; exact low')
        (by rw [kept.depth]; exact shallow) (by rw [kept.depth, kept.nextIndex]; exact inside) discards
      rw [entry] at onward
      exact onward _

theorem updateSum_leaf (summed : state.Summed live spent) (change : Change live live' spent spent' r)
    (positive : 0 < state.depth) (shallow : state.depth ≤ 31)
    (inside : ∀ k, k < state.depth → r / 2 ^ (k + 1) < state.nextIndex (k + 1)) (linked : state.Linked 0 r leaf) {sum : Nat}
    (counted : total live' 0 r = sum) (discardNode : Bool) (discarded : discardNode = true ↔ spent' r) :
    updateSum state.depth state leaf.parent leaf.isLeftNode sum 0 0 discardNode =
      state.updateSum state.depth leaf.parent leaf.isLeftNode sum 0 0 discardNode := by
  have flag : discardNode = true ↔ Covers spent' 0 (r / 2 ^ 0) := by
    rw [pow_zero, Nat.div_one, covers_zero]
    exact discarded
  have same := @updateSum_eq _ _ _ _ _ _ _ change state.depth 0 0 _ (summed.walk change) positive shallow inside flag
  rwa [pow_zero, Nat.div_one, counted, Nat.zero_add, pow_one, ← linked.parent, ← linked.isLeftNode] at same

theorem depth_le {last : Nat} (grown : state.Grown live last) (few : last < 2 ^ 31) : state.depth ≤ 31 := by
  rcases grown.tight with one | high
  · omega
  · have less := (Nat.pow_lt_pow_iff_right (Nat.one_lt_two)).mp (Nat.lt_of_le_of_lt high few)
    omega

/-- **A leaf is removed.** -/
theorem updateSumsLeavesToRoot_remove (grown : state.Grown live (state.index - 1)) (few : state.index - 1 < 2 ^ 31)
    (member : r ∈ live) (here : state.At 0 r address leaf) :
    updateSumsLeavesToRoot state (state.tree 0 r) false = state.updateSumsLeavesToRoot (state.tree 0 r) false := by
  have early : r ≤ state.index - 1 := Nat.le_sub_one_of_lt (grown.small r member)
  have linked := grown.toLeaves.linked member here
  have gone : state.Spent (live.erase r) r := ⟨grown.small r member, by simp⟩
  have uncounted : total (live.erase r) 0 r = 0 := by rw [total_zero, if_neg (by simp)]
  let zeroed := state.set address { leaf with sumLeft := 0 }
  have linked' : zeroed.Linked 0 r leaf := ⟨linked.nodeIndex, linked.parent, linked.isLeftNode⟩
  have before : zeroed.Summed live (state.Spent live) := grown.summed.set_leaf here.1
  rw [updateSumsLeavesToRoot, StackDistCalc.updateSumsLeavesToRoot, here.1, Option.bind_some, Option.bind_some, here.2,
    Option.bind_some, Option.bind_some, if_neg Bool.false_ne_true, if_neg Bool.false_ne_true]
  exact updateSum_leaf before (change_erase member) grown.positive
    (show state.depth ≤ 31 from depth_le grown few) (fun k low => grown.inside early low) linked' uncounted true (iff_of_true rfl gone)

/-- **A leaf is added.** -/
theorem updateSumsLeavesToRoot_add (grown : state.Grown live state.index) (few : state.index < 2 ^ 31) {up : Nat}
    (entry : state.tree 1 (state.nextIndex 1 - 1) = some up) :
    updateSumsLeavesToRoot ((state.place 0 state.index (.make state.index up)).countUp 0)
        (((state.place 0 state.index (.make state.index up)).countUp 0).tree 0 state.index) true =
      ((state.place 0 state.index (.make state.index up)).countUp 0).updateSumsLeavesToRoot
        (((state.place 0 state.index (.make state.index up)).countUp 0).tree 0 state.index) true := by
  obtain ⟨up', leafed, entry', is, placed, next, before, linked⟩ := grown.leafed
  obtain rfl : up' = up := Option.some.inj (entry'.symm.trans entry)
  rw [is]
  let one := leafed.set state.next { Node.make state.index up' with sumLeft := 1 }
  have depth : one.depth = state.depth := placed.depth
  have counted : total (insert state.index live) 0 state.index = 1 := by
    rw [total_zero, if_pos (Finset.mem_insert_self ..)]
  rw [updateSumsLeavesToRoot, StackDistCalc.updateSumsLeavesToRoot, placed.here.1, Option.bind_some, Option.bind_some,
    placed.here.2, Option.bind_some, Option.bind_some, if_pos rfl, if_pos rfl]
  refine congrArg (Option.map _) (updateSum_leaf before change_insert (depth ▸ grown.positive)
    (depth ▸ depth_le grown few) (fun k low => ?_) linked counted false (by simp))
  exact (next k).symm ▸ grown.inside (Nat.le_refl _) (depth ▸ low)

theorem climb_spec (summed : state.Summed live spent) (free : ¬ spent r)
    (inside : ∀ k, k < state.depth → r / 2 ^ (k + 1) < state.nextIndex (k + 1)) {layers k : Nat}
    (high : k + layers + 1 = state.depth) :
    ∃ root, climb state.nodes layers (state.tree (k + 1) (r / 2 ^ (k + 1))) = some root ∧ root.parent = none := by
  induction layers generalizing k with
  | zero =>
    obtain ⟨address, root, here, linked, -⟩ := summed.inner k _ (by omega) (inside k (by omega)) (.inl high)
    exact ⟨root, by rw [climb, here.1, Option.bind_some, here.2], linked.parent.trans (summed.entries.top (by omega))⟩
  | succ layers ih =>
    obtain ⟨address, node, here, linked, -⟩ := summed.inner k _ (by omega) (inside k (by omega)) (.inr (not_covers free))
    obtain ⟨root, climbed, rootless⟩ := @ih (k + 1) (by omega)
    refine ⟨root, ?_, rootless⟩
    rw [climb, here.1, Option.bind_some, here.2, Option.bind_some, linked.parent, ← div_succ]
    exact climbed

/-- **The last parent of a leaf is the root.** -/
theorem sanityCheckTree_spec {last : Nat} (grown : state.Grown live last) (early : r ≤ last) (member : r ∈ live) :
    sanityCheckTree state (state.tree 0 r) = true := by
  obtain ⟨address, leaf, here, linked⟩ := grown.leaf r member
  have high : 0 + (state.depth - 1) + 1 = state.depth := by
    have positive := grown.positive
    omega
  obtain ⟨root, climbed, rootless⟩ := @climb_spec _ _ _ _ r grown.summed (fun spent => spent.2 member)
    (fun k low => grown.inside early low) _ 0 high
  rw [Nat.zero_add, pow_one, ← linked.parent] at climbed
  rw [sanityCheckTree, here.1, Option.bind_some, here.2, Option.bind_some, climbed, Option.any_some, rootless]
  rfl

end Sums

/-! ### Calls -/

variable {calculator : StackDistCalc Addr} {leaves : List (Nat × Addr × Bool)}

theorem removeOld_eq (recalls : calculator.Recalls leaves) (mapped : calculator.Mapped leaves)
    (few : calculator.index - 1 < 2 ^ 31) (a : Addr) (addNewNode : Bool) :
    removeOld calculator a addNewNode = calculator.removeOld a addNewNode := by
  rw [removeOld, StackDistCalc.removeOld]
  cases found : calculator.aiMap a with
  | some r =>
    obtain ⟨mark, member⟩ := (mapped a r).mp found
    obtain ⟨address, leaf, here, -⟩ := recalls.marked _ member
    dsimp only
    have grown := recalls.relabelled
      (Function.update calculator.aiMap a (if addNewNode then some calculator.index else none))
    have same := updateSumsLeavesToRoot_remove grown few (mem_leavesOf.mpr ⟨a, mark, member⟩) here
    rw [same]
  | none => rfl

omit [DecidableEq Addr] in
theorem addNew_eq (recalls : calculator.Recalls leaves) (few : calculator.index < 2 ^ 31) :
    (addNew calculator).map (fun added => { added with index := added.index + 1 }) = calculator.addNew := by
  obtain ⟨ready, grew, grown, framed⟩ := recalls.ready few
  obtain ⟨up, summed, entry, run, index, grown', -⟩ := grown.add
  have sane : sanityCheckTree summed (summed.tree 0 summed.index) = true := by
    have counted : sanityCheckTree { summed with index := summed.index + 1 } (summed.tree 0 ready.index) = true :=
      sanityCheckTree_spec grown' (Nat.le_refl _) (Finset.mem_insert_self ..)
    rw [index]
    exact counted
  rw [addNew, StackDistCalc.addNew, grew, Option.bind_some, Option.bind_some, entry, Option.bind_some, Option.bind_some]
  dsimp only
  rw [updateSumsLeavesToRoot_add grown (by rw [framed.index]; exact few) entry, run, Option.bind_some, if_pos sane]
  rfl

end VerifyStack

end Emas.Gem5

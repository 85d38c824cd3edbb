/-
**The tree of partial sums.**

What holds of the tree of a `StackDistCalc` between two calls. Of the leaves that were ever added, the `live` ones stand
for an address and the others are spent. Every inner node with a leaf below it that is live or still to come exists,
is linked to the node above, and holds the number of live leaves of its halves (`Inner`); so does the root.
-/

import Emas.Gem5.StackDist
import Emas.Lib.Blocks

namespace Emas.Gem5.StackDistCalc

open Blocks

variable {Addr : Type} (state : StackDistCalc Addr)

/-! ### Nodes and links -/

/-- An entry of a layer and the node that it leads to. -/
def At (k j address : Nat) (node : Node) : Prop := state.tree k j = some address ∧ state.nodes address = some node

/-- The entries of the layers lead to different addresses, which have been given out. -/
structure Entries : Prop where
  inj : ∀ {k j k' j' address}, state.tree k j = some address → state.tree k' j' = some address → k = k' ∧ j = j'
  old : ∀ {k j address}, state.tree k j = some address → address < state.next
  top : ∀ {k j}, state.depth < k → state.tree k j = none

/-- The node is number `j` of layer `k`, and linked to the one above. -/
structure Linked (k j : Nat) (node : Node) : Prop where
  nodeIndex : node.nodeIndex = j
  parent : node.parent = state.tree (k + 1) (j / 2)
  isLeftNode : node.isLeftNode = decide (j % 2 = 0)

/-- The sums and flags of a node, over the blocks of height `k`. -/
structure Node.Sums (node : Node) (live : Finset Nat) (spent : Nat → Prop) (k j : Nat) : Prop where
  sumLeft : node.sumLeft = total live k (2 * j)
  sumRight : node.sumRight = total live k (2 * j + 1)
  discardLeft : node.discardLeft = true ↔ Covers spent k (2 * j)
  discardRight : node.discardRight = true ↔ Covers spent k (2 * j + 1)

/-- An inner node: it exists, unless all leaves below are spent. -/
def Inner (live : Finset Nat) (spent : Nat → Prop) (k j : Nat) : Prop :=
  k < state.depth → j < state.nextIndex (k + 1) → k + 1 = state.depth ∨ ¬ Covers spent (k + 1) j →
    ∃ address node, state.At (k + 1) j address node ∧ state.Linked (k + 1) j node ∧ node.Sums live spent k j

/-- All inner nodes. -/
structure Summed (live : Finset Nat) (spent : Nat → Prop) : Prop where
  entries : state.Entries
  inner : ∀ k j, state.Inner live spent k j

/-- A node is put into a layer. -/
structure Placed (state' : StackDistCalc Addr) (k j : Nat) (node : Node) : Prop where
  entries : state'.Entries
  here : state'.At k j state.next node
  keeps : ∀ {k' j' address' node'}, ¬ (k' = k ∧ j' = j) → state.At k' j' address' node' → state'.At k' j' address' node'
  tree : ∀ {k' j'}, ¬ (k' = k ∧ j' = j) → state'.tree k' j' = state.tree k' j'
  index : state'.index = state.index
  depth : state'.depth = state.depth
  aiMap : state'.aiMap = state.aiMap

/-- What the leaves are to a walk up the tree. -/
structure Kept (state' : StackDistCalc Addr) (spent : Nat → Prop) : Prop where
  index : state'.index = state.index
  depth : state'.depth = state.depth
  aiMap : state'.aiMap = state.aiMap
  nextIndex : state'.nextIndex = state.nextIndex
  leaf : ∀ j, state'.tree 0 j = state.tree 0 j
  leafNode : ∀ j address, state.tree 0 j = some address → state'.nodes address = state.nodes address
  stays : ∀ k j, ¬ Covers spent k j → state'.tree k j = state.tree k j

/-- A leaf that is added or removed. -/
structure Change (live live' : Finset Nat) (spent spent' : Nat → Prop) (r : Nat) : Prop where
  free : ¬ spent r
  apart : ∀ m, spent' m → m ∉ live'
  live : ∀ m, m ≠ r → (m ∈ live ↔ m ∈ live')
  spent : ∀ m, m ≠ r → (spent m ↔ spent' m)

variable {state} {live live' : Finset Nat} {spent spent' : Nat → Prop} {k j r address : Nat} {node : Node}

theorem Kept.trans {state' state'' : StackDistCalc Addr} (first : state.Kept state' spent)
    (second : state'.Kept state'' spent) : state.Kept state'' spent where
  index := second.index.trans first.index
  depth := second.depth.trans first.depth
  aiMap := second.aiMap.trans first.aiMap
  nextIndex := second.nextIndex.trans first.nextIndex
  leaf := fun j => (second.leaf j).trans (first.leaf j)
  leafNode := fun j address here =>
    (second.leafNode j address ((first.leaf j).trans here)).trans (first.leafNode j address here)
  stays := fun k j free => (second.stays k j free).trans (first.stays k j free)

theorem Kept.at_zero {state' : StackDistCalc Addr} (kept : state.Kept state' spent) (here : state.At 0 j address node) :
    state'.At 0 j address node :=
  ⟨(kept.leaf j).trans here.1, (kept.leafNode j address here.1).trans here.2⟩

theorem tree_setEntry (entry : Option Nat) (k' j' : Nat) :
    (state.setEntry k j entry).tree k' j' = if k' = k ∧ j' = j then entry else state.tree k' j' := by
  rw [setEntry]
  by_cases layer : k' = k
  · subst layer
    by_cases key : j' = j
    · simp [key]
    · simp [key]
  · simp [layer]

theorem nodes_set (other : Nat) :
    (state.set address node).nodes other = if other = address then some node else state.nodes other := by
  simp [set, Function.update_apply]

theorem nodes_discard (other : Nat) :
    (state.discard k j address).nodes other = if other = address then none else state.nodes other := by
  simp [discard, Function.update_apply]

theorem nodes_place (other : Nat) :
    (state.place k j node).nodes other = if other = state.next then some node else state.nodes other := by
  simp [place, Function.update_apply]

theorem tree_discard (k' j' : Nat) :
    (state.discard k j address).tree k' j' = if k' = k ∧ j' = j then none else state.tree k' j' :=
  tree_setEntry none k' j'

theorem tree_place (k' j' : Nat) :
    (state.place k j node).tree k' j' = if k' = k ∧ j' = j then some state.next else state.tree k' j' :=
  tree_setEntry _ k' j'

/-! ### What a change of one node leaves as it is -/

namespace Entries

theorem at_set (entries : state.Entries) (here : state.tree k j = some address) {k' j' address' : Nat} {node' : Node}
    (other : ¬ (k' = k ∧ j' = j)) (there : state.At k' j' address' node') :
    (state.set address node).At k' j' address' node' := by
  refine ⟨there.1, ?_⟩
  rw [nodes_set, if_neg]
  · exact there.2
  · rintro rfl
    exact other (entries.inj there.1 here)

theorem at_discard (entries : state.Entries) (here : state.tree k j = some address) {k' j' address' : Nat}
    {node' : Node} (other : ¬ (k' = k ∧ j' = j)) (there : state.At k' j' address' node') :
    (state.discard k j address).At k' j' address' node' := by
  refine ⟨?_, ?_⟩
  · rw [tree_discard, if_neg other]
    exact there.1
  · rw [nodes_discard, if_neg]
    · exact there.2
    · rintro rfl
      exact other (entries.inj there.1 here)

theorem set (entries : state.Entries) : (state.set address node).Entries := ⟨entries.inj, entries.old, entries.top⟩

theorem discard (entries : state.Entries) : (state.discard k j address).Entries := by
  have sub : ∀ {k' j' address'}, (state.discard k j address).tree k' j' = some address' →
      state.tree k' j' = some address' := by
    intro k' j' address' there
    rw [tree_discard] at there
    split at there
    · cases there
    · exact there
  refine ⟨fun left right => entries.inj (sub left) (sub right), fun there => entries.old (sub there), ?_⟩
  intro k' j' high
  rw [tree_discard, entries.top high, ite_self]

theorem place (entries : state.Entries) (low : k ≤ state.depth) : (state.place k j node).Entries := by
  have cases : ∀ {k' j' address'}, (state.place k j node).tree k' j' = some address' →
      (k' = k ∧ j' = j ∧ address' = state.next) ∨ state.tree k' j' = some address' := by
    intro k' j' address' there
    rw [tree_place] at there
    split at there
    next same => exact .inl ⟨same.1, same.2, (Option.some.inj there).symm⟩
    next => exact .inr there
  refine ⟨?_, ?_, ?_⟩
  · intro k₁ j₁ k₂ j₂ address' left right
    rcases cases left with ⟨rfl, rfl, rfl⟩ | first
    · rcases cases right with ⟨rfl, rfl, -⟩ | second
      · exact ⟨rfl, rfl⟩
      · exact absurd (entries.old second) (Nat.lt_irrefl _)
    · rcases cases right with ⟨rfl, rfl, rfl⟩ | second
      · exact absurd (entries.old first) (Nat.lt_irrefl _)
      · exact entries.inj first second
  · intro k' j' address' there
    show address' < state.next + 1
    rcases cases there with ⟨-, -, rfl⟩ | there
    · exact Nat.lt_succ_self _
    · exact Nat.lt_succ_of_lt (entries.old there)
  · intro k' j' high
    have high' : state.depth < k' := high
    rw [tree_place, if_neg, entries.top high']
    rintro ⟨rfl, -⟩
    omega

theorem placed (entries : state.Entries) (low : k ≤ state.depth) : state.Placed (state.place k j node) k j node where
  entries := entries.place low
  here := ⟨by rw [tree_place, if_pos ⟨rfl, rfl⟩], by rw [nodes_place, if_pos rfl]⟩
  keeps := by
    intro k' j' address' node' other there
    refine ⟨by rw [tree_place, if_neg other, there.1], ?_⟩
    rw [nodes_place, if_neg (Nat.ne_of_lt (entries.old there.1)), there.2]
  tree := fun other => by rw [tree_place, if_neg other]
  index := rfl
  depth := rfl
  aiMap := rfl

theorem placed_countUp (entries : state.Entries) (low : k ≤ state.depth) :
    state.Placed ((state.place k j node).countUp k) k j node := by
  obtain ⟨entries, here, keeps, tree, index, depth, aiMap⟩ := entries.placed low
  exact ⟨⟨entries.inj, entries.old, entries.top⟩, here, keeps, tree, index, depth, aiMap⟩

end Entries

theorem Inner.frame {state' : StackDistCalc Addr} (inner : state.Inner live spent k j)
    (depth : state'.depth = state.depth) (nextIndex : state'.nextIndex (k + 1) = state.nextIndex (k + 1))
    (keeps : ∀ address node, state.At (k + 1) j address node → state'.At (k + 1) j address node)
    (up : state'.tree (k + 2) (j / 2) = state.tree (k + 2) (j / 2)) : state'.Inner live spent k j := by
  intro low inside required
  rw [depth] at low required
  rw [nextIndex] at inside
  obtain ⟨address, node, here, linked, sums⟩ := inner low inside required
  exact ⟨address, node, keeps address node here,
    ⟨linked.nodeIndex, linked.parent.trans up.symm, linked.isLeftNode⟩, sums⟩

/-! ### The walk to the root -/

theorem Node.receive_eq (node : Node) (fromLeft : Bool) {sum : Nat} {discardNode : Bool}
    (empty : discardNode = true → sum = 0) :
    node.receive fromLeft sum discardNode =
      if fromLeft then { node with sumLeft := sum, discardLeft := discardNode || node.discardLeft }
      else { node with sumRight := sum, discardRight := discardNode || node.discardRight } := by
  cases discardNode with
  | true =>
    rw [empty rfl]
    cases fromLeft <;> rfl
  | false => cases fromLeft <;> rfl

namespace Change

variable (change : Change live live' spent spent' r)

include change

theorem empty {discardNode : Bool} (discarded : discardNode = true ↔ Covers spent' k (r / 2 ^ k)) :
    discardNode = true → total live' k (r / 2 ^ k) = 0 :=
  fun covered => covers_disjoint change.apart (discarded.mp covered)

theorem discards_iff (sums : node.Sums live' spent' k (r / 2 ^ (k + 1))) {discardNode : Bool}
    (discarded : discardNode = true ↔ Covers spent' k (r / 2 ^ k)) :
    (node.discardLeft && node.discardRight && discardNode && true && total live' k (r / 2 ^ k) == 0) = true ↔
      Covers spent' (k + 1) (r / 2 ^ (k + 1)) := by
  have half := div_succ r k
  have child : r / 2 ^ k = 2 * (r / 2 ^ (k + 1)) ∨ r / 2 ^ k = 2 * (r / 2 ^ (k + 1)) + 1 := by omega
  simp only [Bool.and_eq_true, sums.discardLeft, sums.discardRight, beq_iff_eq, and_true]
  rw [covers_succ]
  constructor
  · exact fun both => both.1.1
  · intro both
    have covered : Covers spent' k (r / 2 ^ k) := by
      rcases child with left | right
      · exact left ▸ both.1
      · exact right ▸ both.2
    exact ⟨⟨both, discarded.mpr covered⟩, covers_disjoint change.apart covered⟩

theorem receive_sums (sums : node.Sums live spent k (r / 2 ^ (k + 1))) {discardNode : Bool}
    (discarded : discardNode = true ↔ Covers spent' k (r / 2 ^ k)) :
    (node.receive (decide (r / 2 ^ k % 2 = 0)) (total live' k (r / 2 ^ k)) discardNode).Sums live' spent' k
      (r / 2 ^ (k + 1)) := by
  have half := div_succ r k
  have notBefore : ¬ Covers spent k (r / 2 ^ k) := not_covers change.free
  rw [Node.receive_eq _ _ (change.empty discarded)]
  by_cases even : r / 2 ^ k % 2 = 0
  · have child : 2 * (r / 2 ^ (k + 1)) = r / 2 ^ k := by omega
    have other : 2 * (r / 2 ^ (k + 1)) + 1 ≠ r / 2 ^ k := by omega
    rw [decide_eq_true even, if_pos rfl]
    refine ⟨by rw [child], ?_, ?_, ?_⟩
    · rw [← total_congr change.live other, sums.sumRight]
    · rw [Bool.or_eq_true, sums.discardLeft, child, discarded, or_iff_left notBefore]
    · rw [← covers_congr change.spent other, sums.discardRight]
  · have child : 2 * (r / 2 ^ (k + 1)) + 1 = r / 2 ^ k := by omega
    have other : 2 * (r / 2 ^ (k + 1)) ≠ r / 2 ^ k := by omega
    rw [decide_eq_false even, if_neg Bool.false_ne_true]
    refine ⟨?_, by rw [child], ?_, ?_⟩
    · rw [← total_congr change.live other, sums.sumLeft]
    · rw [← covers_congr change.spent other, sums.discardLeft]
    · rw [Bool.or_eq_true, sums.discardRight, child, discarded, or_iff_left notBefore]

end Change

theorem Node.Sums.dist (sums : node.Sums live spent k (r / 2 ^ (k + 1))) (stackDist : Nat) :
    (if decide (r / 2 ^ k % 2 = 0) then stackDist + node.sumRight else stackDist) + after live r k =
      stackDist + after live r (k + 1) := by
  rw [after_succ]
  by_cases even : r / 2 ^ k % 2 = 0
  · rw [decide_eq_true even, if_pos rfl, if_pos even, sums.sumRight]
    omega
  · rw [decide_eq_false even, if_neg Bool.false_ne_true, if_neg even, Nat.add_zero]

theorem Node.receive_dist (node : Node) (fromLeft : Bool) (sum : Nat) (discardNode : Bool) (stackDist : Nat) :
    (if fromLeft then stackDist + (node.receive fromLeft sum discardNode).sumRight else stackDist) =
      if fromLeft then stackDist + node.sumRight else stackDist := by
  cases fromLeft with
  | true =>
    rw [if_pos rfl, if_pos rfl, Node.receive]
    split <;> rfl
  | false => rfl

theorem Linked.receive (linked : state.Linked k j node) (fromLeft : Bool) (sum : Nat) (discardNode : Bool) :
    state.Linked k j (node.receive fromLeft sum discardNode) := by
  obtain ⟨nodeIndex, parent, isLeftNode⟩ := linked
  rw [Node.receive]
  split <;> split <;> exact ⟨nodeIndex, parent, isLeftNode⟩

variable (state live live' spent spent' r) in
/-- The walk up from leaf `r` has reached height `i`. -/
structure Walk (i : Nat) : Prop where
  entries : state.Entries
  done : ∀ k j, ¬ (i ≤ k ∧ j = r / 2 ^ (k + 1)) → state.Inner live' spent' k j
  ahead : ∀ k, i ≤ k → state.Inner live spent k (r / 2 ^ (k + 1))

namespace Walk

variable {i : Nat} (walk : state.Walk live live' spent spent' r i)

include walk

theorem summed (top : state.depth ≤ i) : state.Summed live' spent' := by
  refine ⟨walk.entries, fun k j => ?_⟩
  by_cases above : i ≤ k
  · intro low
    omega
  · exact walk.done k j fun both => above both.1

theorem set (here : state.tree (i + 1) (r / 2 ^ (i + 1)) = some address)
    (linked : state.Linked (i + 1) (r / 2 ^ (i + 1)) node) (sums : node.Sums live' spent' i (r / 2 ^ (i + 1))) :
    (state.set address node).Walk live live' spent spent' r (i + 1) := by
  have frame : ∀ {live spent k j}, ¬ (k + 1 = i + 1 ∧ j = r / 2 ^ (i + 1)) → state.Inner live spent k j →
      (state.set address node).Inner live spent k j :=
    fun other inner => inner.frame rfl rfl (fun _ _ => walk.entries.at_set here other) rfl
  refine ⟨walk.entries.set, fun k j off => ?_, fun k above => frame (by omega) (walk.ahead k (by omega))⟩
  by_cases this : k = i ∧ j = r / 2 ^ (i + 1)
  · obtain ⟨rfl, rfl⟩ := this
    exact fun _ _ _ => ⟨address, node, ⟨here, by rw [nodes_set, if_pos rfl]⟩,
      ⟨linked.nodeIndex, linked.parent, linked.isLeftNode⟩, sums⟩
  · refine frame (by omega) (walk.done k j ?_)
    rintro ⟨above, rfl⟩
    rcases Nat.eq_or_lt_of_le above with rfl | less
    · exact this ⟨rfl, rfl⟩
    · exact off ⟨less, rfl⟩

theorem discard (here : state.tree (i + 1) (r / 2 ^ (i + 1)) = some address) (low : i + 1 < state.depth)
    (covered : Covers spent' (i + 1) (r / 2 ^ (i + 1))) :
    (state.discard (i + 1) (r / 2 ^ (i + 1)) address).Walk live live' spent spent' r (i + 1) := by
  have frame : ∀ {live spent k j}, ¬ (k + 1 = i + 1 ∧ j = r / 2 ^ (i + 1)) →
      ¬ (k + 2 = i + 1 ∧ j / 2 = r / 2 ^ (i + 1)) → state.Inner live spent k j →
      (state.discard (i + 1) (r / 2 ^ (i + 1)) address).Inner live spent k j :=
    fun other up inner => inner.frame rfl rfl (fun _ _ => walk.entries.at_discard here other)
      (by rw [tree_discard, if_neg up])
  refine ⟨walk.entries.discard, fun k j off => ?_, fun k above => frame (by omega) (by omega) (walk.ahead k (by omega))⟩
  by_cases this : k = i ∧ j = r / 2 ^ (i + 1)
  · obtain ⟨rfl, rfl⟩ := this
    rintro - - (top | free)
    · exact absurd top (Nat.ne_of_lt low)
    · exact absurd covered free
  by_cases below : k + 2 = i + 1 ∧ j / 2 = r / 2 ^ (i + 1)
  -- the nodes below one that is discarded have spent leaves only as well
  · obtain ⟨height, up⟩ := below
    obtain rfl : i = k + 1 := by omega
    rw [← up, covers_succ] at covered
    rintro - - (top | free)
    · exact absurd (show k + 1 = state.depth from top) (by omega)
    · refine absurd ?_ free
      by_cases even : 2 * (j / 2) = j
      · exact even ▸ covered.1
      · have odd : 2 * (j / 2) + 1 = j := by omega
        exact odd ▸ covered.2
  · refine frame (by omega) below (walk.done k j ?_)
    rintro ⟨above, rfl⟩
    rcases Nat.eq_or_lt_of_le above with rfl | less
    · exact this ⟨rfl, rfl⟩
    · exact off ⟨less, rfl⟩

end Walk

theorem Kept.set (entries : state.Entries) (here : state.tree (k + 1) j = some address) :
    state.Kept (state.set address node) spent := by
  refine ⟨rfl, rfl, rfl, rfl, fun _ => rfl, fun leaf address' there => ?_, fun _ _ _ => rfl⟩
  rw [nodes_set, if_neg]
  rintro rfl
  exact absurd (entries.inj there here).1 (Nat.succ_ne_zero k).symm

theorem Kept.discard (entries : state.Entries) (here : state.tree (k + 1) j = some address)
    (covered : Covers spent (k + 1) j) : state.Kept (state.discard (k + 1) j address) spent := by
  refine ⟨rfl, rfl, rfl, rfl, fun leaf => ?_, fun leaf address' there => ?_, fun k' j' free => ?_⟩
  · rw [tree_discard, if_neg]
    omega
  · rw [nodes_discard, if_neg]
    rintro rfl
    exact absurd (entries.inj there here).1 (Nat.succ_ne_zero k).symm
  · rw [tree_discard, if_neg]
    rintro ⟨rfl, rfl⟩
    exact free covered

/-- Whether `updateSum` deletes a node. -/
def Node.discarded (old : Node) (fromLeft : Bool) (sum : Nat) (discardNode : Bool) : Bool :=
  (old.receive fromLeft sum discardNode).discardLeft && (old.receive fromLeft sum discardNode).discardRight &&
    discardNode && old.parent.isSome && sum == 0

/-- What `updateSum` makes of the tree at a node. -/
def visit (state : StackDistCalc Addr) (address level : Nat) (old : Node) (fromLeft : Bool) (sum : Nat)
    (discardNode : Bool) : StackDistCalc Addr :=
  if old.discarded fromLeft sum discardNode then state.discard (level + 1) old.nodeIndex address
  else state.set address (old.receive fromLeft sum discardNode)

theorem updateSum_succ {old : Node} (here : state.nodes address = some old) (fuel : Nat) (fromLeft : Bool)
    (sum level stackDist : Nat) (discardNode : Bool) :
    state.updateSum (fuel + 1) (some address) fromLeft sum level stackDist discardNode =
      match old.parent with
      | none => some (if fromLeft then stackDist + old.sumRight else stackDist,
          state.visit address level old fromLeft sum discardNode)
      | some up => (state.visit address level old fromLeft sum discardNode).updateSum fuel (some up) old.isLeftNode
          ((old.receive fromLeft sum discardNode).sumLeft + (old.receive fromLeft sum discardNode).sumRight) (level + 1)
          (if fromLeft then stackDist + old.sumRight else stackDist) (old.discarded fromLeft sum discardNode) := by
  rw [updateSum, Option.bind_some, here, Option.bind_some, ← Node.receive_dist old fromLeft sum discardNode stackDist]
  rfl

/-- **A step of the walk up.** -/
theorem Walk.step {i : Nat} (walk : state.Walk live live' spent spent' r i) (change : Change live live' spent spent' r)
    (low : i < state.depth) (inside : ∀ k, k < state.depth → r / 2 ^ (k + 1) < state.nextIndex (k + 1))
    {discardNode : Bool} (discarded : discardNode = true ↔ Covers spent' i (r / 2 ^ i)) :
    ∃ address old next, state.At (i + 1) (r / 2 ^ (i + 1)) address old ∧ old.Sums live spent i (r / 2 ^ (i + 1)) ∧
      state.visit address i old (decide (r / 2 ^ i % 2 = 0)) (total live' i (r / 2 ^ i)) discardNode = next ∧
      state.Kept next spent' ∧ ((i + 1 = state.depth ∧ old.parent = none ∧ next.Summed live' spent') ∨
        (i + 1 < state.depth ∧ (∃ above, old.parent = some above ∧ next.tree (i + 2) (r / 2 ^ (i + 2)) = some above) ∧
          old.isLeftNode = decide (r / 2 ^ (i + 1) % 2 = 0) ∧
          (old.receive (decide (r / 2 ^ i % 2 = 0)) (total live' i (r / 2 ^ i)) discardNode).sumLeft +
            (old.receive (decide (r / 2 ^ i % 2 = 0)) (total live' i (r / 2 ^ i)) discardNode).sumRight =
            total live' (i + 1) (r / 2 ^ (i + 1)) ∧
          (old.discarded (decide (r / 2 ^ i % 2 = 0)) (total live' i (r / 2 ^ i)) discardNode = true ↔
            Covers spent' (i + 1) (r / 2 ^ (i + 1))) ∧ next.Walk live live' spent spent' r (i + 1))) := by
  obtain ⟨address, old, here, linked, sums⟩ :=
    walk.ahead i (Nat.le_refl i) low (inside i low) (.inr (not_covers change.free))
  have sums' := change.receive_sums sums discarded
  have links := linked.receive (decide (r / 2 ^ i % 2 = 0)) (total live' i (r / 2 ^ i)) discardNode
  by_cases top : i + 1 = state.depth
  -- the root has no parent and is never discarded
  · have rootless : old.parent = none := linked.parent.trans (walk.entries.top (by omega))
    have stays : old.discarded (decide (r / 2 ^ i % 2 = 0)) (total live' i (r / 2 ^ i)) discardNode = false := by
      rw [Node.discarded, rootless, Option.isSome_none, Bool.and_false, Bool.false_and]
    refine ⟨address, old, _, here, sums, if_neg (by rw [stays]; exact Bool.false_ne_true), .set walk.entries here.1,
      .inl ⟨top, rootless, ?_⟩⟩
    exact (walk.set here.1 links sums').summed (Nat.le_of_eq top.symm)
  · have low' : i + 1 < state.depth := by omega
    obtain ⟨above, upper, there, -⟩ :=
      walk.ahead (i + 1) (Nat.le_succ i) low' (inside (i + 1) low') (.inr (not_covers change.free))
    have up : old.parent = some above := by rw [linked.parent, ← div_succ, there.1]
    have sum := @total_succ live' i (r / 2 ^ (i + 1))
    have discards := change.discards_iff sums' discarded
    rw [← sums'.sumLeft, ← sums'.sumRight] at sum
    have same : old.discarded (decide (r / 2 ^ i % 2 = 0)) (total live' i (r / 2 ^ i)) discardNode =
        ((old.receive (decide (r / 2 ^ i % 2 = 0)) (total live' i (r / 2 ^ i)) discardNode).discardLeft &&
          (old.receive (decide (r / 2 ^ i % 2 = 0)) (total live' i (r / 2 ^ i)) discardNode).discardRight &&
          discardNode && true && total live' i (r / 2 ^ i) == 0) := by
      rw [Node.discarded, up, Option.isSome_some]
    rw [← same] at discards
    refine ⟨address, old, _, here, sums, rfl, ?_⟩
    rw [visit, linked.nodeIndex]
    split
    · next gone =>
      have covered := discards.mp gone
      refine ⟨.discard walk.entries here.1 covered, .inr ⟨low', ⟨above, up, ?_⟩, linked.isLeftNode, sum.symm, discards,
        walk.discard here.1 low' covered⟩⟩
      rw [tree_discard, if_neg (by omega), there.1]
    · exact ⟨.set walk.entries here.1, .inr ⟨low', ⟨above, up, there.1⟩, linked.isLeftNode, sum.symm, discards,
        walk.set here.1 links sums'⟩⟩

/-- **The walk up.** -/
theorem updateSum_spec (change : Change live live' spent spent' r) {fuel i stackDist : Nat} {discardNode : Bool}
    (walk : state.Walk live live' spent spent' r i) (low : i < state.depth) (fueled : state.depth ≤ i + fuel)
    (inside : ∀ k, k < state.depth → r / 2 ^ (k + 1) < state.nextIndex (k + 1))
    (discarded : discardNode = true ↔ Covers spent' i (r / 2 ^ i)) :
    ∃ distance state', state.updateSum fuel (state.tree (i + 1) (r / 2 ^ (i + 1))) (decide (r / 2 ^ i % 2 = 0))
        (total live' i (r / 2 ^ i)) i stackDist discardNode = some (distance, state') ∧
      distance + after live r i = stackDist + after live r state.depth ∧
      state'.Summed live' spent' ∧ state.Kept state' spent' := by
  induction fuel generalizing i state stackDist discardNode with
  | zero => omega
  | succ fuel ih =>
    obtain ⟨address, old, next, here, sums, visited, kept, outcome⟩ := walk.step change low inside discarded
    have dist := sums.dist stackDist
    rw [here.1, updateSum_succ here.2, visited]
    generalize (if decide (r / 2 ^ i % 2 = 0) then stackDist + old.sumRight else stackDist) = stackDist' at dist ⊢
    rcases outcome with ⟨top, rootless, summed⟩ | ⟨low', ⟨above, up, entry⟩, isLeft, sum, discards, walk'⟩
    · rw [rootless]
      exact ⟨stackDist', next, rfl, by rw [← top, dist], summed, kept⟩
    · obtain ⟨distance, state', run, total, summed, kept'⟩ := @ih next (i + 1) stackDist' _ walk'
        (by rw [kept.depth]; exact low') (by rw [kept.depth]; omega)
        (by rw [kept.depth, kept.nextIndex]; exact inside) discards
      rw [entry] at run
      rw [up, isLeft, sum]
      refine ⟨distance, state', run, ?_, summed, kept.trans kept'⟩
      rw [kept.depth] at total
      omega

/-- The same sums, without a change. -/
theorem getSum_spec (summed : state.Summed live spent) (free : ¬ spent r) {fuel i stackDist : Nat}
    (low : i < state.depth) (fueled : state.depth ≤ i + fuel)
    (inside : ∀ k, k < state.depth → r / 2 ^ (k + 1) < state.nextIndex (k + 1)) :
    ∃ distance, state.getSum fuel (state.tree (i + 1) (r / 2 ^ (i + 1))) (decide (r / 2 ^ i % 2 = 0)) stackDist =
        some distance ∧ distance + after live r i = stackDist + after live r state.depth := by
  induction fuel generalizing i stackDist with
  | zero => omega
  | succ fuel ih =>
    have onPath : ∀ i, i < state.depth → ∃ address node, state.At (i + 1) (r / 2 ^ (i + 1)) address node ∧
        state.Linked (i + 1) (r / 2 ^ (i + 1)) node ∧ node.Sums live spent i (r / 2 ^ (i + 1)) :=
      fun i low => summed.inner i _ low (inside i low) (.inr (not_covers free))
    obtain ⟨address, node, here, linked, sums⟩ := onPath i low
    have dist := sums.dist stackDist
    rw [getSum, here.1, Option.bind_some, here.2, Option.bind_some]
    simp only []
    generalize (if decide (r / 2 ^ i % 2 = 0) then stackDist + node.sumRight else stackDist) = stackDist' at dist ⊢
    by_cases top : i + 1 = state.depth
    · have rootless : node.parent = none := linked.parent.trans (summed.entries.top (by omega))
      simp only [rootless]
      exact ⟨stackDist', rfl, by rw [← top, dist]⟩
    · have low' : i + 1 < state.depth := by omega
      obtain ⟨above, upper, there, -⟩ := onPath (i + 1) low'
      have up : node.parent = some above := by rw [linked.parent, ← div_succ, there.1]
      obtain ⟨distance, run, total⟩ := @ih (i + 1) stackDist' low' (by omega)
      rw [there.1] at run
      simp only [up, linked.isLeftNode]
      exact ⟨distance, run, by omega⟩

end Emas.Gem5.StackDistCalc

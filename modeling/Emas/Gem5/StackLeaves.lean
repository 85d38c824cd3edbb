/-
**The leaves of the tree.**

One leaf is removed or added: the nodes above it are brought up to date (`Summed.updateSum`), and what holds of the tree
between two calls holds again.
-/

import Emas.Gem5.StackGrowth

namespace Emas.Gem5.StackDistCalc

open Blocks

variable {Addr : Type} {state state' : StackDistCalc Addr} {live live' : Finset Nat} {spent spent' : Nat → Prop}
variable {r address : Nat} {leaf : Node}

theorem Change.inner (change : Change live live' spent spent' r) {k j : Nat} (off : j ≠ r / 2 ^ (k + 1))
    (inner : state.Inner live spent k j) : state.Inner live' spent' k j := by
  have half := div_succ r k
  have left : 2 * j ≠ r / 2 ^ k := by omega
  have right : 2 * j + 1 ≠ r / 2 ^ k := by omega
  intro low inside required
  rw [← covers_congr change.spent off] at required
  obtain ⟨address, node, here, linked, sums⟩ := inner low inside required
  refine ⟨address, node, here, linked, ?_, ?_, ?_, ?_⟩
  · rw [← total_congr change.live left, sums.sumLeft]
  · rw [← total_congr change.live right, sums.sumRight]
  · rw [← covers_congr change.spent left, sums.discardLeft]
  · rw [← covers_congr change.spent right, sums.discardRight]

theorem Summed.walk (summed : state.Summed live spent) (change : Change live live' spent spent' r) :
    state.Walk live live' spent spent' r 0 :=
  ⟨summed.entries, fun k j off => change.inner (fun same => off ⟨Nat.zero_le k, same⟩) (summed.inner k j),
    fun k _ => summed.inner k _⟩

theorem Summed.set_leaf (summed : state.Summed live spent) (here : state.tree 0 r = some address) :
    (state.set address leaf).Summed live spent :=
  ⟨summed.entries.set, fun k j => (summed.inner k j).frame rfl rfl
    (fun _ _ => summed.entries.at_set here (by omega)) rfl⟩

theorem Summed.discard_leaf (summed : state.Summed live spent) (here : state.tree 0 r = some address) :
    (state.discard 0 r address).Summed live spent := by
  refine ⟨summed.entries.discard, fun k j => (summed.inner k j).frame rfl rfl
    (fun _ _ => summed.entries.at_discard here (by omega)) ?_⟩
  rw [tree_discard, if_neg (by omega)]

/-- **The sums after a leaf is added or removed.** -/
theorem Summed.updateSum (summed : state.Summed live spent) (change : Change live live' spent spent' r)
    (positive : 0 < state.depth) (inside : ∀ k, k < state.depth → r / 2 ^ (k + 1) < state.nextIndex (k + 1))
    (linked : state.Linked 0 r leaf) {sum : Nat} (counted : total live' 0 r = sum) (discardNode : Bool)
    (discarded : discardNode = true ↔ spent' r) :
    ∃ state', state.updateSum state.depth leaf.parent leaf.isLeftNode sum 0 0 discardNode =
        some (after live r state.depth, state') ∧ state'.Summed live' spent' ∧ state.Kept state' spent' := by
  have flag : discardNode = true ↔ Covers spent' 0 (r / 2 ^ 0) := by
    rw [pow_zero, Nat.div_one, covers_zero]
    exact discarded
  obtain ⟨distance, state', run, dist, summed', kept⟩ :=
    updateSum_spec change (summed.walk change) positive (Nat.le_of_eq (Nat.zero_add _).symm) inside flag
  rw [after_zero, Nat.zero_add, Nat.add_zero] at dist
  rw [dist, pow_zero, Nat.div_one, counted, Nat.zero_add, pow_one, ← linked.parent, ← linked.isLeftNode] at run
  exact ⟨state', run, summed', kept⟩

theorem Grown.inside {last : Nat} (grown : state.Grown live last) (early : r ≤ last) {k : Nat} (low : k < state.depth) :
    r / 2 ^ (k + 1) < state.nextIndex (k + 1) := by
  rw [grown.counts k low, Nat.lt_succ_iff]
  exact Nat.div_le_div_right early

theorem Grown.after_eq (grown : state.Grown live (state.index - 1)) (member : r ∈ live) :
    after live r state.depth = (live.filter fun m => r < m).card := by
  have below : ∀ m ∈ live, m < 2 ^ state.depth := by
    intro m live
    have small := grown.small m live
    have room := grown.room
    omega
  exact after_all below (below r member)

theorem Leaves.linked (leaves : state.Leaves live) (member : r ∈ live) (here : state.At 0 r address leaf) :
    state.Linked 0 r leaf := by
  obtain ⟨address', leaf', there, linked⟩ := leaves.leaf r member
  obtain rfl : address' = address := Option.some.inj (there.1.symm.trans here.1)
  obtain rfl : leaf' = leaf := Option.some.inj (there.2.symm.trans here.2)
  exact linked

theorem Linked.kept (linked : state.Linked 0 r leaf) (kept : state.Kept state' spent) (free : ¬ spent r) :
    state'.Linked 0 r leaf := by
  refine ⟨linked.nodeIndex, linked.parent.trans (kept.stays 1 (r / 2) ?_).symm, linked.isLeftNode⟩
  have block := not_covers (k := 1) free
  rwa [pow_one] at block

/-- What stays of the leaves when one of them changes. -/
structure LeafFramed (state state' : StackDistCalc Addr) (r : Nat) : Prop where
  aiMap : state'.aiMap = state.aiMap
  keeps : ∀ j address node, j ≠ r → state.At 0 j address node → state'.At 0 j address node

theorem Grown.getSums (grown : state.Grown live (state.index - 1)) (member : r ∈ live)
    (here : state.At 0 r address leaf) :
    state.getSumsLeavesToRoot (state.tree 0 r) = some (live.filter fun m => r < m).card := by
  have linked := grown.toLeaves.linked member here
  have free : ¬ state.Spent live r := fun spent => spent.2 member
  have early : r ≤ state.index - 1 := Nat.le_sub_one_of_lt (grown.small r member)
  obtain ⟨distance, run, dist⟩ := @getSum_spec _ _ _ _ _ grown.summed free state.depth 0 0 grown.positive
    (Nat.le_of_eq (Nat.zero_add _).symm) fun k low => grown.inside early low
  rw [after_zero, Nat.zero_add, Nat.add_zero, grown.after_eq member] at dist
  rw [dist, pow_zero, Nat.div_one, Nat.zero_add, pow_one, ← linked.parent, ← linked.isLeftNode] at run
  rw [getSumsLeavesToRoot, here.1, Option.bind_some, here.2, Option.bind_some, run]

theorem change_erase (member : r ∈ live) :
    Change live (live.erase r) (state.Spent live) (state.Spent (live.erase r)) r where
  free := fun spent => spent.2 member
  apart := fun m spent => spent.2
  live := fun m other => by simp [other]
  spent := fun m other => by simp [Spent, other]

theorem Grown.of_leaves {last : Nat} (grown : state.Grown live last) (leaves : state'.Leaves live')
    (depth : state'.depth = state.depth) (nextIndex : ∀ k, state'.nextIndex (k + 1) = state.nextIndex (k + 1)) :
    state'.Grown live' last where
  toLeaves := leaves
  counts := fun k low => (nextIndex k).trans (grown.counts k (depth ▸ low))
  positive := depth ▸ grown.positive
  room := depth ▸ grown.room
  tight := depth ▸ grown.tight

/-- **A leaf is removed.** -/
theorem Grown.remove (grown : state.Grown live (state.index - 1)) (member : r ∈ live)
    (here : state.At 0 r address leaf) :
    ∃ summed, state.updateSumsLeavesToRoot (state.tree 0 r) false = some ((live.filter fun m => r < m).card, summed) ∧
      summed.At 0 r address { leaf with sumLeft := 0 } ∧
      (summed.discard 0 r address).Grown (live.erase r) (state.index - 1) ∧ summed.index = state.index ∧
      LeafFramed state (summed.discard 0 r address) r := by
  have early : r ≤ state.index - 1 := Nat.le_sub_one_of_lt (grown.small r member)
  have linked := grown.toLeaves.linked member here
  have entries := grown.summed.entries
  have gone : state.Spent (live.erase r) r := ⟨grown.small r member, by simp⟩
  have uncounted : total (live.erase r) 0 r = 0 := by rw [total_zero, if_neg (by simp)]
  let zeroed := state.set address { leaf with sumLeft := 0 }
  have linked' : zeroed.Linked 0 r leaf := ⟨linked.nodeIndex, linked.parent, linked.isLeftNode⟩
  have before : zeroed.Summed live (state.Spent live) := grown.summed.set_leaf here.1
  obtain ⟨state', run, summed, kept⟩ := before.updateSum (change_erase member) grown.positive
    (fun k low => grown.inside early low) linked' uncounted true (iff_of_true rfl gone)
  have leaf' : state'.At 0 r address { leaf with sumLeft := 0 } :=
    kept.at_zero ⟨here.1, by rw [nodes_set, if_pos rfl]⟩
  have keeps : ∀ j address' node, j ≠ r → state.At 0 j address' node →
      (state'.discard 0 r address).At 0 j address' node := fun j address' node other there =>
    summed.entries.at_discard leaf'.1 (by omega) (kept.at_zero (entries.at_set here.1 (by omega) there))
  refine ⟨state', ?_, leaf', ?_, kept.index, ⟨kept.aiMap, keeps⟩⟩
  · rw [updateSumsLeavesToRoot, here.1, Option.bind_some, here.2, Option.bind_some, if_neg Bool.false_ne_true,
      ← grown.after_eq member]
    exact run
  · refine grown.of_leaves ⟨?_, ?_, fun j left => ?_⟩ kept.depth (fun k => congrFun kept.nextIndex (k + 1))
    · have same : (state'.discard 0 r address).Spent (live.erase r) = state.Spent (live.erase r) :=
        spent_congr kept.index
      rw [same]
      exact summed.discard_leaf leaf'.1
    · intro m left
      exact Nat.lt_of_lt_of_eq (grown.small m (Finset.mem_of_mem_erase left)) kept.index.symm
    · obtain ⟨other, inLive⟩ := Finset.mem_erase.mp left
      obtain ⟨address', node, there, links⟩ := grown.leaf j inLive
      have links' : zeroed.Linked 0 j node := ⟨links.nodeIndex, links.parent, links.isLeftNode⟩
      obtain ⟨nodeIndex, parent, isLeftNode⟩ := links'.kept kept fun spent => spent.2 left
      refine ⟨address', node, keeps j address' node other there, nodeIndex, ?_, isLeftNode⟩
      rw [parent, tree_discard, if_neg (by omega)]

theorem Grown.of_odd (grown : state.Grown live (state.index - 1)) (odd : state.index % 2 ≠ 0) :
    state.Grown live state.index := by
  refine ⟨grown.toLeaves, fun k low => ?_, grown.positive, ?_, ?_⟩
  · rw [grown.counts k low, pred_div_of_not_dvd]
    intro divides
    exact odd (Nat.mod_eq_zero_of_dvd (Nat.dvd_trans (dvd_pow_self 2 (Nat.succ_ne_zero k)) divides))
  · have notFull : state.index ≠ 2 ^ state.depth := by
      intro full
      rw [full] at odd
      exact odd (Nat.mod_eq_zero_of_dvd (dvd_pow_self 2 (Nat.ne_of_gt grown.positive)))
    have room := grown.room
    omega
  · exact grown.tight.imp_right fun high => Nat.le_trans high (Nat.sub_le _ 1)

theorem Grown.relabel {last : Nat} (grown : state.Grown live last) (tree : state'.tree = state.tree)
    (index : state'.index = state.index) (depth : state'.depth = state.depth)
    (nextIndex : state'.nextIndex = state.nextIndex) (next : state'.next = state.next)
    (nodes : ∀ address node, state.nodes address = some node → ∃ mark,
      state'.nodes address = some { node with isMarked := mark }) : state'.Grown live last := by
  have keeps : ∀ {k j address node}, state.At k j address node → ∃ mark,
      state'.At k j address { node with isMarked := mark } := by
    intro k j address node here
    obtain ⟨mark, there⟩ := nodes address node here.2
    exact ⟨mark, by rw [tree, here.1], there⟩
  have links : ∀ {k j node} (mark : Bool), state.Linked k j node → state'.Linked k j { node with isMarked := mark } :=
    fun mark linked => ⟨linked.nodeIndex, by rw [tree]; exact linked.parent, linked.isLeftNode⟩
  refine grown.of_leaves ⟨⟨⟨?_, ?_, ?_⟩, fun k j => ?_⟩, ?_, fun r member => ?_⟩ depth fun k => by rw [nextIndex]
  · rw [tree]
    exact grown.summed.entries.inj
  · rw [tree, next]
    exact grown.summed.entries.old
  · rw [tree, depth]
    exact grown.summed.entries.top
  · rw [spent_congr index]
    intro low inside required
    rw [depth] at low required
    rw [nextIndex] at inside
    obtain ⟨address, node, here, linked, sums⟩ := grown.summed.inner k j low inside required
    obtain ⟨mark, there⟩ := keeps here
    exact ⟨address, _, there, links mark linked, sums.sumLeft, sums.sumRight, sums.discardLeft, sums.discardRight⟩
  · rw [index]
    exact grown.small
  · obtain ⟨address, node, here, linked⟩ := grown.leaf r member
    obtain ⟨mark, there⟩ := keeps here
    exact ⟨address, _, there, links mark linked⟩

theorem change_insert :
    Change live (insert state.index live) (state.Spent live)
      (fun m => m < state.index + 1 ∧ m ∉ insert state.index live) state.index where
  free := fun spent => Nat.lt_irrefl _ spent.1
  apart := fun m spent => spent.2
  live := fun m other => by simp [other]
  spent := by
    intro m other
    rw [Spent, Finset.mem_insert, or_iff_right other]
    refine and_congr_left fun _ => ?_
    omega

theorem Grown.leafed (grown : state.Grown live state.index) :
    ∃ up leafed, state.tree 1 (state.nextIndex 1 - 1) = some up ∧
      (state.place 0 state.index (.make state.index up)).countUp 0 = leafed ∧
      state.Placed leafed 0 state.index (.make state.index up) ∧
      (∀ k, leafed.nextIndex (k + 1) = state.nextIndex (k + 1)) ∧
      (leafed.set state.next { Node.make state.index up with sumLeft := 1 }).Summed live (state.Spent live) ∧
      (leafed.set state.next { Node.make state.index up with sumLeft := 1 }).Linked 0 state.index
        (.make state.index up) := by
  have free : ¬ state.Spent live state.index := fun spent => Nat.lt_irrefl _ spent.1
  obtain ⟨up, upper, above, -⟩ := grown.summed.inner 0 (state.index / 2 ^ 1) grown.positive
    (grown.inside (Nat.le_refl _) grown.positive) (.inr (not_covers free))
  have entry : state.tree 1 (state.nextIndex 1 - 1) = some up := by
    rw [grown.counts 0 grown.positive, Nat.add_sub_cancel]
    exact above.1
  have placed : state.Placed _ 0 state.index (.make state.index up) :=
    grown.summed.entries.placed_countUp (Nat.zero_le _)
  have next : ∀ k, ((state.place 0 state.index (.make state.index up)).countUp 0).nextIndex (k + 1) =
      state.nextIndex (k + 1) := by
    intro k
    show Function.update state.nextIndex 0 (state.nextIndex 0 + 1) (k + 1) = _
    rw [Function.update_of_ne (Nat.succ_ne_zero k)]
  refine ⟨up, _, entry, rfl, placed, next, Summed.set_leaf ⟨placed.entries,
    fun k j => (grown.summed.inner k j).frame placed.depth (next k) ?_ ?_⟩ placed.here.1, rfl, ?_, rfl⟩
  · exact fun _ _ => placed.keeps (by omega)
  · exact placed.tree (by omega)
  · have stays := @placed.tree 1 (state.index / 2) (by omega)
    rw [pow_one] at above
    exact (stays.trans above.1).symm

/-- **The next leaf is added.** -/
theorem Grown.add (grown : state.Grown live state.index) :
    ∃ up summed, state.tree 1 (state.nextIndex 1 - 1) = some up ∧
      ((state.place 0 state.index (.make state.index up)).countUp 0).updateSumsLeavesToRoot
        (((state.place 0 state.index (.make state.index up)).countUp 0).tree 0 state.index) true =
          some (infinity, summed) ∧ summed.index = state.index ∧
      ({ summed with index := summed.index + 1 } : StackDistCalc Addr).Grown (insert state.index live) state.index ∧
      LeafFramed state summed state.index ∧
      ∃ address leaf, summed.At 0 state.index address leaf ∧ leaf.isMarked = false := by
  obtain ⟨up, leafed, entry, is, placed, next, before, linked⟩ := grown.leafed
  refine ⟨up, ?_⟩
  rw [is]
  let one := leafed.set state.next { Node.make state.index up with sumLeft := 1 }
  have depth : one.depth = state.depth := placed.depth
  have counted : total (insert state.index live) 0 state.index = 1 := by
    rw [total_zero, if_pos (Finset.mem_insert_self ..)]
  obtain ⟨summed, run, after, kept⟩ := before.updateSum change_insert (depth ▸ grown.positive)
    (fun k low => (next k).symm ▸ grown.inside (Nat.le_refl _) (depth ▸ low)) linked counted false (by simp)
  have keeps : ∀ j address node, j ≠ state.index → state.At 0 j address node → summed.At 0 j address node :=
    fun j address node other there =>
      kept.at_zero (placed.entries.at_set placed.here.1 (by omega) (placed.keeps (by omega) there))
  have leaf : summed.At 0 state.index state.next { Node.make state.index up with sumLeft := 1 } :=
    kept.at_zero ⟨placed.here.1, by rw [nodes_set, if_pos rfl]⟩
  have index : summed.index = state.index := kept.index.trans placed.index
  refine ⟨summed, entry, ?_, index, ?_, ⟨kept.aiMap.trans placed.aiMap, keeps⟩, state.next, _, leaf, rfl⟩
  · rw [updateSumsLeavesToRoot, placed.here.1, Option.bind_some, placed.here.2, Option.bind_some, if_pos rfl]
    exact congrArg (Option.map _) run
  · refine grown.of_leaves ⟨?_, ?_, fun j member => ?_⟩ (kept.depth.trans depth)
      fun k => (congrFun kept.nextIndex (k + 1)).trans (next k)
    · have same : ({ summed with index := summed.index + 1 } : StackDistCalc Addr).Spent (insert state.index live) =
          fun m => m < state.index + 1 ∧ m ∉ insert state.index live := by
        funext m
        rw [Spent, index]
      rw [same]
      exact ⟨⟨after.entries.inj, after.entries.old, after.entries.top⟩,
        fun k j => (after.inner k j).frame rfl rfl (fun _ _ here => here) rfl⟩
    · intro m member
      show m < summed.index + 1
      rw [index]
      rcases Finset.mem_insert.mp member with rfl | old
      · exact Nat.lt_succ_self _
      · exact Nat.lt_succ_of_lt (grown.small m old)
    · have free' : ¬ (j < state.index + 1 ∧ j ∉ insert state.index live) := fun spent => spent.2 member
      rcases Finset.mem_insert.mp member with rfl | old
      · obtain ⟨nodeIndex, parent, isLeftNode⟩ := linked.kept kept free'
        exact ⟨state.next, _, leaf, nodeIndex, parent, isLeftNode⟩
      · obtain ⟨address, node, there, links⟩ := grown.leaf j old
        have links' : one.Linked 0 j node :=
          ⟨links.nodeIndex, links.parent.trans (placed.tree (by omega)).symm, links.isLeftNode⟩
        obtain ⟨nodeIndex, parent, isLeftNode⟩ := links'.kept kept free'
        have other : j ≠ state.index := Nat.ne_of_lt (grown.small j old)
        exact ⟨address, node, keeps j address node other there, nodeIndex, parent, isLeftNode⟩

end Emas.Gem5.StackDistCalc

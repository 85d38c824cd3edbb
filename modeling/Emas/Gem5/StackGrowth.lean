/-
**The growth of the tree.**

`updateTree` makes room for the next leaf, whose number is `index`. A layer gets a new node when `index` is the first
number of a block of its height, and a root is put above the old one when `index` is the first number that the old one
does not reach. Layers are gone through from the top, so that the node above a new one is there; `Growing` says which of
them are done.
-/

import Emas.Gem5.StackSums

namespace Emas.Gem5.StackDistCalc

open Blocks

variable {Addr : Type} (state : StackDistCalc Addr) (live : Finset Nat)

/-- A leaf that was added and is not live. -/
def Spent (m : Nat) : Prop := m < state.index ∧ m ∉ live

/-- The live leaves are in the tree, which holds their sums. -/
structure Leaves : Prop where
  summed : state.Summed live (state.Spent live)
  small : ∀ m ∈ live, m < state.index
  leaf : ∀ r ∈ live, ∃ address node, state.At 0 r address node ∧ state.Linked 0 r node

/-- The layers of the tree are those for leaves up to `last`, and its root is no higher than it must be. -/
structure Grown (last : Nat) : Prop extends state.Leaves live where
  counts : ∀ k, k < state.depth → state.nextIndex (k + 1) = last / 2 ^ (k + 1) + 1
  positive : 0 < state.depth
  room : last < 2 ^ state.depth
  tight : state.depth = 1 ∨ 2 ^ (state.depth - 1) ≤ last

/-- The layers above layer `i` have grown for the next leaf. -/
structure Growing (i : Nat) : Prop extends state.Leaves live where
  counts : ∀ k, k < state.depth →
    state.nextIndex (k + 1) = (if i ≤ k then state.index else state.index - 1) / 2 ^ (k + 1) + 1

/-- What stays while the tree grows. -/
structure Framed (state' : StackDistCalc Addr) : Prop where
  index : state'.index = state.index
  aiMap : state'.aiMap = state.aiMap
  leaf : ∀ j address node, state.At 0 j address node → state'.At 0 j address node

variable {state live} {state' state'' : StackDistCalc Addr} {i : Nat}

theorem Framed.refl : state.Framed state := ⟨rfl, rfl, fun _ _ _ here => here⟩

theorem Framed.trans (first : state.Framed state') (second : state'.Framed state'') : state.Framed state'' where
  index := second.index.trans first.index
  aiMap := second.aiMap.trans first.aiMap
  leaf := fun j address node here => second.leaf j address node (first.leaf j address node here)

theorem spent_congr (same : state'.index = state.index) : state'.Spent live = state.Spent live := by
  funext m
  rw [Spent, Spent, same]

/-! ### Where blocks begin -/

theorem pred_div_of_not_dvd {n width : Nat} (inside : ¬ width ∣ n) : (n - 1) / width = n / width := by
  have positive : n ≠ 0 := by
    rintro rfl
    exact inside (Nat.dvd_zero _)
  obtain ⟨m, rfl⟩ := Nat.exists_eq_succ_of_ne_zero positive
  exact (Nat.succ_div_of_not_dvd inside).symm

theorem pred_div_of_dvd {n width : Nat} (positive : n ≠ 0) (first : width ∣ n) : (n - 1) / width + 1 = n / width := by
  obtain ⟨m, rfl⟩ := Nat.exists_eq_succ_of_ne_zero positive
  exact (Nat.succ_div_of_dvd first).symm

theorem not_below {n k j : Nat} (begins : n / 2 ^ (i + 1) * 2 ^ (i + 1) = n) (before : j * 2 ^ k < n) :
    ¬ (k + 1 = i + 1 ∧ j / 2 = n / 2 ^ (i + 1)) := by
  rintro ⟨height, up⟩
  obtain rfl : k = i := Nat.succ.inj height
  rw [← up, pow_succ] at begins
  have half : j / 2 * 2 ≤ j := Nat.div_mul_le_self j 2
  have after : n ≤ j * 2 ^ k := by
    calc n = j / 2 * 2 * 2 ^ k := by rw [← begins]; ring
      _ ≤ j * 2 ^ k := Nat.mul_le_mul_right _ half
  omega

/-! ### A new inner node -/

namespace Growing

variable (growing : state.Growing live (i + 1)) (low : i + 1 < state.depth)

include growing

theorem skip (inside : ¬ 2 ^ (i + 1) ∣ state.index) : state.Growing live i := by
  refine ⟨growing.toLeaves, fun k below => ?_⟩
  rw [growing.counts k below]
  by_cases this : k = i
  · subst this
    rw [if_neg (by omega), if_pos (Nat.le_refl k), pred_div_of_not_dvd inside]
  · have same : i + 1 ≤ k ↔ i ≤ k := by omega
    simp only [same]

include low

theorem above : ∃ up node, state.At (i + 2) (state.index / 2 ^ (i + 2)) up node ∧
    state.tree (i + 2) (state.nextIndex (i + 2) - 1) = some up := by
  have count := growing.counts (i + 1) low
  rw [if_pos (Nat.le_refl _)] at count
  have free : ¬ state.Spent live state.index := fun spent => Nat.lt_irrefl _ spent.1
  obtain ⟨up, node, here, -⟩ :=
    growing.summed.inner (i + 1) (state.index / 2 ^ (i + 2)) low (by rw [count]; exact Nat.lt_succ_self _)
      (.inr (not_covers free))
  exact ⟨up, node, here, by rw [count, Nat.add_sub_cancel, here.1]⟩

omit growing low in
theorem fresh_sums (small : ∀ m ∈ live, m < state.index) (begins : state.index / 2 ^ (i + 1) * 2 ^ (i + 1) = state.index)
    (nodeIndex up : Nat) : (Node.make nodeIndex up).Sums live (state.Spent live) i (state.index / 2 ^ (i + 1)) := by
  have left : 2 * (state.index / 2 ^ (i + 1)) * 2 ^ i = state.index := by
    rw [pow_succ] at begins
    rw [pow_succ]
    calc 2 * (state.index / (2 ^ i * 2)) * 2 ^ i = state.index / (2 ^ i * 2) * (2 ^ i * 2) := by ring
      _ = state.index := begins
  have right : state.index ≤ (2 * (state.index / 2 ^ (i + 1)) + 1) * 2 ^ i := by
    rw [Nat.add_mul, left]
    exact Nat.le_add_right _ _
  refine ⟨?_, ?_, ?_, ?_⟩
  · exact (total_eq_zero fun m member => left.symm ▸ small m member).symm
  · exact (total_eq_zero fun m member => Nat.lt_of_lt_of_le (small m member) right).symm
  · refine (iff_false_left Bool.false_ne_true).mpr ?_
    exact not_covers_first fun spent => Nat.not_lt.mpr (Nat.le_of_eq left.symm) spent.1
  · refine (iff_false_left Bool.false_ne_true).mpr ?_
    exact not_covers_first fun spent => Nat.not_lt.mpr right spent.1

theorem addINode (started : state.index ≠ 0) (begins : 2 ^ (i + 1) ∣ state.index) :
    ∃ state', state.addINode (i + 1) = some state' ∧ state'.Growing live i ∧ state.Framed state' ∧
      state'.depth = state.depth := by
  obtain ⟨up, upper, above, entry⟩ := growing.above low
  have whole := Nat.div_mul_cancel begins
  have count : state.nextIndex (i + 1) = state.index / 2 ^ (i + 1) := by
    rw [growing.counts i (by omega), if_neg (by omega), pred_div_of_dvd started begins]
  rw [StackDistCalc.addINode, entry, Option.map_some, count]
  have placed : state.Placed _ (i + 1) (state.index / 2 ^ (i + 1)) (.make (state.index / 2 ^ (i + 1)) up) :=
    growing.summed.entries.placed_countUp (Nat.le_of_lt low)
  have next : ∀ k, ((state.place (i + 1) (state.index / 2 ^ (i + 1)) (.make (state.index / 2 ^ (i + 1)) up)).countUp
      (i + 1)).nextIndex (k + 1) = if k = i then state.index / 2 ^ (i + 1) + 1 else state.nextIndex (k + 1) := by
    intro k
    show Function.update state.nextIndex (i + 1) (state.nextIndex (i + 1) + 1) (k + 1) = _
    rw [Function.update_apply, count]
    simp only [Nat.add_right_cancel_iff]
  generalize (state.place (i + 1) (state.index / 2 ^ (i + 1)) (.make (state.index / 2 ^ (i + 1)) up)).countUp (i + 1) =
    state' at placed next ⊢
  refine ⟨state', rfl, ⟨⟨⟨placed.entries, fun k j => ?_⟩, ?_, fun r member => ?_⟩, fun k below => ?_⟩,
    ⟨placed.index, placed.aiMap, fun j address leaf => placed.keeps (by omega)⟩, placed.depth⟩
  · rw [spent_congr placed.index]
    intro within inside required
    rw [next] at inside
    rw [placed.depth] at within required
    by_cases this : k = i ∧ j = state.index / 2 ^ (i + 1)
    · obtain ⟨rfl, rfl⟩ := this
      refine ⟨state.next, _, placed.here, ⟨rfl, ?_, rfl⟩, fresh_sums growing.small whole _ up⟩
      rw [placed.tree (by omega), ← div_succ, above.1]
      rfl
    · have inside' : j < state.nextIndex (k + 1) := by
        split at inside
        next same =>
          subst same
          omega
        next => exact inside
      obtain ⟨address, node, here, linked, sums⟩ := growing.summed.inner k j within inside' required
      refine ⟨address, node, placed.keeps (by omega) here, ⟨linked.nodeIndex, ?_, linked.isLeftNode⟩, sums⟩
      refine linked.parent.trans (placed.tree ?_).symm
      rintro ⟨height, isUp⟩
      refine not_below whole ?_ ⟨height, isUp⟩
      rw [growing.counts k within, if_neg (by omega), Nat.lt_succ_iff,
        Nat.le_div_iff_mul_le (Nat.two_pow_pos _)] at inside'
      omega
  · rw [placed.index]
    exact growing.small
  · obtain ⟨address, node, here, linked⟩ := growing.leaf r member
    refine ⟨address, node, placed.keeps (by omega) here, linked.nodeIndex, ?_, linked.isLeftNode⟩
    refine linked.parent.trans (placed.tree (not_below whole ?_)).symm
    rw [pow_zero, Nat.mul_one]
    exact growing.small r member
  · rw [next, placed.index]
    rw [placed.depth] at below
    split
    next this => rw [this, if_pos (Nat.le_refl i)]
    next other =>
      have same : i + 1 ≤ k ↔ i ≤ k := by omega
      rw [growing.counts k below]
      simp only [same]

end Growing

theorem Growing.addINodes (required : Nat → Option Bool) (growing : state.Growing live i) (low : i < state.depth)
    (started : state.index ≠ 0) (needed : ∀ k, k < i → required (k + 1) = some (decide (2 ^ (k + 1) ∣ state.index))) :
    ∃ state', StackDistCalc.addINodes required i state = some state' ∧ state'.Growing live 0 ∧ state.Framed state' ∧
      state'.depth = state.depth := by
  induction i generalizing state with
  | zero => exact ⟨state, rfl, growing, .refl, rfl⟩
  | succ i ih =>
    rw [StackDistCalc.addINodes, needed i (Nat.lt_succ_self i), Option.bind_some]
    by_cases begins : 2 ^ (i + 1) ∣ state.index
    · obtain ⟨next, added, growing', framed, depth⟩ := growing.addINode low started begins
      obtain ⟨state', rest, grown, framed', depth'⟩ := ih growing' (by rw [depth]; omega)
        (by rw [framed.index]; exact started)
        (by rw [framed.index]; exact fun k below => needed k (Nat.lt_succ_of_lt below))
      rw [decide_eq_true begins, if_pos rfl, added, Option.bind_some]
      exact ⟨state', rest, grown, framed.trans framed', depth'.trans depth⟩
    · rw [decide_eq_false begins, if_neg Bool.false_ne_true, Option.bind_some]
      exact ih (growing.skip begins) (Nat.lt_of_succ_lt low) started fun k below => needed k (Nat.lt_succ_of_lt below)

/-! ### A new root -/

theorem Leaves.root_sums (leaves : state.Leaves live) {d : Nat} (full : state.index = 2 ^ (d + 1)) {root : Node}
    (sums : root.Sums live (state.Spent live) d 0) :
    Node.Sums { sumLeft := root.sumRight + root.sumLeft, discardLeft := root.discardLeft && root.discardRight }
      live (state.Spent live) (d + 1) 0 := by
  have free : ¬ state.Spent live (1 * 2 ^ (d + 1)) := by
    rw [Nat.one_mul, ← full]
    exact fun spent => Nat.lt_irrefl _ spent.1
  refine ⟨?_, ?_, ?_, (iff_false_left Bool.false_ne_true).mpr (not_covers_first free)⟩
  · show root.sumRight + root.sumLeft = total live (d + 1) (2 * 0)
    rw [total_succ, sums.sumLeft, sums.sumRight, Nat.add_comm]
  · refine (total_eq_zero fun m member => ?_).symm
    rw [Nat.mul_zero, Nat.zero_add, Nat.one_mul, ← full]
    exact leaves.small m member
  · show (root.discardLeft && root.discardRight) = true ↔ Covers (state.Spent live) (d + 1) (2 * 0)
    rw [covers_succ, Bool.and_eq_true, sums.discardLeft, sums.discardRight]

theorem Grown.addRoot (grown : state.Grown live (state.index - 1)) (full : state.index = 2 ^ state.depth) :
    ∃ state', state.addRoot = some state' ∧ state'.Growing live state.depth ∧ state.Framed state' ∧
      state'.depth = state.depth + 1 := by
  obtain ⟨d, depth⟩ : ∃ d, state.depth = d + 1 := Nat.exists_eq_succ_of_ne_zero (Nat.ne_of_gt grown.positive)
  have count : state.nextIndex (d + 1) = 1 := by
    rw [grown.counts d (by omega), Nat.div_eq_of_lt]
    rw [← depth]
    exact grown.room
  obtain ⟨address, root, here, linked, sums⟩ :=
    grown.summed.inner d 0 (by omega) (by omega) (.inl depth.symm)
  let node : Node := { sumLeft := root.sumRight + root.sumLeft, discardLeft := root.discardLeft && root.discardRight }
  let tall : StackDistCalc Addr :=
    { state with depth := state.depth + 1, nextIndex := Function.update state.nextIndex (state.depth + 1) 1 }
  have entries : tall.Entries :=
    ⟨grown.summed.entries.inj, grown.summed.entries.old, fun high => grown.summed.entries.top (Nat.lt_of_succ_lt high)⟩
  have placed : tall.Placed _ (state.depth + 1) 0 node := entries.placed (Nat.le_refl _)
  have next : ∀ k, (tall.place (state.depth + 1) 0 node).nextIndex (k + 1) =
      if k = state.depth then 1 else state.nextIndex (k + 1) := by
    intro k
    show Function.update state.nextIndex (state.depth + 1) 1 (k + 1) = _
    rw [Function.update_apply]
    simp only [Nat.add_right_cancel_iff]
  have added : state.addRoot =
      some ((tall.place (state.depth + 1) 0 node).set address { root with parent := some state.next }) := by
    rw [StackDistCalc.addRoot, depth, here.1, Option.bind_some, here.2, Option.map_some, ← depth]
    rfl
  generalize tall.place (state.depth + 1) 0 node = grown' at placed next added
  have tree : ∀ {k' j'}, ¬ (k' = state.depth + 1 ∧ j' = 0) → grown'.tree k' j' = state.tree k' j' := placed.tree
  have old : grown'.tree (d + 1) 0 = some address := by rw [tree (by omega), here.1]
  have keeps : ∀ {k' j' address' node'}, ¬ (k' = state.depth + 1 ∧ j' = 0) → ¬ (k' = d + 1 ∧ j' = 0) →
      state.At k' j' address' node' →
      (grown'.set address { root with parent := some state.next }).At k' j' address' node' :=
    fun notNew notOld there => placed.entries.at_set old notOld (placed.keeps notNew there)
  have index : grown'.index = state.index := placed.index
  have spent : (grown'.set address { root with parent := some state.next }).Spent live = state.Spent live :=
    spent_congr index
  refine ⟨_, added, ⟨⟨⟨placed.entries.set, fun k j => ?_⟩, ?_, fun r member => ?_⟩, fun k below => ?_⟩,
    ⟨index, placed.aiMap, fun j address' leaf => keeps (by omega) (by omega)⟩, placed.depth⟩
  · rw [spent]
    intro within inside required
    have within' : k < state.depth + 1 := Nat.lt_of_lt_of_eq within placed.depth
    have inside' : j < if k = state.depth then 1 else state.nextIndex (k + 1) := next k ▸ inside
    have required' : k + 1 = state.depth + 1 ∨ ¬ Covers (state.Spent live) (k + 1) j :=
      required.imp_left fun top => top.trans placed.depth
    by_cases top : k = state.depth
    · rw [if_pos top] at inside'
      obtain rfl : j = 0 := by omega
      subst top
      refine ⟨state.next, node, placed.entries.at_set old (by omega) placed.here, ⟨rfl, ?_, rfl⟩, ?_⟩
      · exact (placed.entries.top (Nat.lt_of_le_of_lt (Nat.le_of_eq placed.depth) (Nat.lt_succ_self _))).symm
      · rw [depth] at full ⊢
        exact grown.toLeaves.root_sums full sums
    · rw [if_neg top] at inside'
      by_cases isOld : k = d
      · subst isOld
        rw [count] at inside'
        obtain rfl : j = 0 := by omega
        refine ⟨address, { root with parent := some state.next }, ⟨old, ?_⟩, ⟨linked.nodeIndex, ?_, linked.isLeftNode⟩,
          ⟨sums.sumLeft, sums.sumRight, sums.discardLeft, sums.discardRight⟩⟩
        · rw [nodes_set, if_pos rfl]
        · have new := placed.here.1
          rw [depth] at new
          exact new.symm
      · obtain ⟨address', inner, there, links, sums⟩ :=
          grown.summed.inner k j (by omega) inside' (.inr (required'.resolve_left (by omega)))
        refine ⟨address', inner, keeps (by omega) (by omega) there, ⟨links.nodeIndex, ?_, links.isLeftNode⟩, sums⟩
        exact links.parent.trans (tree (by omega)).symm
  · show ∀ m ∈ live, m < grown'.index
    rw [index]
    exact grown.small
  · obtain ⟨address', leaf, there, links⟩ := grown.leaf r member
    refine ⟨address', leaf, keeps (by omega) (by omega) there, links.nodeIndex, ?_, links.isLeftNode⟩
    exact links.parent.trans (tree (by omega)).symm
  · show grown'.nextIndex (k + 1) = (if state.depth ≤ k then grown'.index else grown'.index - 1) / 2 ^ (k + 1) + 1
    have below' : k < state.depth + 1 := Nat.lt_of_lt_of_eq below placed.depth
    rw [next, index]
    split
    next top =>
      rw [if_pos (Nat.le_of_eq top.symm), full, Nat.div_eq_of_lt]
      exact Nat.pow_lt_pow_right (by omega) (by omega)
    next => rw [if_neg (by omega), grown.counts k (by omega)]

/-! ### The whole tree -/

theorem Growing.grown (growing : state.Growing live 0) (positive : 0 < state.depth) (room : state.index < 2 ^ state.depth)
    (tight : state.depth = 1 ∨ 2 ^ (state.depth - 1) ≤ state.index) : state.Grown live state.index :=
  ⟨growing.toLeaves, fun k below => by rw [growing.counts k below, if_pos (Nat.zero_le k)], positive, room, tight⟩

theorem Grown.full (grown : state.Grown live (state.index - 1)) (even : state.index % 2 = 0)
    (power : isPowerOf2 state.index = true) : state.index = 2 ^ state.depth := by
  obtain ⟨k, is⟩ := (isPowerOf2_iff _).mp power
  have positive := Nat.two_pow_pos k
  have low : 2 ^ k ≤ 2 ^ state.depth := by
    have room := grown.room
    omega
  have notZero : k ≠ 0 := by
    rintro rfl
    rw [is] at even
    cases even
  have low' : k ≤ state.depth := (Nat.pow_le_pow_iff_right (by omega)).mp low
  rcases grown.tight with one | high
  · rw [is, show k = state.depth by omega]
  · have less : 2 ^ (state.depth - 1) < 2 ^ k := by omega
    have less' : state.depth - 1 < k := (Nat.pow_lt_pow_iff_right (by omega)).mp less
    rw [is, show k = state.depth by omega]

theorem required_eq {index depth k : Nat} (tight : depth = 1 ∨ 2 ^ (depth - 1) ≤ index - 1) (few : index < 2 ^ 31)
    (below : k < depth - 1) : ((shiftOne (k + 1)).map fun width => index % width == 0) =
      some (decide (2 ^ (k + 1) ∣ index)) := by
  have high : 2 ^ (depth - 1) < 2 ^ 31 := by
    have power := tight.resolve_left (by omega)
    omega
  have less : depth - 1 < 31 := (Nat.pow_lt_pow_iff_right (by omega)).mp high
  rw [shiftOne, if_pos (by omega), Option.map_some, Nat.one_shiftLeft, Option.some.injEq, Bool.eq_iff_iff,
    beq_iff_eq, decide_eq_true_iff, Nat.dvd_iff_mod_eq_zero]

/-- **Room for the next leaf.** -/
theorem updateTree_spec (grown : state.Grown live (state.index - 1)) (even : state.index % 2 = 0)
    (few : state.index < 2 ^ 31) :
    ∃ state', state.updateTree = some state' ∧ state'.Grown live state'.index ∧ state.Framed state' := by
  have positive := grown.positive
  rw [updateTree]
  by_cases power : isPowerOf2 state.index = true
  · have full := grown.full even power
    obtain ⟨next, added, growing, framed, depth⟩ := grown.addRoot full
    have started : state.index ≠ 0 := full ▸ (Nat.two_pow_pos _).ne'
    have required : ∀ k, k < state.depth → some true = some (decide (2 ^ (k + 1) ∣ next.index)) := by
      intro k below
      rw [framed.index, full, decide_eq_true (pow_dvd_pow 2 (by omega))]
    obtain ⟨state', rest, growing', framed', depth'⟩ :=
      growing.addINodes (fun _ => some true) (by omega) (by rw [framed.index]; exact started) required
    rw [if_pos power, added, Option.bind_some, depth, Nat.add_sub_cancel]
    refine ⟨state', rest, growing'.grown (by omega) ?_ (.inr ?_), framed.trans framed'⟩
    · rw [framed'.index, framed.index, full, depth', depth]
      exact Nat.pow_lt_pow_right (by omega) (by omega)
    · rw [framed'.index, framed.index, full, depth', depth, Nat.add_sub_cancel]
  · have room := grown.room
    have notFull : state.index ≠ 2 ^ state.depth := fun full => power ((isPowerOf2_iff _).mpr ⟨_, full⟩)
    have room' : state.index < 2 ^ state.depth := by omega
    have growing : state.Growing live (state.depth - 1) := by
      refine ⟨grown.toLeaves, fun k below => ?_⟩
      rw [grown.counts k below]
      split
      next top =>
        rw [show k + 1 = state.depth by omega, Nat.div_eq_of_lt room, Nat.div_eq_of_lt room']
      next => rfl
    rw [if_neg power]
    by_cases started : state.index = 0
    · have single : state.depth = 1 := by
        refine grown.tight.resolve_right fun high => ?_
        have power := Nat.two_pow_pos (state.depth - 1)
        omega
      rw [single] at growing ⊢
      exact ⟨state, rfl, growing.grown positive room' (.inl single), .refl⟩
    · obtain ⟨state', rest, growing', framed, depth⟩ :=
        growing.addINodes (fun i => (shiftOne i).map fun width => state.index % width == 0) (by omega) started
          fun k below => required_eq grown.tight few below
      refine ⟨state', rest, growing'.grown (by omega) (by rw [framed.index, depth]; exact room') ?_, framed⟩
      rw [depth, framed.index]
      exact grown.tight.imp_right fun high => Nat.le_trans high (Nat.sub_le _ 1)

end Emas.Gem5.StackDistCalc

/-
**Tree-based pseudo-LRU.**

`class TreePLRURP` of `mem/cache/replacement_policies/tree_plru_rp.cc`. The inner nodes of a perfect binary tree are the
bits of a vector, numbered level by level, and the entries are its leaves. An entry is touched from its leaf up to the
root, the victim is searched from the root down.

* Where `at` throws for an index outside the vector there is no result; a walk that did not come to an end would have none
  either.
* `num_leaves` is an `int`, so that no index of the tree comes near `2 ^ 53`, below which a `double` is exact.

**`TreePLRURP.works_iff`** — the tree works if and only if there are two leaves at least: with a single one the vector is
empty, and its leaf has no parent in it.
-/

import Emas.Gem5.IntMath
import Emas.Lib.ToggleTree

namespace Emas.Gem5

/-! ### Indices -/

/-- The `double` that an unsigned number is converted to, which is whole: the nearest with 53 bits, the even one if there
are two. -/
def toDouble (n : Nat) : Nat :=
  let unit := 2 ^ (n.log2 - 52)
  let quotient := n / unit
  let rest := n % unit
  (if unit < 2 * rest ∨ (unit = 2 * rest ∧ quotient % 2 = 1) then quotient + 1 else quotient) * unit

def parentIndex (index : Nat) : Nat := toDouble ((index + (2 ^ 64 - 1)) % 2 ^ 64 / 2)

def leftSubtreeIndex (index : Nat) : Nat := 2 * index + 1

def rightSubtreeIndex (index : Nat) : Nat := 2 * index + 2

def isRightSubtree (index : Nat) : Bool := index % 2 == 0

theorem toDouble_eq {n : Nat} (exact' : n < 2 ^ 53) : toDouble n = n := by
  have unit : n.log2 - 52 = 0 := by
    by_cases zero : n = 0
    · rw [zero]
      rfl
    · have := (Nat.log2_lt zero).mpr exact'
      omega
  simp [toDouble, unit, Nat.mod_one]

theorem parentIndex_eq {index : Nat} (below : index < 2 ^ 53) : parentIndex (index + 1) = index / 2 := by
  have sum : (index + 1 + (2 ^ 64 - 1)) % 2 ^ 64 = index := by omega
  rw [parentIndex, sum, toDouble_eq (by omega)]

/-! ### The policy -/

/-- `class TreePLRURP`, whose leaves the constructor accepts. -/
structure TreePLRURP where
  numLeaves : Nat
  power : isPowerOf2 numLeaves = true
  bound : numLeaves < 2 ^ 31

/-- `struct TreePLRUReplData`: the index of its leaf. The tree is that of its set. -/
structure TreePLRUReplData where
  index : Nat
  deriving DecidableEq

namespace TreePLRURP

variable (policy : TreePLRURP)

/-- `PLRUTree`. -/
structure PLRUTree where
  nodes : List Bool
  size_eq : nodes.length = policy.numLeaves - 1
  deriving DecidableEq

/-- The replacement data that `instantiateEntry( )` creates when so many share the tree already. -/
def instantiateEntry (count : Nat) : TreePLRUReplData := ⟨count % policy.numLeaves + policy.numLeaves - 1⟩

def candidates : List TreePLRUReplData := (List.range policy.numLeaves).map policy.instantiateEntry

variable {policy}

/-- `tree->at(index) = value`. -/
def PLRUTree.set (tree : policy.PLRUTree) (index : Nat) (value : Bool) : Option policy.PLRUTree :=
  if index < tree.nodes.length then some ⟨tree.nodes.set index value, by rw [List.length_set, tree.size_eq]⟩ else none

/-- The loop of `invalidate` and `touch` from an index to the root: `value` gives what a parent node becomes where the
walk comes from its right subtree, or not. -/
def climb (value : Bool → Bool) : Nat → policy.PLRUTree → Nat → Option policy.PLRUTree
  | 0, _, _ => none
  | steps + 1, tree, treeIndex =>
    let right := isRightSubtree treeIndex
    let treeIndex := parentIndex treeIndex
    (tree.set treeIndex (value right)).bind fun tree =>
      if treeIndex ≠ 0 then climb value steps tree treeIndex else some tree

def invalidate (tree : policy.PLRUTree) (data : TreePLRUReplData) : Option policy.PLRUTree :=
  climb (fun right => right) (data.index + 1) tree data.index

def touch (tree : policy.PLRUTree) (data : TreePLRUReplData) : Option policy.PLRUTree :=
  climb (fun right => !right) (data.index + 1) tree data.index

/-- The loop of `getVictim` from an index to a leaf. -/
def descend (tree : policy.PLRUTree) : Nat → Nat → Option Nat
  | 0, _ => none
  | steps + 1, treeIndex =>
    if treeIndex < tree.nodes.length then
      tree.nodes[treeIndex]?.bind fun right =>
        descend tree steps (if right then rightSubtreeIndex treeIndex else leftSubtreeIndex treeIndex)
    else some treeIndex

def getVictim (tree : policy.PLRUTree) (candidates : List TreePLRUReplData) : Option TreePLRUReplData :=
  if candidates.isEmpty then none
  else (descend tree (tree.nodes.length + 1) 0).bind fun treeIndex => candidates[treeIndex - (policy.numLeaves - 1)]?

def rounds : Nat → policy.PLRUTree → Option (List TreePLRUReplData × policy.PLRUTree)
  | 0, tree => some ([], tree)
  | count + 1, tree =>
    (getVictim tree policy.candidates).bind fun victim => (touch tree victim).bind fun touched =>
      (rounds count touched).map fun (victims, final) => (victim :: victims, final)

/-! ### Paths -/

/-- The index of the node at the end of a path from the root. -/
def indexOf (path : List Bool) : Nat :=
  path.foldl (fun index right => if right then rightSubtreeIndex index else leftSubtreeIndex index) 0

theorem indexOf_concat (path : List Bool) (right : Bool) :
    indexOf (path ++ [right]) = if right then rightSubtreeIndex (indexOf path) else leftSubtreeIndex (indexOf path) := by
  rw [indexOf, List.foldl_append]
  rfl

theorem indexOf_concat_eq (path : List Bool) (right : Bool) :
    indexOf (path ++ [right]) = 2 * indexOf path + right.toNat + 1 := by
  rw [indexOf_concat]
  cases right <;> rfl

theorem indexOf_bounds (path : List Bool) :
    2 ^ path.length ≤ indexOf path + 1 ∧ indexOf path + 1 < 2 ^ (path.length + 1) := by
  induction path using List.reverseRecOn with
  | nil => exact ⟨Nat.le_refl _, by decide⟩
  | append_singleton path right ih =>
    rw [indexOf_concat_eq, List.length_append, List.length_singleton]
    have bit := Bool.toNat_lt right
    obtain ⟨low, high⟩ := ih
    constructor
    · rw [Nat.pow_succ]
      omega
    · rw [Nat.pow_succ]
      omega

theorem indexOf_injective : Function.Injective indexOf := by
  intro path
  induction path using List.reverseRecOn with
  | nil =>
    intro other same
    rcases List.eq_nil_or_concat other with rfl | ⟨front, right, rfl⟩
    · rfl
    · rw [List.concat_eq_append, indexOf_concat_eq] at same
      exact absurd same (Nat.succ_ne_zero _).symm
  | append_singleton path right ih =>
    intro other same
    rcases List.eq_nil_or_concat other with rfl | ⟨front, right', rfl⟩
    · rw [indexOf_concat_eq] at same
      exact absurd same (Nat.succ_ne_zero _)
    · rw [List.concat_eq_append, indexOf_concat_eq, indexOf_concat_eq] at same
      have bit := Bool.toNat_lt right
      have bit' := Bool.toNat_lt right'
      have fronts : indexOf path = indexOf front := by omega
      have rights : right = right' := by
        rw [fronts] at same
        cases right <;> cases right' <;> first | rfl | (simp only [Bool.toNat_false, Bool.toNat_true] at same; omega)
      rw [ih fronts, rights, List.concat_eq_append]

theorem indexOf_eq_zero_iff {path : List Bool} : indexOf path = 0 ↔ path = [] :=
  indexOf_injective.eq_iff' rfl

theorem exists_path (levels i : Nat) (inside : i < 2 ^ levels) :
    ∃ path : List Bool, path.length = levels ∧ indexOf path + 1 = 2 ^ levels + i := by
  induction levels generalizing i with
  | zero => exact ⟨[], rfl, by rw [Nat.lt_one_iff.mp inside]; rfl⟩
  | succ levels ih =>
    rw [Nat.pow_succ] at inside
    obtain ⟨path, length, index⟩ := ih (i / 2) (by omega)
    refine ⟨path ++ [decide (i % 2 = 1)], by rw [List.length_append, length, List.length_singleton], ?_⟩
    have bit : (decide (i % 2 = 1)).toNat = i % 2 := by
      rcases Nat.mod_two_eq_zero_or_one i with even | odd
      · rw [even]
        rfl
      · rw [odd]
        rfl
    rw [indexOf_concat_eq, Nat.pow_succ, bit]
    omega

variable (policy) in
/-- The levels of inner nodes. -/
def levels : Nat := policy.numLeaves.log2

theorem numLeaves_eq : policy.numLeaves = 2 ^ policy.levels := by
  obtain ⟨levels, power⟩ := (isPowerOf2_iff _).mp policy.power
  rw [TreePLRURP.levels, power, Nat.log2_two_pow]

section Walks

variable (tree : policy.PLRUTree) {path : List Bool}

def PLRUTree.pointers : ToggleTree := fun path => tree.nodes.getD (indexOf path) false

theorem inside_iff (within : path.length ≤ policy.levels) :
    indexOf path < tree.nodes.length ↔ path.length < policy.levels := by
  have size := tree.size_eq
  rw [numLeaves_eq] at size
  obtain ⟨low, high⟩ := indexOf_bounds path
  constructor
  · intro inside
    refine Nat.lt_of_le_of_ne within fun leaf => ?_
    rw [leaf] at low
    omega
  · intro inner
    have power : 2 ^ (path.length + 1) ≤ 2 ^ policy.levels := Nat.pow_le_pow_right (by decide) inner
    omega

theorem indexOf_lt (within : path.length ≤ policy.levels) : indexOf path < 2 ^ 53 := by
  have high := (indexOf_bounds path).2
  have power : 2 ^ (path.length + 1) ≤ 2 ^ (policy.levels + 1) := Nat.pow_le_pow_right (by decide) (Nat.succ_le_succ within)
  have bound := policy.bound
  rw [numLeaves_eq] at bound
  rw [Nat.pow_succ 2 policy.levels] at power
  omega

theorem set_pointers (value : Bool) (inner : path.length < policy.levels) :
    ∃ next, tree.set (indexOf path) value = some next ∧ next.pointers = Function.update tree.pointers path value := by
  have inside := (inside_iff tree (Nat.le_of_lt inner)).mpr inner
  refine ⟨_, if_pos inside, funext fun other => ?_⟩
  by_cases same : other = path
  · rw [same, Function.update_self]
    show (tree.nodes.set (indexOf path) value).getD (indexOf path) false = value
    rw [List.getD_eq_getElem?_getD, List.getElem?_set_self inside, Option.getD_some]
  · rw [Function.update_of_ne same]
    show (tree.nodes.set (indexOf path) value).getD (indexOf other) false = tree.nodes.getD (indexOf other) false
    have apart : indexOf path ≠ indexOf other := fun equal => same (indexOf_injective equal).symm
    rw [List.getD_eq_getElem?_getD, List.getElem?_set_ne apart, ← List.getD_eq_getElem?_getD]

/-- **The walk to the root** sets the pointers on the way. -/
theorem climb_pointers (value : Bool → Bool) {steps : Nat} (nonempty : path ≠ [])
    (within : path.length ≤ policy.levels) (enough : indexOf path < steps) :
    ∃ next, climb value steps tree (indexOf path) = some next ∧ next.pointers = ToggleTree.steer value path tree.pointers := by
  induction path using List.reverseRecOn generalizing steps tree with
  | nil => exact absurd rfl nonempty
  | append_singleton path right ih =>
    have small := indexOf_lt within
    have length : (path ++ [right]).length = path.length + 1 := by simp
    rw [length] at within
    rw [indexOf_concat_eq] at small enough
    have bit := Bool.toNat_lt right
    have parent : parentIndex (2 * indexOf path + right.toNat + 1) = indexOf path := by
      rw [parentIndex_eq (by omega)]
      omega
    have side : isRightSubtree (2 * indexOf path + right.toNat + 1) = right := by
      cases right with
      | false => exact beq_eq_false_iff_ne.mpr (by rw [Bool.toNat_false]; omega)
      | true => exact beq_iff_eq.mpr (by rw [Bool.toNat_true]; omega)
    obtain ⟨steps, rfl⟩ := Nat.exists_eq_succ_of_ne_zero (Nat.ne_of_gt (Nat.zero_lt_of_lt enough))
    obtain ⟨next, set, pointers⟩ := set_pointers tree (value right) within
    rw [indexOf_concat_eq, climb, parent, side, set, Option.bind_some, ToggleTree.steer_concat, ← pointers]
    by_cases root : path = []
    · rw [if_neg (not_not.mpr (indexOf_eq_zero_iff.mpr root)), root]
      exact ⟨next, rfl, rfl⟩
    · rw [if_pos fun zero => root (indexOf_eq_zero_iff.mp zero)]
      exact ih next root (Nat.le_of_succ_le within) (by omega)

/-- **The walk from the root** follows the pointers. -/
theorem descend_eq {left steps : Nat} (length : path.length + left = policy.levels) (enough : left < steps) :
    descend tree steps (indexOf path) = some (indexOf (path ++
      ToggleTree.victim left fun below => tree.pointers (path ++ below))) := by
  induction left generalizing path steps with
  | zero =>
    have within : path.length ≤ policy.levels := length ▸ Nat.le_add_right ..
    obtain ⟨steps, rfl⟩ := Nat.exists_eq_succ_of_ne_zero (Nat.ne_of_gt enough)
    have leaf : ¬ indexOf path < tree.nodes.length := by
      rw [inside_iff tree within, length.symm, Nat.add_zero]
      exact Nat.lt_irrefl _
    rw [descend, if_neg leaf, ToggleTree.victim, List.append_nil]
  | succ left ih =>
    have within : path.length ≤ policy.levels := length ▸ Nat.le_add_right ..
    obtain ⟨steps, rfl⟩ := Nat.exists_eq_succ_of_ne_zero (Nat.ne_of_gt (Nat.zero_lt_of_lt enough))
    have inside : indexOf path < tree.nodes.length := (inside_iff tree within).mpr (by omega)
    have held : tree.nodes[indexOf path]? = some (tree.pointers path) := by
      rw [PLRUTree.pointers, List.getD_eq_getElem?_getD, List.getElem?_eq_getElem inside, Option.getD_some]
    have longer : (path ++ [tree.pointers path]).length + left = policy.levels := by
      rw [List.length_append, List.length_singleton, ← length]
      omega
    have below := ih longer (Nat.lt_of_succ_lt_succ enough)
    rw [descend, if_pos inside, held, Option.bind_some, ← indexOf_concat, below, ToggleTree.victim]
    simp only [List.append_nil, List.append_assoc, List.singleton_append]
    rfl

theorem descend_root : descend tree (tree.nodes.length + 1) 0 =
    some (indexOf (ToggleTree.victim policy.levels tree.pointers)) := by
  have power : policy.levels < 2 ^ policy.levels := Nat.lt_two_pow_self
  have fuel : tree.nodes.length + 1 = 2 ^ policy.levels := by
    rw [tree.size_eq, numLeaves_eq]
    exact Nat.sub_add_cancel (Nat.two_pow_pos _)
  exact @descend_eq policy tree [] policy.levels _ (Nat.zero_add _) (fuel ▸ power)

end Walks

/-! ### Entries -/

/-- The entry of the leaf at the end of a path. -/
def entry (path : List Bool) : TreePLRUReplData := ⟨indexOf path⟩

theorem entry_injective : Function.Injective entry := fun _ _ same => indexOf_injective (congrArg TreePLRUReplData.index same)

theorem instantiateEntry_eq {i : Nat} (inside : i < policy.numLeaves) :
    ∃ path : List Bool, path.length = policy.levels ∧ policy.instantiateEntry i = entry path := by
  obtain ⟨path, length, index⟩ := exists_path policy.levels i (numLeaves_eq ▸ inside)
  refine ⟨path, length, congrArg TreePLRUReplData.mk ?_⟩
  rw [Nat.mod_eq_of_lt inside, numLeaves_eq]
  omega

theorem entry_eq {path : List Bool} (leaf : path.length = policy.levels) :
    ∃ i < policy.numLeaves, indexOf path - (policy.numLeaves - 1) = i ∧ policy.instantiateEntry i = entry path := by
  obtain ⟨low, high⟩ := indexOf_bounds path
  rw [leaf, Nat.pow_succ, ← numLeaves_eq] at high
  rw [leaf, ← numLeaves_eq] at low
  have inside : indexOf path - (policy.numLeaves - 1) < policy.numLeaves := by omega
  refine ⟨_, inside, rfl, congrArg TreePLRUReplData.mk ?_⟩
  rw [Nat.mod_eq_of_lt inside]
  omega

theorem getVictim_eq (tree : policy.PLRUTree) :
    getVictim tree policy.candidates = some (entry (ToggleTree.victim policy.levels tree.pointers)) := by
  obtain ⟨i, inside, place, same⟩ := entry_eq (ToggleTree.victim_length policy.levels tree.pointers)
  have nonempty : policy.candidates.isEmpty = false := by
    rw [candidates, List.isEmpty_eq_false_iff]
    simp only [ne_eq, List.map_eq_nil_iff, List.range_eq_nil]
    omega
  rw [getVictim, nonempty, if_neg Bool.false_ne_true, descend_root, Option.bind_some, place, candidates,
    List.getElem?_map, List.getElem?_range inside, Option.map_some, same]

theorem leaves_perm : ((ToggleTree.leaves policy.levels).map entry).Perm policy.candidates := by
  have nodup : policy.candidates.Nodup := by
    refine List.Nodup.map_on (fun i inside j inside' same => ?_) List.nodup_range
    rw [List.mem_range] at inside inside'
    have indices := congrArg TreePLRUReplData.index same
    simp only [instantiateEntry, Nat.mod_eq_of_lt inside, Nat.mod_eq_of_lt inside'] at indices
    omega
  rw [List.perm_ext_iff_of_nodup ((ToggleTree.leaves_nodup _).map entry_injective) nodup]
  intro data
  rw [List.mem_map, candidates, List.mem_map]
  constructor
  · rintro ⟨path, leaf, rfl⟩
    obtain ⟨i, inside, -, same⟩ := entry_eq (ToggleTree.mem_leaves_iff.mp leaf)
    exact ⟨i, List.mem_range.mpr inside, same⟩
  · rintro ⟨i, inside, rfl⟩
    obtain ⟨path, length, same⟩ := instantiateEntry_eq (List.mem_range.mp inside)
    exact ⟨path, ToggleTree.mem_leaves_iff.mpr length, same.symm⟩

/-! ### What the tree is for -/

/-- **The tree works**: every walk comes to an end inside it, an entry that is invalidated is the next victim, one that is
touched is not if there is another, and touching the victim again and again takes every entry once. -/
structure Works (tree : policy.PLRUTree) : Prop where
  victim : ∃ data ∈ policy.candidates, getVictim tree policy.candidates = some data
  invalidated : ∀ data ∈ policy.candidates, ∃ next, invalidate tree data = some next ∧
    getVictim next policy.candidates = some data
  touched : ∀ data ∈ policy.candidates, ∃ next other, touch tree data = some next ∧
    getVictim next policy.candidates = some other ∧ (2 ≤ policy.numLeaves → other ≠ data)
  rounds : ∃ victims final, rounds policy.numLeaves tree = some (victims, final) ∧ victims.Perm policy.candidates

section Inner

variable (inner : 0 < policy.levels) (tree : policy.PLRUTree) {path : List Bool} (leaf : path.length = policy.levels)

include inner leaf in
theorem climb_leaf (value : Bool → Bool) : ∃ next, climb value (indexOf path + 1) tree (indexOf path) = some next ∧
    next.pointers = ToggleTree.steer value path tree.pointers :=
  climb_pointers tree value (List.ne_nil_of_length_pos (leaf ▸ inner)) leaf.le (Nat.lt_succ_self _)

include inner in
theorem rounds_eq (count : Nat) : ∃ final, rounds count tree =
    some ((ToggleTree.rounds policy.levels count tree.pointers).map entry, final) := by
  induction count generalizing tree with
  | zero => exact ⟨tree, rfl⟩
  | succ count ih =>
    obtain ⟨next, touched, pointers⟩ :=
      climb_leaf inner tree (ToggleTree.victim_length policy.levels tree.pointers) not
    obtain ⟨final, rest⟩ := ih next
    refine ⟨final, ?_⟩
    rw [rounds, getVictim_eq, Option.bind_some, touch, entry]
    dsimp only
    rw [touched, Option.bind_some, rest, pointers]
    rfl

include inner in
theorem works_of_inner : Works tree where
  victim := by
    obtain ⟨i, inside, -, same⟩ := entry_eq (ToggleTree.victim_length policy.levels tree.pointers)
    exact ⟨_, List.mem_map.mpr ⟨i, List.mem_range.mpr inside, same⟩, getVictim_eq tree⟩
  invalidated data member := by
    obtain ⟨i, inside, rfl⟩ := List.mem_map.mp member
    obtain ⟨path, leaf, same⟩ := instantiateEntry_eq (List.mem_range.mp inside)
    obtain ⟨next, climbed, pointers⟩ := climb_leaf inner tree leaf id
    refine ⟨next, by rw [same]; exact climbed, ?_⟩
    rw [getVictim_eq, pointers, same, ← leaf, ToggleTree.victim_toward]
  touched data member := by
    obtain ⟨i, inside, rfl⟩ := List.mem_map.mp member
    obtain ⟨path, leaf, same⟩ := instantiateEntry_eq (List.mem_range.mp inside)
    obtain ⟨next, climbed, pointers⟩ := climb_leaf inner tree leaf not
    refine ⟨next, _, by rw [same]; exact climbed, getVictim_eq next, fun _ equal => ?_⟩
    rw [same, pointers, ← leaf] at equal
    exact ToggleTree.victim_away_ne (List.ne_nil_of_length_pos (leaf ▸ inner)) _ (entry_injective equal)
  rounds := by
    obtain ⟨final, rounds⟩ := rounds_eq inner tree policy.numLeaves
    refine ⟨_, final, rounds, ?_⟩
    rw [numLeaves_eq]
    exact ((ToggleTree.rounds_perm policy.levels tree.pointers).map entry).trans leaves_perm

end Inner

/-- **When the tree works**: if and only if it has two leaves at least. -/
theorem works_iff (policy : TreePLRURP) (tree : policy.PLRUTree) : Works tree ↔ 2 ≤ policy.numLeaves := by
  have power := @numLeaves_eq policy
  constructor
  · intro works
    by_contra few
    have none : policy.levels = 0 := by
      by_contra some
      have := Nat.pow_le_pow_right (show 0 < 2 by decide) (Nat.one_le_iff_ne_zero.mpr some)
      omega
    rw [none, Nat.pow_zero] at power
    have only : (⟨0⟩ : TreePLRUReplData) ∈ policy.candidates := by
      rw [candidates, power]
      exact List.mem_singleton.mpr (by rw [instantiateEntry, power])
    obtain ⟨next, done, -⟩ := works.invalidated _ only
    have size := tree.size_eq
    have nowhere : ¬ parentIndex 0 < tree.nodes.length := by
      rw [size, power]
      exact Nat.not_lt_zero _
    rw [invalidate, climb, PLRUTree.set, if_neg nowhere] at done
    cases done
  · intro two
    refine works_of_inner (Nat.pos_of_ne_zero fun none => ?_) tree
    rw [none, Nat.pow_zero] at power
    omega

/-- A single leaf, which the constructor accepts: touching it reads the tree behind its end. -/
theorem single_leaf_fails :
    let policy : TreePLRURP := ⟨1, by decide, by decide⟩
    ¬ ∀ tree : policy.PLRUTree, Works tree := by
  intro policy all
  exact absurd ((works_iff policy ⟨[], rfl⟩).mp (all _)) (by decide)

end TreePLRURP

end Emas.Gem5

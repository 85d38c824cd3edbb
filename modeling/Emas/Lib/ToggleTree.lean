/-
**Trees of pointers.**

Every inner node of a perfect binary tree points to one of its subtrees. A node is the path of branches that leads to it,
and the tree is what its nodes point to. `victim` follows the pointers from the root, `steer` sets the pointers on the way
to a leaf.
-/

import Mathlib.Data.List.Nodup
import Mathlib.Data.List.Perm.Basic
import Mathlib.Data.List.Induction
import Mathlib.Order.Lattice
import Mathlib.Algebra.Group.Nat.Defs

namespace Emas

/-- What the node at the end of each path points to. -/
abbrev ToggleTree : Type := List Bool → Bool

namespace ToggleTree

def behind (tree : ToggleTree) (branch : Bool) : ToggleTree := fun path => tree (branch :: path)

/-- The leaf that the pointers lead to, so many levels down. -/
def victim : Nat → ToggleTree → List Bool
  | 0, _ => []
  | levels + 1, tree => tree [] :: victim levels (tree.behind (tree []))

/-- The pointers on the way to a leaf are set, each as the branch there says. -/
def steer (value : Bool → Bool) : List Bool → ToggleTree → ToggleTree
  | [], tree => tree
  | branch :: rest, tree => fun
    | [] => value branch
    | other :: path => if other = branch then steer value rest (tree.behind branch) path else tree (other :: path)

/-- The leaves of a tree. -/
def leaves : Nat → List (List Bool)
  | 0 => [[]]
  | levels + 1 => (leaves levels).map (false :: ·) ++ (leaves levels).map (true :: ·)

/-- A round: the pointers are set away from the leaf that they lead to. -/
def turn (levels : Nat) (tree : ToggleTree) : ToggleTree := steer not (victim levels tree) tree

/-- The leaves found in so many rounds. -/
def rounds (levels : Nat) : Nat → ToggleTree → List (List Bool)
  | 0, _ => []
  | count + 1, tree => victim levels tree :: rounds levels count (turn levels tree)

variable {levels count : Nat} {tree : ToggleTree} {value : Bool → Bool} {path rest : List Bool} {branch : Bool}

@[simp] theorem steer_root : steer value (branch :: rest) tree [] = value branch := rfl

@[simp] theorem steer_behind : (steer value (branch :: rest) tree).behind branch = steer value rest (tree.behind branch) :=
  funext fun _ => if_pos rfl

@[simp] theorem steer_behind_not : (steer value (branch :: rest) tree).behind (!branch) = tree.behind (!branch) :=
  funext fun _ => if_neg (by cases branch <;> decide)

theorem victim_length (levels : Nat) (tree : ToggleTree) : (victim levels tree).length = levels := by
  induction levels generalizing tree with
  | zero => rfl
  | succ levels ih => rw [victim, List.length_cons, ih]

theorem mem_leaves_iff : path ∈ leaves levels ↔ path.length = levels := by
  induction levels generalizing path with
  | zero => rw [leaves, List.mem_singleton, List.length_eq_zero_iff]
  | succ levels ih =>
    simp only [leaves, List.mem_append, List.mem_map, ih]
    constructor
    · rintro (⟨rest, length, rfl⟩ | ⟨rest, length, rfl⟩) <;> rw [List.length_cons, length]
    · intro length
      obtain ⟨branch, rest, rfl⟩ := List.exists_cons_of_length_eq_add_one length
      have shorter := Nat.succ.inj length
      cases branch with
      | false => exact .inl ⟨rest, shorter, rfl⟩
      | true => exact .inr ⟨rest, shorter, rfl⟩

theorem leaves_nodup (levels : Nat) : (leaves levels).Nodup := by
  induction levels with
  | zero => exact List.nodup_singleton _
  | succ levels ih =>
    have below (branch : Bool) : ((leaves levels).map (branch :: ·)).Nodup :=
      ih.map fun _ _ same => (List.cons.inj same).2
    refine (below false).append (below true) fun path left right => ?_
    obtain ⟨_, -, rfl⟩ := List.mem_map.mp left
    obtain ⟨_, -, same⟩ := List.mem_map.mp right
    cases same

theorem steer_concat : steer value (path ++ [branch]) tree = steer value path (Function.update tree path (value branch)) := by
  induction path generalizing tree with
  | nil =>
    funext node
    cases node with
    | nil => rfl
    | cons other node =>
      rw [steer, Function.update_of_ne (List.cons_ne_nil _ _)]
      show (if other = branch then tree (branch :: node) else tree (other :: node)) = tree (other :: node)
      split
      · next same => rw [same]
      · rfl
  | cons first path ih =>
    funext node
    cases node with
    | nil => rfl
    | cons other node =>
      show (if other = first then steer value (path ++ [branch]) (tree.behind first) node else tree (other :: node)) =
        if other = first then steer value path (behind (Function.update tree (first :: path) (value branch)) first) node
        else Function.update tree (first :: path) (value branch) (other :: node)
      have under : behind (Function.update tree (first :: path) (value branch)) first =
          Function.update (tree.behind first) path (value branch) := by
        funext below
        by_cases here : below = path
        · rw [behind, here, Function.update_self, Function.update_self]
        · have apart : first :: below ≠ first :: path := fun same => here (List.cons.inj same).2
          rw [behind, Function.update_of_ne apart, Function.update_of_ne here]
          rfl
      split
      · rw [ih, under]
      · next other_branch =>
        rw [Function.update_of_ne fun same => other_branch (List.cons.inj same).1]

/-- **Pointers toward a leaf lead to it.** -/
theorem victim_toward (path : List Bool) (tree : ToggleTree) : victim path.length (steer id path tree) = path := by
  induction path generalizing tree with
  | nil => rfl
  | cons branch rest ih =>
    rw [List.length_cons, victim, steer_root, id, steer_behind, ih]

/-- **Pointers away from a leaf lead elsewhere.** -/
theorem victim_away_ne (nonempty : path ≠ []) (tree : ToggleTree) : victim path.length (steer not path tree) ≠ path := by
  obtain ⟨branch, rest, rfl⟩ := List.exists_cons_of_ne_nil nonempty
  rw [List.length_cons, victim, steer_root]
  intro same
  exact absurd (List.cons.inj same).1 (by cases branch <;> decide)

/-! ### Rounds -/

theorem turn_root : turn (levels + 1) tree [] = !tree [] := rfl

theorem turn_behind : (turn (levels + 1) tree).behind (tree []) = turn levels (tree.behind (tree [])) := steer_behind

theorem turn_behind_not : (turn (levels + 1) tree).behind (!tree []) = tree.behind (!tree []) := steer_behind_not

theorem turn_turn_behind (branch : Bool) :
    (turn (levels + 1) (turn (levels + 1) tree)).behind branch = turn levels (tree.behind branch) := by
  have root : turn (levels + 1) tree [] = !tree [] := rfl
  by_cases first : branch = tree []
  · -- the second round leaves the subtree of the first one alone
    have untouched := @turn_behind_not levels (turn (levels + 1) tree)
    rw [root, Bool.not_not] at untouched
    rw [first, untouched, turn_behind]
  · have second : branch = !tree [] := Bool.eq_not_of_ne first
    have turned := @turn_behind levels (turn (levels + 1) tree)
    rw [root] at turned
    rw [second, turned, turn_behind_not]

theorem rounds_two (count : Nat) : rounds (levels + 1) (count + 2) tree =
    (tree [] :: victim levels (tree.behind (tree []))) :: ((!tree []) :: victim levels (tree.behind (!tree []))) ::
      rounds (levels + 1) count (turn (levels + 1) (turn (levels + 1) tree)) := by
  rw [rounds, rounds, victim, victim, turn_root, turn_behind_not]

theorem rounds_succ_perm (levels count : Nat) (tree : ToggleTree) :
    (rounds (levels + 1) (2 * count) tree).Perm
      ((rounds levels count (tree.behind false)).map (false :: ·) ++
        (rounds levels count (tree.behind true)).map (true :: ·)) := by
  induction count generalizing tree with
  | zero => exact .refl _
  | succ count ih =>
    have rest := ih (turn (levels + 1) (turn (levels + 1) tree))
    rw [turn_turn_behind, turn_turn_behind] at rest
    rw [Nat.mul_succ, rounds_two, rounds, rounds, List.map_cons, List.map_cons, List.cons_append]
    cases tree [] with
    | false => exact ((rest.cons _).trans List.perm_middle.symm).cons _
    | true => exact ((rest.cons _).cons _).trans ((List.Perm.swap ..).trans (List.perm_middle.symm.cons _))

/-- **Every leaf is found once.** -/
theorem rounds_perm (levels : Nat) (tree : ToggleTree) : (rounds levels (2 ^ levels) tree).Perm (leaves levels) := by
  induction levels generalizing tree with
  | zero => exact .refl _
  | succ levels ih =>
    rw [Nat.pow_succ']
    refine (rounds_succ_perm levels (2 ^ levels) tree).trans ?_
    exact ((ih _).map _).append ((ih _).map _)

end ToggleTree

end Emas

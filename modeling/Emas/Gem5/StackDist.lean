/-
**The stack distance calculator.**

`class StackDistCalc` of `mem/stack_dist_calc.cc`, without verification: every insertion takes the next leaf of a binary
tree, and an inner node holds how many leaves of its two halves stand for an address.

* Memory is a map from addresses to nodes, and `new` takes the next address. `tree[k]` maps the indices of layer `k` to
  addresses of nodes; `depth` is the index of the layer of the root. Reading through a pointer that is null or
  dangling, or linking to a node that its layer does not have, leaves a function without a result (`none`).
* The recursion to the root runs on fuel, the number of layers above the leaves. Without fuel there is no result either.
* `1 << i` is an `int`, which has a value for the first 31 shifts.
-/

import Emas.Gem5.IntMath

namespace Emas.Gem5

/-- `struct Node`. -/
structure StackDistCalc.Node where
  sumLeft : Nat := 0
  sumRight : Nat := 0
  discardLeft : Bool := false
  discardRight : Bool := false
  nodeIndex : Nat := 0
  parent : Option Nat := none
  isLeftNode : Bool := true
  isMarked : Bool := false

/-- A new node below another one. -/
def StackDistCalc.Node.make (nodeIndex up : Nat) : Node where
  nodeIndex := nodeIndex
  parent := some up
  isLeftNode := nodeIndex % 2 == 0

/-- What `updateSum` writes to a node. -/
def StackDistCalc.Node.receive (node : Node) (fromLeft : Bool) (sumFromBelow : Nat) (discardNode : Bool) : Node :=
  let summed :=
    if fromLeft then { node with sumLeft := sumFromBelow } else { node with sumRight := sumFromBelow }
  if discardNode && sumFromBelow == 0 then
    if fromLeft then { summed with discardLeft := true } else { summed with discardRight := true }
  else summed

/-- `class StackDistCalc`. -/
structure StackDistCalc (Addr : Type) where
  index : Nat
  depth : Nat
  tree : Nat → Nat → Option Nat
  aiMap : Addr → Option Nat
  nextIndex : Nat → Nat
  nodes : Nat → Option StackDistCalc.Node
  next : Nat

/-- `1 << i`. -/
def shiftOne (i : Nat) : Option Nat := if i < 31 then some (1 <<< i) else none

namespace StackDistCalc

def infinity : Nat := 2 ^ 64 - 1

variable {Addr : Type}

/-- `StackDistCalc( )`. -/
def create : StackDistCalc Addr where
  index := 0
  depth := 1
  tree := fun layer key => if layer = 1 ∧ key = 0 then some 0 else none
  aiMap := fun _ => none
  nextIndex := fun layer => if layer = 1 then 1 else 0
  nodes := fun address => if address = 0 then some {} else none
  next := 1

variable (state : StackDistCalc Addr)

/-- A node that exists is changed. -/
def set (address : Nat) (node : Node) : StackDistCalc Addr :=
  { state with nodes := Function.update state.nodes address (some node) }

def setEntry (layer key : Nat) (entry : Option Nat) : StackDistCalc Addr :=
  { state with tree := Function.update state.tree layer (Function.update (state.tree layer) key entry) }

/-- `new`, and the entry of the node. -/
def place (layer key : Nat) (node : Node) : StackDistCalc Addr :=
  { state.setEntry layer key (some state.next) with
    nodes := Function.update state.nodes state.next (some node), next := state.next + 1 }

/-- `delete`, and the entry is erased. -/
def discard (layer key address : Nat) : StackDistCalc Addr :=
  { state.setEntry layer key none with nodes := Function.update state.nodes address none }

/-- `++nextIndex[layer]`. -/
def countUp (layer : Nat) : StackDistCalc Addr :=
  { state with nextIndex := Function.update state.nextIndex layer (state.nextIndex layer + 1) }

/-! ### Sums -/

def updateSum : Nat → StackDistCalc Addr → Option Nat → Bool → Nat → Nat → Nat → Bool →
    Option (Nat × StackDistCalc Addr)
  | 0, _, _, _, _, _, _, _ => none
  | fuel + 1, state, pointer, fromLeft, sumFromBelow, level, stackDist, discardNode =>
    pointer.bind fun address => (state.nodes address).bind fun old =>
      let node := old.receive fromLeft sumFromBelow discardNode
      let stackDist := if fromLeft then stackDist + node.sumRight else stackDist
      let discards :=
        node.discardLeft && node.discardRight && discardNode && old.parent.isSome && sumFromBelow == 0
      let state := if discards then state.discard (level + 1) old.nodeIndex address else state.set address node
      match old.parent with
      | none => some (stackDist, state)
      | some up => updateSum fuel state (some up) old.isLeftNode (node.sumLeft + node.sumRight) (level + 1)
          stackDist discards

def updateSumsLeavesToRoot (pointer : Option Nat) (isNewLeaf : Bool) : Option (Nat × StackDistCalc Addr) :=
  pointer.bind fun address => (state.nodes address).bind fun leaf =>
    if isNewLeaf then
      ((state.set address { leaf with sumLeft := 1 }).updateSum state.depth leaf.parent leaf.isLeftNode 1 0 0 false).map
        fun result => (infinity, result.2)
    else
      (state.set address { leaf with sumLeft := 0 }).updateSum state.depth leaf.parent leaf.isLeftNode 0 0 0 true

/-- `getSum( node, from_left, sum_from_below, stack_dist, level )`; the sum and the level are not used. -/
def getSum : Nat → Option Nat → Bool → Nat → Option Nat
  | 0, _, _, _ => none
  | fuel + 1, pointer, fromLeft, stackDist =>
    pointer.bind fun address => (state.nodes address).bind fun node =>
      let stackDist := if fromLeft then stackDist + node.sumRight else stackDist
      match node.parent with
      | none => some stackDist
      | some up => getSum fuel (some up) node.isLeftNode stackDist

def getSumsLeavesToRoot (pointer : Option Nat) : Option Nat :=
  pointer.bind fun address => (state.nodes address).bind fun leaf =>
    state.getSum state.depth leaf.parent leaf.isLeftNode 0

/-! ### The inner nodes -/

/-- The body of the loops of `updateTree`: a node at the end of a layer. -/
def addINode (i : Nat) : Option (StackDistCalc Addr) :=
  (state.tree (i + 1) (state.nextIndex (i + 1) - 1)).map fun up =>
    (state.place i (state.nextIndex i) (.make (state.nextIndex i) up)).countUp i

/-- The loops of `updateTree`, from a layer down to the one above the leaves. -/
def addINodes (required : Nat → Option Bool) : Nat → StackDistCalc Addr → Option (StackDistCalc Addr)
  | 0, state => some state
  | i + 1, state =>
    (required (i + 1)).bind fun add =>
      (if add then state.addINode (i + 1) else some state).bind (addINodes required i)

/-- The new root of `updateTree`, above the old one. -/
def addRoot : Option (StackDistCalc Addr) :=
  (state.tree state.depth 0).bind fun address => (state.nodes address).map fun root =>
    let grown := state.place (state.depth + 1) 0
      { sumLeft := root.sumRight + root.sumLeft, discardLeft := root.discardLeft && root.discardRight }
    { grown.set address { root with parent := some state.next } with
      depth := state.depth + 1, nextIndex := Function.update state.nextIndex (state.depth + 1) 1 }

def updateTree : Option (StackDistCalc Addr) :=
  if isPowerOf2 state.index then
    state.addRoot.bind fun grown => addINodes (fun _ => some true) (grown.depth - 1) grown
  else
    addINodes (fun i => (shiftOne i).map fun width => state.index % width == 0) (state.depth - 1) state

/-! ### Calls -/

variable [DecidableEq Addr]

/-- The first part of `calcStackDistAndUpdate`: the leaf of an earlier insertion is removed. -/
def removeOld (a : Addr) (addNewNode : Bool) : Option ((Nat × Bool) × StackDistCalc Addr) :=
  match state.aiMap a with
  | some r =>
    let mapped := { state with aiMap := Function.update state.aiMap a (if addNewNode then some state.index else none) }
    (mapped.updateSumsLeavesToRoot (mapped.tree 0 r) false).bind fun (stackDist, summed) =>
      (summed.tree 0 r).bind fun address => (summed.nodes address).map fun leaf =>
        ((stackDist, leaf.isMarked), summed.discard 0 r address)
  | none =>
    some ((infinity, false),
      if addNewNode then { state with aiMap := Function.update state.aiMap a (some state.index) } else state)

/-- The second part of `calcStackDistAndUpdate`: a new leaf. -/
def addNew : Option (StackDistCalc Addr) :=
  (if state.index % 2 = 0 then state.updateTree else some state).bind fun state =>
    (state.tree 1 (state.nextIndex 1 - 1)).bind fun up =>
      let leafed := (state.place 0 state.index (.make state.index up)).countUp 0
      (leafed.updateSumsLeavesToRoot (leafed.tree 0 state.index) true).map fun result =>
        { result.2 with index := result.2.index + 1 }

def calcStackDistAndUpdate (a : Addr) (addNewNode : Bool) : Option ((Nat × Bool) × StackDistCalc Addr) :=
  (state.removeOld a addNewNode).bind fun (found, removed) =>
    if addNewNode then removed.addNew.map (found, ·) else some (found, removed)

def calcStackDist (a : Addr) (mark : Bool) : Option ((Nat × Bool) × StackDistCalc Addr) :=
  match state.aiMap a with
  | some r =>
    (state.tree 0 r).bind fun address => (state.nodes address).bind fun leaf =>
      let marked := state.set address { leaf with isMarked := mark }
      (marked.getSumsLeavesToRoot (marked.tree 0 r)).map fun stackDist => ((stackDist, leaf.isMarked), marked)
  | none => some ((infinity, false), state)

end StackDistCalc

/-- A call of the calculator. -/
inductive StackCall (Addr : Type) where
  | calcStackDistAndUpdate (a : Addr) (addNewNode : Bool)
  | calcStackDist (a : Addr) (mark : Bool)
  deriving DecidableEq

namespace StackDistCalc

variable {Addr : Type} [DecidableEq Addr]

/-- A call, with what it returns. -/
def call (state : StackDistCalc Addr) : StackCall Addr → Option ((Nat × Bool) × StackDistCalc Addr)
  | .calcStackDistAndUpdate a addNewNode => state.calcStackDistAndUpdate a addNewNode
  | .calcStackDist a mark => state.calcStackDist a mark

/-- Calls one after the other, with what they return. -/
def callAll (state : StackDistCalc Addr) : List (StackCall Addr) → Option (List (Nat × Bool) × StackDistCalc Addr)
  | [] => some ([], state)
  | first :: rest =>
    (state.call first).bind fun (result, called) =>
      (called.callAll rest).map fun (results, final) => (result :: results, final)

end StackDistCalc

end Emas.Gem5

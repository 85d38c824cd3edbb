/-
**The circular queue.**

`class CircularQueue` of `base/circular_queue.hh`: a vector whose slots from `_head` to `_tail` are the queue, a flag for
the empty one, and a counter of how often the tail has wrapped around, which iterators carry along.

* `uint32_t` is `Nat`, with its wrap-around where the code may reach it. The capacity is one, so that it is below 2^32.
* An access outside the vector is undefined: there is no value (`none`). A failing assertion leaves no queue (`none`).
* An iterator is a spot: the index and the round. A loop from `begin( )` to `end( )` runs on fuel.
-/

import Emas.Lib.ActionRun
import Emas.Lib.Laps

namespace Emas.Gem5

/-- The number of values of a `uint32_t`. -/
def word : Nat := 2 ^ 32

/-- `class CircularQueue`. -/
structure CircularQueue (T : Type) where
  capacity : Nat
  head : Nat
  tail : Nat
  empty : Bool
  round : Nat
  slots : List T

namespace CircularQueue

variable {T : Type}

/-- `CircularQueue( size )`. -/
def create [Inhabited T] (size : Nat) : CircularQueue T := ⟨size, 1, 0, true, 0, List.replicate size default⟩

def moduloAdd (op1 op2 size : Nat) : Nat := (op1 + op2) % word % size

variable (queue : CircularQueue T)

def flush : CircularQueue T := { queue with head := 1, round := 0, tail := 0, empty := true }

def increase (v : Nat) : Nat := moduloAdd v 1 queue.capacity

def decrease (v : Nat) : Nat := (if v ≠ 0 then v else queue.capacity) - 1

def isValidIdx (idx round : Nat) : Bool :=
  !queue.empty && (round = queue.round && idx ≤ queue.tail && (queue.head ≤ idx || queue.head > queue.tail) ||
    (round + 1) % word = queue.round && idx > queue.tail && idx ≥ queue.head && queue.head > queue.tail)

def size : Nat :=
  if queue.empty then 0
  else if queue.head ≤ queue.tail then queue.tail - queue.head + 1
  else queue.capacity - queue.head + queue.tail + 1

def full : Bool :=
  !queue.empty && (queue.tail + 1 = queue.head || (queue.tail + 1 = queue.capacity && queue.head = 0))

/-! ### Iterators -/

/-- `end( )`. -/
def endIt : Spot :=
  let poi := moduloAdd queue.tail 1 queue.capacity
  ⟨poi, if poi = 0 then (queue.round + 1) % word else queue.round⟩

/-- `begin( )`. -/
def beginIt : Spot :=
  if queue.empty then queue.endIt
  else if queue.head > queue.tail then ⟨queue.head, (queue.round + (word - 1)) % word⟩
  else ⟨queue.head, queue.round⟩

/-- `++it`. -/
def next (it : Spot) : Spot :=
  let idx := queue.increase it.slot
  ⟨idx, if idx = 0 then (it.lap + 1) % word else it.lap⟩

/-- `it += t`, forwards. -/
def plus (it : Spot) (t : Nat) : Spot :=
  ⟨moduloAdd it.slot t queue.capacity, (it.lap + (t + it.slot) / queue.capacity) % word⟩

/-- `it < that`. -/
def less (it that : Spot) : Bool := it.lap < that.lap || (it.lap = that.lap && it.slot < that.slot)

/-- The loop from an iterator to `end( )`: the iterators and what they point to. -/
def enumerate : Nat → Spot → Option (List (Spot × T))
  | 0, _ => none
  | fuel + 1, it =>
    if it = queue.endIt then some []
    else queue.slots[it.slot]?.bind fun value => (enumerate fuel (queue.next it)).map ((it, value) :: ·)

/-- What is found from `begin( )` to `end( )`. -/
def contents : Option (List (Spot × T)) := queue.enumerate (queue.capacity + 1) queue.beginIt

/-! ### Changes -/

def advanceTail : CircularQueue T :=
  let tail := queue.increase queue.tail
  { queue with
    tail := tail
    round := if tail = 0 then (queue.round + 1) % word else queue.round
    head := if tail = queue.head ∧ !queue.empty then queue.increase queue.head else queue.head
    empty := false }

def pushBack (val : T) : CircularQueue T :=
  let queue := queue.advanceTail
  { queue with slots := queue.slots.set queue.tail val }

def popFront (numElem : Nat) : Option (CircularQueue T) :=
  if numElem = 0 then some queue
  else
    let hIt := queue.plus queue.beginIt numElem
    if less queue.endIt hIt then none
    else some { queue with empty := hIt = queue.endIt, head := hIt.slot }

def popBack : Option (CircularQueue T) :=
  if queue.empty then none
  else some { queue with
    empty := queue.head = queue.tail
    round := if queue.tail = 0 then (queue.round + (word - 1)) % word else queue.round
    tail := queue.decrease queue.tail }

end CircularQueue

/-! ### Runs -/

/-- A call on the queue. -/
inductive QueueCall (T : Type) where
  | flush
  | pushBack (val : T)
  | popFront (numElem : Nat)
  | popBack
  deriving DecidableEq

/-- The queue beside the deque that it stands for. -/
structure QueueRun (T : Type) where
  queue : CircularQueue T
  deque : List T
  failed : Bool

namespace QueueRun

variable {T : Type}

def create [Inhabited T] (capacity : Nat) : QueueRun T := ⟨.create capacity, [], false⟩

/-- A bounded deque drops its oldest element when it is full. -/
def push (capacity : Nat) (deque : List T) (val : T) : List T :=
  if deque.length = capacity then deque.drop 1 ++ [val] else deque ++ [val]

/-- A call on both. -/
def act (run : QueueRun T) : QueueCall T → QueueRun T
  | .flush => { run with queue := run.queue.flush, deque := [] }
  | .pushBack val => { run with
      queue := run.queue.pushBack val
      deque := push run.queue.capacity run.deque val }
  | .popFront numElem =>
    match run.queue.popFront numElem with
    | some queue => { run with queue := queue, deque := run.deque.drop numElem }
    | none => { run with failed := true }
  | .popBack =>
    match run.queue.popBack with
    | some queue => { run with queue := queue, deque := run.deque.dropLast }
    | none => { run with failed := true }

def after [Inhabited T] (capacity : Nat) (calls : List (QueueCall T)) : QueueRun T :=
  runActions act (create capacity) calls

end QueueRun

end Emas.Gem5

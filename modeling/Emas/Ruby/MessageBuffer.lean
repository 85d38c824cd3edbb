/-
**Message buffers.**

`class MessageBuffer` of `mem/ruby/network/MessageBuffer.cc`.

* A message has a content, which the buffer does not read. The vector `m_prio_heap` is kept by `push_heap` and
  `pop_heap`: its front is a least message by the time of its last enqueue and its counter.
* An assertion that fails and the `panic` of a violated order end the program: such a call has no result.
* The random delay of an enqueue, when delays are random, is given to the call. The wake-up of the consumer, the
  callback of a dequeue and the statistics are not part of the model. Counters do not wrap.
-/

import Emas.Lib.LeastHeap
import Emas.Lib.SortedMap
import Emas.Ruby.Address
import Mathlib.Data.Prod.Lex

namespace Emas.Ruby

open Gem5

/-- `class Message`. -/
structure Message (μ : Type) where
  content : μ
  lastEnqueueTime : Nat
  delayedTicks : Nat
  msgCounter : Nat
  deriving DecidableEq

namespace Message

variable {μ : Type} (message : Message μ)

/-- What `operator>` compares. -/
def key : ℕ ×ₗ ℕ := toLex (message.lastEnqueueTime, message.msgCounter)

/-- `updateDelayedTicks( curTime )`, behind its assertion. -/
def updateDelayedTicks (curTime : Nat) : Message μ :=
  { message with delayedTicks := message.delayedTicks + (curTime - message.lastEnqueueTime) }

end Message

/-- How a call ends the program. -/
inductive BufferFailure where
  | assertion | fifoViolated
  deriving DecidableEq, Repr

/-- The settings of a buffer, with those of the system that it reads. -/
structure BufferSettings where
  maxSize : Nat
  strictFifo : Bool
  randomization : Bool
  warmupEnabled : Bool
  blockBits : Nat

/-- `class MessageBuffer`. -/
structure MessageBuffer (μ : Type) where
  prioHeap : List (Message μ)
  stallMsgMap : SortedMap Addr (List (Message μ))
  stallMapSize : Int
  timeLastTimeEnqueue : Nat
  timeLastTimePop : Nat
  lastArrivalTime : Nat
  sizeAtCycleStart : Nat
  stalledAtCycleStart : Nat
  msgsThisCycle : Nat
  msgCounter : Nat

namespace MessageBuffer

variable {μ : Type}

/-- `MessageBuffer( p )`. -/
def init (μ : Type) : MessageBuffer μ where
  prioHeap := []
  stallMsgMap := .empty
  stallMapSize := 0
  timeLastTimeEnqueue := 0
  timeLastTimePop := 0
  lastArrivalTime := 0
  sizeAtCycleStart := 0
  stalledAtCycleStart := 0
  msgsThisCycle := 0
  msgCounter := 0

variable (settings : BufferSettings) (buf : MessageBuffer μ)

/-! ### The visible size -/

/-- `current_size + current_stall_size` of `areNSlotsAvailable`. -/
def visibleSize (currentTime : Nat) : Nat :=
  if buf.timeLastTimePop < currentTime then buf.prioHeap.length + buf.stallMapSize.toNat
  else
    (if buf.timeLastTimeEnqueue < currentTime then buf.sizeAtCycleStart
      else buf.sizeAtCycleStart + buf.msgsThisCycle) + buf.stalledAtCycleStart

/-- `areNSlotsAvailable( n, current_time )`. -/
def areNSlotsAvailable (n currentTime : Nat) : Bool :=
  settings.maxSize = 0 ∨ buf.visibleSize currentTime + n ≤ settings.maxSize

/-! ### Enqueuing and dequeuing -/

/-- What an enqueue first records of its time. -/
def countEnqueue (currentTime : Nat) : MessageBuffer μ :=
  let buf :=
    if buf.timeLastTimeEnqueue < currentTime then
      { buf with msgsThisCycle := 0, timeLastTimeEnqueue := currentTime }
    else buf
  { buf with msgCounter := buf.msgCounter + 1, msgsThisCycle := buf.msgsThisCycle + 1 }

/-- `m_last_arrival_time` before the arrival of a message is computed. -/
def startOfArrival (currentTime : Nat) : Nat :=
  if settings.randomization && settings.strictFifo && buf.lastArrivalTime < currentTime then currentTime
  else buf.lastArrivalTime

/-- `arrival_time` of a message. -/
def arrivalTime (currentTime delta randomTime : Nat) : Nat :=
  if !settings.randomization then currentTime + delta
  else if settings.strictFifo then buf.startOfArrival settings currentTime + randomTime
  else currentTime + randomTime

/-- `enqueue( message, current_time, delta )`. -/
def enqueue (message : Message μ) (currentTime delta randomTime : Nat) : Except BufferFailure (MessageBuffer μ) :=
  let arrival := buf.arrivalTime settings currentTime delta randomTime
  let last := buf.startOfArrival settings currentTime
  if ¬ 0 < delta then .error .assertion
  else if ¬ currentTime < arrival then .error .assertion
  else if settings.strictFifo ∧ arrival < last then .error .fifoViolated
  else if ¬ message.lastEnqueueTime ≤ currentTime then .error .assertion
  else
    let counted := buf.countEnqueue currentTime
    .ok { counted with
      lastArrivalTime := if settings.warmupEnabled then last else arrival
      prioHeap := pushHeap Message.key counted.prioHeap
        { message.updateDelayedTicks currentTime with lastEnqueueTime := arrival, msgCounter := counted.msgCounter } }

def recordSizes (currentTime : Nat) : MessageBuffer μ :=
  if buf.timeLastTimePop < currentTime then
    { buf with
      sizeAtCycleStart := buf.prioHeap.length
      stalledAtCycleStart := buf.stallMapSize.toNat
      timeLastTimePop := currentTime }
  else buf

/-- `dequeue( current_time )`, with the message that `peek()` gave. Its delay is the one recorded in it. -/
def dequeue (currentTime : Nat) : Except BufferFailure (Message μ × MessageBuffer μ) :=
  match buf.prioHeap with
  | [] => .error .assertion
  | front :: _ =>
    if ¬ front.lastEnqueueTime ≤ currentTime then .error .assertion
    else .ok (front.updateDelayedTicks currentTime,
      { buf.recordSizes currentTime with prioHeap := popHeap Message.key buf.prioHeap })

/-- `recycle( current_time, recycle_latency )`. -/
def recycle (currentTime recycleLatency : Nat) : Except BufferFailure (MessageBuffer μ) :=
  match buf.prioHeap with
  | [] => .error .assertion
  | node :: _ =>
    if ¬ node.lastEnqueueTime ≤ currentTime then .error .assertion
    else .ok { buf with
      prioHeap := pushHeap Message.key (popHeap Message.key buf.prioHeap)
        { node with lastEnqueueTime := currentTime + recycleLatency } }

/-! ### Stalling -/

def stallMessage (addr : Addr) (currentTime : Nat) : Except BufferFailure (MessageBuffer μ) :=
  if ¬ getOffset settings.blockBits addr = 0 then .error .assertion
  else match buf.dequeue currentTime with
    | .error failure => .error failure
    | .ok (message, rest) => .ok { rest with
        stallMsgMap := rest.stallMsgMap.insert addr ((rest.stallMsgMap.find? addr).getD [] ++ [message])
        stallMapSize := rest.stallMapSize + 1 }

def reanalyzeList (heap : List (Message μ)) (lt : List (Message μ)) (schdTick : Nat) :
    Except BufferFailure (List (Message μ)) :=
  lt.foldlM (fun heap m =>
    if ¬ m.lastEnqueueTime ≤ schdTick then .error .assertion else .ok (pushHeap Message.key heap m)) heap

def reanalyzeMessages (addr : Addr) (currentTime : Nat) : Except BufferFailure (MessageBuffer μ) :=
  match buf.stallMsgMap.find? addr with
  | none => .error .assertion
  | some stalled =>
    let size := buf.stallMapSize - stalled.length
    if ¬ 0 ≤ size then .error .assertion
    else do
      let heap ← reanalyzeList buf.prioHeap stalled currentTime
      .ok { buf with prioHeap := heap, stallMsgMap := buf.stallMsgMap.erase addr, stallMapSize := size }

/-- The loop of `reanalyzeAllMessages`: the heap and the size after the entries of the stall map. -/
def reanalyzeEntries (currentTime : Nat) :
    List (Addr × List (Message μ)) → List (Message μ) × Int → Except BufferFailure (List (Message μ) × Int)
  | [], done => .ok done
  | (_, stalled) :: rest, (heap, size) =>
    let size := size - stalled.length
    if ¬ 0 ≤ size then .error .assertion
    else do
      let heap ← reanalyzeList heap stalled currentTime
      reanalyzeEntries currentTime rest (heap, size)

def reanalyzeAllMessages (currentTime : Nat) : Except BufferFailure (MessageBuffer μ) := do
  let (heap, size) ← reanalyzeEntries currentTime buf.stallMsgMap.entries (buf.prioHeap, buf.stallMapSize)
  .ok { buf with prioHeap := heap, stallMsgMap := .empty, stallMapSize := size }

end MessageBuffer

end Emas.Ruby

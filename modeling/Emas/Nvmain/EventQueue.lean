/-
**The event queue of NVMain: its data and its member functions.**

`Event` and `EventQueue` follow `src/EventQueue.h`. The queue maps a cycle to the list of the events
of that cycle; `nextEventCycle` caches the first key, with `maxCycle` standing for "no event".
Cycles are 64-bit: `addCycles` and `subCycles` are the wrapping operators of `ncycle_t`.

An event is identified by `id`, the address `new Event( )` gives it. A fresh number is drawn at
every insertion, so two insertions are never confused; the event stays in its list, with the fields
it was inserted with, until the list is erased or `removeEvent` unlinks it. Recipients are hooks: the
overloads of `InsertEvent` that take an `NVMObject` or no request look up the object's hook, resp.
pass `NULL`, and call `insertEventFor`.
-/

import Emas.Lib.SortedMap
import Emas.Lib.Outcome
import Mathlib.Algebra.Group.Nat.Defs

namespace Emas.Nvmain

/-- `std::numeric_limits<ncycle_t>::max( )`. -/
def maxCycle : Nat := 2 ^ 64 - 1

/-- `a + b` on `ncycle_t`. -/
def addCycles (a b : Nat) : Nat := (a + b) % 2 ^ 64

/-- `a - b` on `ncycle_t`. -/
def subCycles (a b : Nat) : Nat := (a + (2 ^ 64 - b)) % 2 ^ 64

theorem addCycles_eq {a b : Nat} (small : a + b < maxCycle) : addCycles a b = a + b := by
  unfold maxCycle at small
  exact Nat.mod_eq_of_lt (by omega)

theorem subCycles_eq {a b : Nat} (ordered : b ≤ a) (small : a ≤ maxCycle) : subCycles a b = a - b := by
  unfold maxCycle at small
  unfold subCycles
  omega

/-- `enum EventType`. -/
inductive EventType where
  | unknown
  | cycle
  | idle
  | request
  | response
  | callback
  deriving DecidableEq, Repr

/-- `class Event`. `Method` are the member functions an event may call back, `Data` the objects its
`void *data` may point to; recipients and requests are addresses. -/
structure Event (Method Data : Type) where
  id : Nat
  type : EventType
  recipient : Nat
  request : Option Nat
  data : Option Data
  cycle : Nat
  priority : Int
  method : Option Method
  deriving DecidableEq, Repr

/-- `class EventQueue`, with the address the next `new Event( )` returns. -/
structure EventQueue (Method Data : Type) where
  nextEventCycle : Nat
  lastEventCycle : Nat
  currentCycle : Nat
  eventMap : SortedMap Nat (List (Event Method Data))
  nextId : Nat

variable {Method Data : Type}

namespace Event

/-- `Event( )` with the given type, recipient, request and data; the priority stays `0`. -/
def create (type : EventType) (recipient : Nat) (request : Option Nat) (data : Option Data) : Event Method Data where
  id := 0
  type := type
  recipient := recipient
  request := request
  data := data
  cycle := 0
  priority := 0
  method := none

end Event

/-- The scan of `InsertEvent`: before the first event whose stored priority is greater than the
argument, or at the end. -/
def insertByPriority (event : Event Method Data) (priority : Int) : List (Event Method Data) → List (Event Method Data)
  | [] => [event]
  | head :: rest =>
    if head.priority > priority then event :: head :: rest
    else head :: insertByPriority event priority rest

namespace EventQueue

/-- `EventQueue( )`. -/
def create : EventQueue Method Data where
  nextEventCycle := maxCycle
  lastEventCycle := 0
  currentCycle := 0
  eventMap := .empty
  nextId := 0

/-- The events of one cycle, in list order (`eventMap[when]`; no entry reads as no events). -/
def eventList (queue : EventQueue Method Data) (when : Nat) : List (Event Method Data) :=
  (queue.eventMap.find? when).getD []

/-- `InsertEvent( event, when, priority )`. -/
def insertEvent (queue : EventQueue Method Data) (event : Event Method Data) (when : Nat)
    (priority : Int) : EventQueue Method Data :=
  let event := { event with id := queue.nextId, cycle := when }
  { queue with
    nextId := queue.nextId + 1
    nextEventCycle := if when < queue.nextEventCycle then when else queue.nextEventCycle
    eventMap :=
      match queue.eventMap.find? when with
      | none => queue.eventMap.insert when [event]
      | some eventList => queue.eventMap.insert when (insertByPriority event priority eventList) }

/-- `InsertEvent( EventType type, NVMObject_hook *recipient, NVMainRequest *req, ncycle_t when,
void *data, int priority )`. The priority is handed on but not stored in the event. -/
def insertEventFor (queue : EventQueue Method Data) (type : EventType) (recipient : Nat)
    (request : Option Nat) (when : Nat) (data : Option Data) (priority : Int) : EventQueue Method Data :=
  queue.insertEvent (.create type recipient request data) when priority

/-- `InsertCallback( recipient, method, when, data, priority )`. -/
def insertCallback (queue : EventQueue Method Data) (recipient : Nat) (method : Method)
    (when : Nat) (data : Option Data) (priority : Int) : EventQueue Method Data :=
  let event : Event Method Data := .create .callback recipient none data
  queue.insertEvent { event with priority := priority, method := some method } when priority

/-- `eventMap.begin( )->first`, or the sentinel when the map is empty. -/
def firstCycle (eventMap : SortedMap Nat (List (Event Method Data))) : Nat :=
  eventMap.minKey?.getD maxCycle

/-- `RemoveEvent( event, when )`. -/
def removeEvent (queue : EventQueue Method Data) (id when : Nat) : EventQueue Method Data × Bool :=
  match queue.eventMap.find? when with
  | none => (queue, false)
  | some eventList =>
    let found := eventList.any (·.id = id)
    let left := eventList.eraseP (·.id = id)
    let eventMap :=
      if found then
        if left.isEmpty then queue.eventMap.erase when else queue.eventMap.insert when left
      else queue.eventMap
    ({ queue with eventMap := eventMap, nextEventCycle := firstCycle eventMap }, found)

/-- `FindEvent( type, recipient, req, when )`: the last matching event of the cycle. -/
def findEvent (queue : EventQueue Method Data) (type : EventType) (recipient : Nat)
    (request : Option Nat) (when : Nat) : Option (Event Method Data) :=
  (queue.eventList when).reverse.find? fun event =>
    event.type = type && event.recipient = recipient && event.request = request

/-- `FindCallback( recipient, method, when, data, priority )`: the first matching event of the
cycle. -/
def findCallback [DecidableEq Method] [DecidableEq Data] (queue : EventQueue Method Data)
    (recipient : Nat) (method : Method) (when : Nat) (data : Option Data) (priority : Int) :
    Option (Event Method Data) :=
  (queue.eventList when).find? fun event =>
    event.recipient = recipient && event.method = some method && event.data = data && event.priority = priority

end EventQueue

/-! ### `EventQueue::Process` and `EventQueue::Loop`

Dispatching an event calls its recipient, and the recipient may call back into the queue while
`Process` is iterating over the list of the cycle. `Recipients` is what the recipients do, as a
function of their own state and of the queue; `Behaviour` is a recipient that acts on the queue
through its member functions only, one `QueueOp` after the other, which is what every object of the
simulator does.

`processFrom` is the `for` loop of `Process`. Its iterator is a node of the list, so it is named by
the event in the node and survives insertions; `rest?` is the part of the list behind the node as
the callback left it, `none` when the callback has unlinked the node itself. `process` adds the
`assert` in front and the erasure of the list behind it. `loop` is `Loop( steps )`.

The run records every dispatch with the state it started in (`log`) and every event that was in a
list when `Process` erased it (`erased`).
-/

variable {σ : Type}

/-! ### What a recipient may do -/

/-- What `Process` calls on the recipient of an event. -/
inductive Call (Method Data : Type) where
  | cycle (steps : Nat)
  | requestComplete (request : Option Nat)
  | callback (method : Option Method) (data : Option Data)

/-- The `switch` of `Process`: the call an event makes, if its type makes one. -/
def callOf (queue : EventQueue Method Data) (event : Event Method Data) : Option (Call Method Data) :=
  match event.type with
  | .cycle => some (.cycle (subCycles queue.nextEventCycle queue.lastEventCycle))
  | .response => some (.requestComplete event.request)
  | .callback => some (.callback event.method event.data)
  | .idle | .request | .unknown => none

/-- The recipients of a simulation with state `σ`: a call may change the state and the queue. -/
abbrev Recipients (σ Method Data : Type) :=
  Nat → Call Method Data → σ → EventQueue Method Data → σ × EventQueue Method Data

/-- One call of a member function of the queue. `insert` is `InsertEvent` on an event of the
caller's making; the other two insertions build the event from their arguments. -/
inductive QueueOp (Method Data : Type) where
  | insert (event : Event Method Data) (when : Nat) (priority : Int)
  | insertFor (type : EventType) (recipient : Nat) (request : Option Nat) (when : Nat)
      (data : Option Data) (priority : Int)
  | insertCallback (recipient : Nat) (method : Method) (when : Nat) (data : Option Data)
      (priority : Int)
  | remove (id when : Nat)

namespace QueueOp

/-- Run the member function. -/
def apply (queue : EventQueue Method Data) : QueueOp Method Data → EventQueue Method Data
  | insert event when priority => queue.insertEvent event when priority
  | insertFor type recipient request when data priority =>
      queue.insertEventFor type recipient request when data priority
  | insertCallback recipient method when data priority =>
      queue.insertCallback recipient method when data priority
  | remove id when => (queue.removeEvent id when).1

/-- What an operation does: insert an event with a priority argument, or remove one. -/
def insertion : QueueOp Method Data → Option (Event Method Data × Nat × Int)
  | insert event when priority => some (event, when, priority)
  | insertFor type recipient request when data priority =>
      some (.create type recipient request data, when, priority)
  | insertCallback recipient method when data priority =>
      some ({ (.create .callback recipient none data : Event Method Data) with
        priority := priority, method := some method }, when, priority)
  | remove _ _ => none

end QueueOp

/-- Run several operations in a row. -/
def EventQueue.applyOps (queue : EventQueue Method Data) (ops : List (QueueOp Method Data)) : EventQueue Method Data :=
  ops.foldl QueueOp.apply queue

/-- Recipients that act on the queue through its member functions. -/
abbrev Behaviour (σ Method Data : Type) :=
  Nat → Call Method Data → σ → EventQueue Method Data → σ × List (QueueOp Method Data)

/-- The recipients that perform the operations. -/
def Behaviour.recipients (behaviour : Behaviour σ Method Data) : Recipients σ Method Data :=
  fun recipient call state queue =>
    ((behaviour recipient call state queue).1, queue.applyOps (behaviour recipient call state queue).2)

/-! ### Process -/

/-- A dispatched event, and the state and the queue that its recipient was called in. -/
structure Dispatch (σ Method Data : Type) where
  event : Event Method Data
  state : σ
  queue : EventQueue Method Data

/-- A simulation: the recipients' state, the queue, the dispatches so far, and the events whose list
`Process` has erased. -/
structure Run (σ Method Data : Type) where
  state : σ
  queue : EventQueue Method Data
  log : List (Dispatch σ Method Data)
  erased : List (Event Method Data)

/-- What can go wrong inside the queue: a failed `assert`, or an iterator whose node is gone. -/
inductive Fault where
  | assertion
  | danglingIterator
  deriving DecidableEq, Repr

/-- The events behind the node of event `id`, if that node is in the list. -/
def rest? (id : Nat) : List (Event Method Data) → Option (List (Event Method Data))
  | [] => none
  | head :: rest => if head.id = id then some rest else rest? id rest

/-- The body of the `for` loop of `Process`: call the recipient of the event. -/
def dispatch (recipients : Recipients σ Method Data) (event : Event Method Data)
    (run : Run σ Method Data) : Run σ Method Data :=
  let after :=
    match callOf run.queue event with
    | none => (run.state, run.queue)
    | some call => recipients event.recipient call run.state run.queue
  { run with
    state := after.1
    queue := after.2
    log := run.log ++ [⟨event, run.state, run.queue⟩] }

/-- The `for` loop of `Process` over the list of `cycle`; the iterator points to the event (`none` at `end( )`).
`Process` deletes an event once it is dispatched and leaves it in the list; here it stands there with its fields. -/
def processFrom (recipients : Recipients σ Method Data) (cycle : Nat) :
    Nat → Option (Event Method Data) → Run σ Method Data → Outcome Fault (Run σ Method Data)
  | _, none, run => .done run
  | 0, some _, run => .outOfFuel run
  | fuel + 1, some event, run =>
    let run := dispatch recipients event run
    match rest? event.id (run.queue.eventList cycle) with
    | none => .fault .danglingIterator run
    | some rest => processFrom recipients cycle fuel rest.head? run

/-- The end of `Process`: erase the list and find the next cycle. -/
def finishCycle (run : Run σ Method Data) : Run σ Method Data :=
  let queue := run.queue
  let eventMap := queue.eventMap.erase queue.nextEventCycle
  { run with
    erased := run.erased ++ queue.eventList queue.nextEventCycle
    queue :=
      { queue with
        eventMap := eventMap
        lastEventCycle := queue.nextEventCycle
        nextEventCycle := EventQueue.firstCycle eventMap } }

/-- `Process( )`. -/
def process (recipients : Recipients σ Method Data) (fuel : Nat) (run : Run σ Method Data) :
    Outcome Fault (Run σ Method Data) :=
  match run.queue.eventMap.find? run.queue.nextEventCycle with
  | none => .fault .assertion run
  | some eventList =>
    (processFrom recipients run.queue.nextEventCycle fuel eventList.head? run).bind fun run =>
      .done (finishCycle run)

/-! ### Loop -/

/-- Set the clock. -/
def Run.setCycle (run : Run σ Method Data) (cycle : Nat) : Run σ Method Data :=
  { run with queue := { run.queue with currentCycle := cycle } }

/-- The `while` loop of `Loop( steps )`. -/
def loopWhile (recipients : Recipients σ Method Data) :
    Nat → Nat → Run σ Method Data → Outcome Fault (Run σ Method Data)
  | _, 0, run => .done run
  | 0, _ + 1, run => .outOfFuel run
  | fuel + 1, stepCycles + 1, run =>
    let queue := run.queue
    if queue.nextEventCycle > addCycles queue.currentCycle (stepCycles + 1) then
      .done (run.setCycle (addCycles queue.currentCycle (stepCycles + 1)))
    else
      let currentSteps := subCycles queue.nextEventCycle queue.currentCycle
      (process recipients fuel
        (run.setCycle (addCycles queue.currentCycle currentSteps))).bind fun run =>
          loopWhile recipients fuel (subCycles (stepCycles + 1) currentSteps) run

/-- `Loop( steps )`. -/
def loop (recipients : Recipients σ Method Data) (fuel steps : Nat) (run : Run σ Method Data) :
    Outcome Fault (Run σ Method Data) :=
  if steps = 0 ∧ run.queue.nextEventCycle = run.queue.currentCycle then
    process recipients fuel run
  else
    loopWhile recipients fuel steps run

end Emas.Nvmain

/-
**The write drain of the FR-FCFS scheduler with a write queue.**

`MemControl/FRFCFS-WQF`: reads and writes wait in queues of their own. A drain begins when the write queue has reached
the high mark and ends when it is down to the low mark; `Cycle` searches the write queue during a drain and the read
queue otherwise. The base class is `System` as before, with both queues as its transaction queues.

* `marks_hysteresis_iff`: **the drain does what it should, with marks in order unless both were configured above the
  size of the write queue.** The `else if` of `SetConfig` then leaves the low mark where it is.

Of the statistics the model has those of the drain; `FLAG_FORCED` is read by the subarrays only.
-/

import Emas.Nvmain.ControllerActions
import Mathlib.Algebra.Group.Int.Defs

namespace Emas.Nvmain

variable {χ : Type}

/-! ### Configuration -/

/-- The keys of the configuration that `FRFCFS_WQF::SetConfig` reads; `none` is a key that is not there. -/
structure DrainKeys where
  readQueueSize : Option Int
  writeQueueSize : Option Int
  highWaterMark : Option Int
  lowWaterMark : Option Int

/-- `static_cast<unsigned int>( conf->GetValue( key ) )` if the key exists, else the value of the constructor. -/
def configured (key : Option Int) (default : Nat) : Nat :=
  match key with
  | some value => (value % 2 ^ 32).toNat
  | none => default

namespace DrainKeys

variable (keys : DrainKeys)

/-- `writeQueueSize`, which is 8 unless configured. -/
def size : Nat := configured keys.writeQueueSize 8

/-- `HighWaterMark` before the sanity check: the size of the write queue as the constructor has it, unless
configured. -/
def high : Nat := configured keys.highWaterMark 8

/-- `LowWaterMark` before the sanity check. -/
def low : Nat := configured keys.lowWaterMark 0

end DrainKeys

/-! ### State -/

/-- A statistic of `total_`, `minimum_` and `maximum_`. -/
structure Spread where
  total : Nat
  minimum : Nat
  maximum : Nat
  deriving DecidableEq, Repr

def Spread.create : Spread := ⟨0, 10 ^ 10, 0⟩

/-- The minimum is tried first, and the maximum only if the value is no new minimum. -/
def Spread.record (spread : Spread) (value : Nat) : Spread where
  total := addCycles spread.total value
  minimum := if spread.minimum > value then value else spread.minimum
  maximum := if spread.minimum > value then spread.maximum
    else if spread.maximum < value then value else spread.maximum

/-- The maximum is tried first. -/
def Spread.recordMaximum (spread : Spread) (value : Nat) : Spread where
  total := addCycles spread.total value
  maximum := if spread.maximum < value then value else spread.maximum
  minimum := if spread.maximum < value then spread.minimum
    else if spread.minimum > value then value else spread.minimum

/-- `class FRFCFS_WQF`; `sys` is its base class with what is around it, less the transaction queue. -/
structure WriteQueueFirst (χ : Type) where
  sys : System χ
  readQueue : List NVMainRequest
  writeQueue : List NVMainRequest
  readQueueSize : Nat
  writeQueueSize : Nat
  highWaterMark : Nat
  lowWaterMark : Nat
  draining : Bool
  forceDrain : Bool
  requestPerDrain : Nat
  drainStartCycle : Nat
  drainEndCycle : Nat
  lastDrainEndCycle : Nat
  drainStartReadqueueSize : Nat
  drainEndReadqueueSize : Nat
  totalDrains : Nat
  drainWrites : Spread
  drainCycles : Spread
  drainSpacing : Spread
  readSpacing : Spread
  predrainReadqueueSize : Spread
  readsDuringDrain : Spread

namespace WriteQueueFirst

variable (cfg : Config) (child : Child χ) (wqf : WriteQueueFirst χ)

/-- The constructor and `SetConfig`: the low mark is looked at only if the high mark fits. -/
def setConfig (keys : DrainKeys) (below : χ) (queue : ControllerQueue) : WriteQueueFirst χ where
  sys := System.setConfig cfg below queue
  readQueue := []
  writeQueue := []
  readQueueSize := configured keys.readQueueSize 32
  writeQueueSize := keys.size
  highWaterMark := if keys.high > keys.size then keys.size else keys.high
  lowWaterMark :=
    if keys.high > keys.size then keys.low
    else if keys.low > keys.high then 0
    else keys.low
  draining := false
  forceDrain := false
  requestPerDrain := 0
  drainStartCycle := 0
  drainEndCycle := 0
  lastDrainEndCycle := 0
  drainStartReadqueueSize := 0
  drainEndReadqueueSize := 0
  totalDrains := 0
  drainWrites := .create
  drainCycles := .create
  drainSpacing := .create
  readSpacing := .create
  predrainReadqueueSize := .create
  readsDuringDrain := .create

/-! ### The base class -/

/-- The base class with one transaction queue, as a search is given it. -/
def searching (transactionQueue : List NVMainRequest) : System χ :=
  { wqf.sys with mc := wqf.sys.mc.setTransactionQueue transactionQueue }

/-- A function of the base class, which sees both queues. -/
def onBase (run : System χ → System χ) : WriteQueueFirst χ :=
  { wqf with sys := run (wqf.searching (wqf.readQueue ++ wqf.writeQueue)) }

/-! ### Requests -/

/-- `IsIssuable( request, fail )`. -/
def isIssuable (request : NVMainRequest) : Bool :=
  !((request.type = .read && decide (wqf.readQueue.length ≥ wqf.readQueueSize)) || (request.type = .write &&
      (decide (wqf.writeQueue.length ≥ wqf.writeQueueSize) || wqf.draining || wqf.forceDrain)))

/-- The request as `Enqueue` puts it into its queue, with its cycle of arrival. -/
def arriving (request : NVMainRequest) : NVMainRequest :=
  { request with arrivalCycle := wqf.sys.now, address := cfg.translate request.address.physical }

/-- The base class after it has accepted the request: what `Enqueue` does to the event queue. -/
def enqueue (request : NVMainRequest) : WriteQueueFirst χ :=
  wqf.onBase fun sys =>
    { sys with accepted := sys.accepted ++ [request] }.enqueue cfg { request with arrivalCycle := sys.now }

/-- `IssueCommand( request )`; `none` is the answer `false`. -/
def issueCommand (request : NVMainRequest) : Option (WriteQueueFirst χ) :=
  if !wqf.isIssuable request then none
  else
    match request.type with
    | .read => some { wqf.enqueue cfg request with readQueue := wqf.readQueue ++ [wqf.arriving cfg request] }
    | .write => some { wqf.enqueue cfg request with writeQueue := wqf.writeQueue ++ [wqf.arriving cfg request] }
    | _ => none

/-- `RequestComplete( request )`: a cancelled or paused write goes back to the head of the write queue. -/
def requestComplete (request : NVMainRequest) : WriteQueueFirst χ :=
  if (request.type = .write ∨ request.type = .writePrecharge) ∧ (request.cancelled = true ∨ request.paused = true) then
    { wqf with writeQueue := request :: wqf.writeQueue }
  else wqf

/-! ### Cycle -/

/-- What `Cycle` records at the end of a drain, other than the first. -/
def recordDrain : WriteQueueFirst χ :=
  let duration := subCycles wqf.sys.now wqf.drainStartCycle
  let interval := subCycles wqf.sys.now wqf.lastDrainEndCycle
  { wqf with
    drainEndReadqueueSize := wqf.readQueue.length
    predrainReadqueueSize := wqf.predrainReadqueueSize.record wqf.drainStartReadqueueSize
    readsDuringDrain := wqf.readsDuringDrain.record (subCycles wqf.readQueue.length wqf.drainStartReadqueueSize)
    drainCycles := wqf.drainCycles.recordMaximum duration
    totalDrains := addCycles wqf.totalDrains 1
    drainWrites := wqf.drainWrites.record wqf.requestPerDrain
    drainSpacing := wqf.drainSpacing.record interval
    readSpacing := wqf.readSpacing.record (subCycles interval duration) }

/-- The first half of `Cycle`: a drain begins, or ends. -/
def switchDrain : WriteQueueFirst χ :=
  if wqf.draining = false ∧ wqf.writeQueue.length ≥ wqf.highWaterMark ∧ wqf.forceDrain = false then
    { wqf with
      drainStartCycle := wqf.sys.now
      drainStartReadqueueSize := wqf.readQueue.length
      draining := true }
  else if wqf.draining = true ∧ wqf.writeQueue.length ≤ wqf.lowWaterMark ∧ wqf.forceDrain = false then
    { (if wqf.lastDrainEndCycle ≠ 0 then wqf.recordDrain else wqf) with
      drainEndCycle := wqf.sys.now
      requestPerDrain := 0
      lastDrainEndCycle := wqf.sys.now
      draining := false }
  else wqf

/-- Only the write queue is searched. -/
def writesOnly : Bool := wqf.draining || (wqf.forceDrain && wqf.readQueue.isEmpty)

/-- The queue that is searched. -/
def chosenQueue : List NVMainRequest := if wqf.writesOnly then wqf.writeQueue else wqf.readQueue

/-- The searches of `Cycle`, in its order. -/
def finders : List Finder := [.starvedRequest, .rowBufferHit, .cachedAddress, .oldestReadyRequest, .closedBankRequest]

/-- `nextRequest`, with the search that found it and the controller without it. -/
def nextRequest : Option (Finder × NVMainRequest × MemoryController) :=
  finders.findSome? fun finder =>
    ((wqf.searching wqf.chosenQueue).find cfg child finder System.dummyPredicate).map fun found => (finder, found)

/-- The request is taken out of its queue; a write that is no cached address is counted. -/
def take (finder : Finder) (mc : MemoryController) : WriteQueueFirst χ :=
  if wqf.writesOnly then
    { wqf with
      sys := { wqf.sys with mc := mc }
      writeQueue := mc.transactionQueue
      requestPerDrain := if finder = .cachedAddress then wqf.requestPerDrain else addCycles wqf.requestPerDrain 1 }
  else { wqf with sys := { wqf.sys with mc := mc }, readQueue := mc.transactionQueue }

/-- The second half of `Cycle`. -/
def schedule (depth : Nat) : WriteQueueFirst χ :=
  match wqf.nextRequest cfg child with
  | none => wqf
  | some (finder, request, mc) =>
    (wqf.take finder mc).onBase fun sys => (sys.issueMemoryCommands cfg child depth request).1

/-- `Cycle( steps )`. -/
def cycle (depth : Nat) : WriteQueueFirst χ :=
  (wqf.switchDrain.schedule cfg child depth).onBase fun sys =>
    (sys.cycleCommandQueues cfg child).recheckTransactions cfg

/-- `Drain( )`. -/
def drain : WriteQueueFirst χ := { wqf with forceDrain := true }

end WriteQueueFirst

/-! ### Calls -/

/-- A call of a function of the scheduler or of its base class; `environment` is what is around them. -/
inductive DrainCall (χ : Type) where
  | issueCommand (request : NVMainRequest)
  | requestComplete (request : NVMainRequest)
  | cycle (depth : Nat)
  | commandQueueCallback (depth : Nat)
  | refreshCallback (depth : Nat) (refresh : NVMainRequest)
  | cleanupCallback
  | environment (below : χ) (queue : ControllerQueue)
  | drain

namespace WriteQueueFirst

/-- Make the call. -/
def invoke (cfg : Config) (child : Child χ) (wqf : WriteQueueFirst χ) : DrainCall χ → WriteQueueFirst χ
  | .issueCommand request => (wqf.issueCommand cfg request).getD wqf
  | .requestComplete request => wqf.requestComplete request
  | .cycle depth => wqf.cycle cfg child depth
  | .commandQueueCallback depth => wqf.onBase fun sys => sys.commandQueueCallback cfg child depth
  | .refreshCallback depth refresh => wqf.onBase fun sys => sys.refreshCallback cfg child depth refresh
  | .cleanupCallback => wqf.onBase fun sys => sys.cleanupCallback cfg
  | .environment below queue => wqf.onBase fun sys => { sys with child := below, queue := queue }
  | .drain => wqf.drain

end WriteQueueFirst

/-- The drain is not forced. -/
def DrainCall.Unforced : DrainCall χ → Prop
  | .drain => False
  | _ => True

/-! ### What the drain should do -/

/-- The water marks are in order, and inside the write queue. -/
def WriteQueueFirst.MarksOrdered (wqf : WriteQueueFirst χ) : Prop :=
  wqf.lowWaterMark ≤ wqf.highWaterMark ∧ wqf.highWaterMark ≤ wqf.writeQueueSize

instance (wqf : WriteQueueFirst χ) : Decidable wqf.MarksOrdered :=
  inferInstanceAs (Decidable (wqf.lowWaterMark ≤ wqf.highWaterMark ∧ wqf.highWaterMark ≤ wqf.writeQueueSize))

/-- **One call** and the drain: it begins with a full write queue, ends with an empty one, lets no write in and no
read out, and the difference of the lengths of the read queue that is computed at its end does not wrap. -/
structure Hysteresis (cfg : Config) (child : Child χ) (wqf : WriteQueueFirst χ) (call : DrainCall χ) : Prop where
  begins : wqf.draining = false → (wqf.invoke cfg child call).draining = true →
    wqf.highWaterMark ≤ wqf.writeQueue.length
  ends : wqf.draining = true → (wqf.invoke cfg child call).draining = false →
    wqf.writeQueue.length ≤ wqf.lowWaterMark
  refuses : wqf.draining = true → ∀ request, request.type = .write → wqf.issueCommand cfg request = none
  scheduled : ∀ depth finder request mc, call = .cycle depth → wqf.switchDrain.draining = true →
    wqf.switchDrain.nextRequest cfg child = some (finder, request, mc) → request.type ≠ .read
  reads : (wqf.invoke cfg child call).draining = true → wqf.readQueue.IsPrefix (wqf.invoke cfg child call).readQueue
  counts : wqf.draining = true → (wqf.invoke cfg child call).draining = false → wqf.lastDrainEndCycle ≠ 0 →
    (wqf.invoke cfg child call).drainEndReadqueueSize = wqf.readQueue.length ∧
      (wqf.invoke cfg child call).drainStartReadqueueSize ≤ (wqf.invoke cfg child call).drainEndReadqueueSize

/-- The invariant: the drain is not forced, each queue has its own requests, and since the start of a drain the read
queue has not become shorter. -/
structure Draining (wqf : WriteQueueFirst χ) : Prop where
  unforced : wqf.forceDrain = false
  writes : ∀ request ∈ wqf.writeQueue, request.type = .write ∨ request.type = .writePrecharge
  grown : wqf.draining = true → wqf.drainStartReadqueueSize ≤ wqf.readQueue.length

/-! ### The parts of Cycle -/

namespace WriteQueueFirst

variable {request : NVMainRequest}

section Parts

variable {cfg : Config} {child : Child χ} {wqf : WriteQueueFirst χ}

/-- What a function of the base class leaves alone. -/
structure Aside (before after : WriteQueueFirst χ) : Prop where
  draining : after.draining = before.draining
  forceDrain : after.forceDrain = before.forceDrain
  start : after.drainStartReadqueueSize = before.drainStartReadqueueSize
  finish : after.drainEndReadqueueSize = before.drainEndReadqueueSize

theorem Aside.refl (wqf : WriteQueueFirst χ) : Aside wqf wqf := ⟨rfl, rfl, rfl, rfl⟩

theorem take_aside (wqf : WriteQueueFirst χ) (finder : Finder) (mc : MemoryController) :
    Aside wqf (wqf.take finder mc) := by
  unfold take
  split
  · exact ⟨rfl, rfl, rfl, rfl⟩
  · exact ⟨rfl, rfl, rfl, rfl⟩

theorem schedule_aside (depth : Nat) (wqf : WriteQueueFirst χ) : Aside wqf (wqf.schedule cfg child depth) := by
  unfold schedule
  split
  · exact .refl wqf
  · rename_i finder request mc found
    exact ⟨(take_aside wqf finder mc).draining, (take_aside wqf finder mc).forceDrain,
      (take_aside wqf finder mc).start, (take_aside wqf finder mc).finish⟩

theorem nextRequest_picked {finder : Finder} {mc : MemoryController}
    (found : wqf.nextRequest cfg child = some (finder, request, mc)) :
    ∃ front original back, Picked cfg child (wqf.searching wqf.chosenQueue) request mc front original back := by
  obtain ⟨tried, -, result⟩ := List.exists_of_findSome?_eq_some found
  obtain ⟨⟨request', mc'⟩, here, same⟩ := Option.map_eq_some_iff.mp result
  cases same
  exact find_picked here

theorem schedule_writes (depth : Nat) (only : wqf.writesOnly = true) :
    (wqf.schedule cfg child depth).readQueue = wqf.readQueue ∧
      ∀ request ∈ (wqf.schedule cfg child depth).writeQueue, request ∈ wqf.writeQueue := by
  unfold schedule
  split
  · exact ⟨rfl, fun request member => member⟩
  · rename_i finder request mc found
    obtain ⟨front, original, back, picked⟩ := nextRequest_picked found
    have taken : (wqf.take finder mc).readQueue = wqf.readQueue ∧ (wqf.take finder mc).writeQueue = front ++ back := by
      rw [take, if_pos only, picked.rest]
      exact ⟨rfl, rfl⟩
    refine ⟨taken.1, fun waiting member => ?_⟩
    have left : waiting ∈ (wqf.searching wqf.chosenQueue).mc.transactionQueue :=
      picked.left (by rw [← taken.2]; exact member)
    rwa [show (wqf.searching wqf.chosenQueue).mc.transactionQueue = wqf.writeQueue from if_pos only] at left

theorem schedule_reads (depth : Nat) (only : wqf.writesOnly = false) :
    (wqf.schedule cfg child depth).writeQueue = wqf.writeQueue := by
  unfold schedule
  split
  · rfl
  · rename_i finder request mc found
    show (wqf.take finder mc).writeQueue = wqf.writeQueue
    rw [take, if_neg (by rw [only]; exact Bool.false_ne_true)]

theorem schedule_writeQueue (depth : Nat) :
    ∀ request ∈ (wqf.schedule cfg child depth).writeQueue, request ∈ wqf.writeQueue := by
  cases only : wqf.writesOnly with
  | true => exact (schedule_writes depth only).2
  | false => exact fun request member => by rwa [schedule_reads depth only] at member

theorem writesOnly_of_draining (draining : wqf.draining = true) : wqf.writesOnly = true := by
  rw [writesOnly, draining]
  rfl

/-- **The switch**: a drain begins, ends, or nothing changes. -/
theorem switchDrain_cases (wqf : WriteQueueFirst χ) :
    (wqf.draining = false ∧ wqf.highWaterMark ≤ wqf.writeQueue.length ∧ wqf.switchDrain.draining = true ∧
      wqf.switchDrain.drainStartReadqueueSize = wqf.readQueue.length) ∨
    (wqf.draining = true ∧ wqf.writeQueue.length ≤ wqf.lowWaterMark ∧ wqf.switchDrain.draining = false ∧
      wqf.switchDrain.drainStartReadqueueSize = wqf.drainStartReadqueueSize ∧
      (wqf.lastDrainEndCycle ≠ 0 → wqf.switchDrain.drainEndReadqueueSize = wqf.readQueue.length)) ∨
    wqf.switchDrain = wqf := by
  unfold switchDrain
  split
  · rename_i high
    exact Or.inl ⟨high.1, high.2.1, rfl, rfl⟩
  split
  · rename_i low
    refine Or.inr (Or.inl ⟨low.1, low.2.1, rfl, ?_, fun later => ?_⟩)
    · split
      · rfl
      · rfl
    · rw [if_pos later]
      rfl
  · exact Or.inr (Or.inr rfl)

theorem switchDrain_begins (idle : wqf.draining = false) (begun : wqf.switchDrain.draining = true) :
    wqf.highWaterMark ≤ wqf.writeQueue.length := by
  rcases switchDrain_cases wqf with ⟨-, high, -⟩ | ⟨draining, -⟩ | same
  · exact high
  · exact absurd (idle.symm.trans draining) Bool.false_ne_true
  · rw [same] at begun
    exact absurd (idle.symm.trans begun) Bool.false_ne_true

theorem switchDrain_ends (draining : wqf.draining = true) (ended : wqf.switchDrain.draining = false) :
    wqf.writeQueue.length ≤ wqf.lowWaterMark ∧ wqf.switchDrain.drainStartReadqueueSize = wqf.drainStartReadqueueSize ∧
      (wqf.lastDrainEndCycle ≠ 0 → wqf.switchDrain.drainEndReadqueueSize = wqf.readQueue.length) := by
  rcases switchDrain_cases wqf with ⟨idle, -⟩ | ⟨-, low, -, start, finish⟩ | same
  · exact absurd (idle.symm.trans draining) Bool.false_ne_true
  · exact ⟨low, start, finish⟩
  · rw [same] at ended
    exact absurd (ended.symm.trans draining) Bool.false_ne_true

theorem switchDrain_queues (wqf : WriteQueueFirst χ) :
    wqf.switchDrain.readQueue = wqf.readQueue ∧ wqf.switchDrain.writeQueue = wqf.writeQueue ∧
      wqf.switchDrain.forceDrain = wqf.forceDrain := by
  unfold switchDrain
  split
  · exact ⟨rfl, rfl, rfl⟩
  split
  · split
    · exact ⟨rfl, rfl, rfl⟩
    · exact ⟨rfl, rfl, rfl⟩
  · exact ⟨rfl, rfl, rfl⟩

theorem cycle_aside (depth : Nat) (wqf : WriteQueueFirst χ) : Aside wqf.switchDrain (wqf.cycle cfg child depth) :=
  have scheduled := @schedule_aside χ cfg child depth wqf.switchDrain
  ⟨scheduled.draining, scheduled.forceDrain, scheduled.start, scheduled.finish⟩

theorem cycle_readQueue (depth : Nat) (draining : wqf.switchDrain.draining = true) :
    (wqf.cycle cfg child depth).readQueue = wqf.readQueue :=
  (schedule_writes depth (writesOnly_of_draining draining)).1.trans (switchDrain_queues wqf).1

end Parts

/-! ### The invariant -/

section Invariant

variable {cfg : Config} {child : Child χ} {wqf : WriteQueueFirst χ}

theorem setConfig_draining (cfg : Config) (keys : DrainKeys) (below : χ) (queue : ControllerQueue) :
    Draining (setConfig cfg keys below queue) where
  unforced := rfl
  writes _ none := absurd none List.not_mem_nil
  grown draining := absurd draining Bool.false_ne_true

theorem issueCommand_refuses (draining : wqf.draining = true)
    (write : request.type = .write) : wqf.issueCommand cfg request = none := by
  have closed : wqf.isIssuable request = false := by simp [isIssuable, write, draining]
  rw [issueCommand, closed]
  rfl

theorem issueCommand_cases (request : NVMainRequest) :
    (wqf.issueCommand cfg request).getD wqf = wqf ∨
    (wqf.issueCommand cfg request).getD wqf =
      { wqf.enqueue cfg request with readQueue := wqf.readQueue ++ [wqf.arriving cfg request] } ∨
    (request.type = .write ∧ (wqf.issueCommand cfg request).getD wqf =
      { wqf.enqueue cfg request with writeQueue := wqf.writeQueue ++ [wqf.arriving cfg request] }) := by
  unfold issueCommand
  split
  · exact Or.inl rfl
  split
  · exact Or.inr (Or.inl rfl)
  · exact Or.inr (Or.inr ⟨by assumption, rfl⟩)
  · exact Or.inl rfl

theorem issueCommand_draining (request : NVMainRequest) (inv : Draining wqf) :
    Draining ((wqf.issueCommand cfg request).getD wqf) := by
  rcases @issueCommand_cases χ cfg wqf request with same | read | ⟨write, written⟩
  · rwa [same]
  · rw [read]
    refine ⟨inv.unforced, inv.writes, fun draining => (inv.grown draining).trans ?_⟩
    simp
  · rw [written]
    refine ⟨inv.unforced, fun waiting member => ?_, inv.grown⟩
    rcases List.mem_append.mp member with old | new
    · exact inv.writes waiting old
    · rw [List.mem_singleton.mp new]
      exact Or.inl write

theorem requestComplete_draining (request : NVMainRequest) (inv : Draining wqf) :
    Draining (wqf.requestComplete request) := by
  unfold requestComplete
  split
  · rename_i back
    refine ⟨inv.unforced, fun waiting member => ?_, inv.grown⟩
    rcases List.mem_cons.mp member with rfl | old
    · exact back.1
    · exact inv.writes waiting old
  · exact inv

theorem cycle_draining (depth : Nat) (inv : Draining wqf) : Draining (wqf.cycle cfg child depth) := by
  have aside := @cycle_aside χ cfg child depth wqf
  obtain ⟨reads, writes, force⟩ := switchDrain_queues wqf
  refine ⟨?_, fun request member => ?_, fun draining => ?_⟩
  · rw [aside.forceDrain, force]
    exact inv.unforced
  · have before := schedule_writeQueue depth request member
    rw [writes] at before
    exact inv.writes request before
  · rw [aside.draining] at draining
    rw [aside.start, cycle_readQueue depth draining]
    rcases switchDrain_cases wqf with ⟨-, -, -, start⟩ | ⟨-, -, ended, -⟩ | same
    · exact start.le
    · exact absurd (ended.symm.trans draining) Bool.false_ne_true
    · rw [same] at draining ⊢
      exact inv.grown draining

/-- **Every call** but `Drain( )` keeps the invariant. -/
theorem invoke_draining (wqf : WriteQueueFirst χ) (call : DrainCall χ) (unforced : call.Unforced)
    (inv : Draining wqf) : Draining (wqf.invoke cfg child call) := by
  cases call with
  | issueCommand request => exact issueCommand_draining request inv
  | requestComplete request => exact requestComplete_draining request inv
  | cycle depth => exact cycle_draining depth inv
  | drain => exact unforced.elim
  | _ => exact ⟨inv.unforced, inv.writes, inv.grown⟩

/-! ### Hysteresis -/

theorem invoke_switch (call : DrainCall χ) :
    (∃ depth, call = .cycle depth) ∨
      (wqf.invoke cfg child call).draining = wqf.draining ∧
        wqf.readQueue.IsPrefix (wqf.invoke cfg child call).readQueue := by
  cases call with
  | issueCommand request =>
    right
    show ((wqf.issueCommand cfg request).getD wqf).draining = wqf.draining ∧
      wqf.readQueue.IsPrefix ((wqf.issueCommand cfg request).getD wqf).readQueue
    rcases @issueCommand_cases χ cfg wqf request with same | read | ⟨-, written⟩
    · rw [same]
      exact ⟨rfl, List.prefix_refl _⟩
    · rw [read]
      exact ⟨rfl, List.prefix_append ..⟩
    · rw [written]
      exact ⟨rfl, List.prefix_refl _⟩
  | requestComplete request =>
    right
    show (wqf.requestComplete request).draining = wqf.draining ∧
      wqf.readQueue.IsPrefix (wqf.requestComplete request).readQueue
    unfold requestComplete
    split
    · exact ⟨rfl, List.prefix_refl _⟩
    · exact ⟨rfl, List.prefix_refl _⟩
  | cycle depth => exact Or.inl ⟨depth, rfl⟩
  | _ => exact Or.inr ⟨rfl, List.prefix_refl _⟩

theorem nextRequest_write (inv : Draining wqf) (draining : wqf.switchDrain.draining = true) {finder : Finder}
    {mc : MemoryController}
    (found : wqf.switchDrain.nextRequest cfg child = some (finder, request, mc)) : request.type ≠ .read := by
  obtain ⟨front, original, back, picked⟩ := nextRequest_picked found
  have waiting : original ∈ wqf.switchDrain.chosenQueue := picked.member
  rw [chosenQueue, if_pos (writesOnly_of_draining draining), (switchDrain_queues wqf).2.1] at waiting
  have type : request.type = original.type := by rw [picked.same]
  rw [type]
  rcases inv.writes original waiting with write | write
  · rw [write]
    exact OpType.noConfusion
  · rw [write]
    exact OpType.noConfusion

/-- **One call** from a state with the invariant. -/
theorem invoke_hysteresis (wqf : WriteQueueFirst χ) (call : DrainCall χ) (inv : Draining wqf) :
    Hysteresis cfg child wqf call := by
  have scheduled : ∀ depth finder request mc, call = .cycle depth → wqf.switchDrain.draining = true →
      wqf.switchDrain.nextRequest cfg child = some (finder, request, mc) → request.type ≠ .read :=
    fun _ _ _ _ _ draining found => nextRequest_write inv draining found
  have refuses : wqf.draining = true → ∀ request, request.type = .write → wqf.issueCommand cfg request = none :=
    fun draining _ write => issueCommand_refuses draining write
  rcases @invoke_switch χ cfg child wqf call with ⟨depth, rfl⟩ | ⟨same, reads⟩
  · have aside := @cycle_aside χ cfg child depth wqf
    have after : (wqf.invoke cfg child (.cycle depth)).draining = wqf.switchDrain.draining := aside.draining
    refine ⟨fun idle begun => switchDrain_begins idle (after ▸ begun),
      fun draining ended => (switchDrain_ends draining (after ▸ ended)).1, refuses, scheduled, fun draining => ?_,
      fun draining ended later => ?_⟩
    · have same : (wqf.cycle cfg child depth).readQueue = wqf.readQueue := cycle_readQueue depth (after ▸ draining)
      exact ⟨[], (List.append_nil _).trans same.symm⟩
    · obtain ⟨-, start, finish⟩ := switchDrain_ends draining (after ▸ ended)
      show (wqf.cycle cfg child depth).drainEndReadqueueSize = _ ∧
        (wqf.cycle cfg child depth).drainStartReadqueueSize ≤ (wqf.cycle cfg child depth).drainEndReadqueueSize
      rw [aside.start, aside.finish, start, finish later]
      exact ⟨rfl, inv.grown draining⟩
  · refine ⟨fun idle begun => ?_, fun draining ended => ?_, refuses, scheduled, fun _ => reads,
      fun draining ended _ => ?_⟩
    · exact absurd (idle.symm.trans (same.symm.trans begun)) Bool.false_ne_true
    · exact absurd (ended.symm.trans (same.trans draining)) Bool.false_ne_true
    · exact absurd (ended.symm.trans (same.trans draining)) Bool.false_ne_true

end Invariant

/-- **The sanity check** puts the marks in order unless both are above the size of the write queue. -/
theorem setConfig_marksOrdered_iff (cfg : Config) (keys : DrainKeys) (below : χ) (queue : ControllerQueue) :
    (setConfig cfg keys below queue).MarksOrdered ↔ ¬(keys.high > keys.size ∧ keys.low > keys.size) := by
  show (if keys.high > keys.size then keys.low else if keys.low > keys.high then 0 else keys.low) ≤
      (if keys.high > keys.size then keys.size else keys.high) ∧
    (if keys.high > keys.size then keys.size else keys.high) ≤ keys.size ↔ _
  split
  · rename_i high
    exact ⟨fun ordered both => absurd ordered.1 (Nat.not_le.mpr both.2),
      fun fits => ⟨Nat.not_lt.mp fun low => fits ⟨high, low⟩, le_rfl⟩⟩
  · rename_i fits
    refine ⟨fun _ both => fits both.1, fun _ => ⟨?_, Nat.not_lt.mp fits⟩⟩
    split
    · exact Nat.zero_le _
    · rename_i low
      exact Nat.not_lt.mp low

end WriteQueueFirst

/-- **The write drain.** The marks are in order after `SetConfig`, and every call of every run in which the drain is
not forced keeps to the hysteresis, if and only if not both the high and the low mark were configured above the size of
the write queue. -/
theorem marks_hysteresis_iff (cfg : Config) (keys : DrainKeys) (child : Child χ) (below : χ) (queue : ControllerQueue) :
    ((WriteQueueFirst.setConfig cfg keys below queue).MarksOrdered ∧
      ∀ calls : List (DrainCall χ), (∀ call ∈ calls, call.Unforced) →
        AllowedRun (WriteQueueFirst.invoke cfg child) (Hysteresis cfg child)
          (WriteQueueFirst.setConfig cfg keys below queue) calls) ↔
      ¬(keys.high > keys.size ∧ keys.low > keys.size) := by
  rw [WriteQueueFirst.setConfig_marksOrdered_iff]
  refine ⟨fun both => both.1, fun fits => ⟨fits, fun calls unforced => ?_⟩⟩
  suffices ∀ wqf : WriteQueueFirst χ, Draining wqf →
      AllowedRun (WriteQueueFirst.invoke cfg child) (Hysteresis cfg child) wqf calls from
    this _ (WriteQueueFirst.setConfig_draining cfg keys below queue)
  induction calls with
  | nil => exact fun _ _ => trivial
  | cons call rest ih =>
    intro wqf inv
    exact ⟨WriteQueueFirst.invoke_hysteresis wqf call inv,
      ih (fun other member => unforced other (.tail _ member)) _
        (WriteQueueFirst.invoke_draining wqf call (unforced call (List.mem_cons_self ..)) inv)⟩

/-- Both marks are above the size of the write queue; the high mark is lowered, the low mark is not. -/
theorem low_mark_kept :
    let wqf := WriteQueueFirst.setConfig (smallConfig .perBank 0) ⟨none, some 8, some 16, some 12⟩ () .create
    wqf.writeQueueSize = 8 ∧ wqf.highWaterMark = 8 ∧ wqf.lowWaterMark = 12 ∧ ¬wqf.MarksOrdered := by
  decide

end Emas.Nvmain

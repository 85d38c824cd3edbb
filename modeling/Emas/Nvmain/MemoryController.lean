/-
**The operations of the memory controller and of its FR-FCFS scheduler.**

`src/MemoryController.cpp` and `MemControl/FRFCFS/FRFCFS.cpp`, function by function.

* `ScheduleCommandWake`, `NextIssuable` and `HandleRefresh` call each other. The `...With` functions
  are their bodies with the call left open, and `handleRefresh` ties the knot to a given depth; below
  it the model sets `outOfDepth`.
* `cycleCommandQueues` is `selectQueue`, its loop, followed by `issueHead`, what it does with the queue
  it stops at.
-/

import Emas.Nvmain.RequestSearch

namespace Emas.Nvmain

open Table

variable {χ : Type}

/-! ### Making commands -/

/-- `MakePrechargeRequest( triggerRequest )`. -/
def makePrechargeRequest (cfg : Config) (row col bank rank subarray now : Nat) : NVMainRequest :=
  .make .precharge (cfg.reverseTranslate row col bank rank subarray) now

/-- `MakePrechargeAllRequest( triggerRequest )`. -/
def makePrechargeAllRequest (cfg : Config) (row col bank rank subarray now : Nat) : NVMainRequest :=
  .make .prechargeAll (cfg.reverseTranslate row col bank rank subarray) now

/-- `MakeRefreshRequest( row, col, bank, rank, subarray )`. -/
def makeRefreshRequest (cfg : Config) (row col bank rank subarray now : Nat) : NVMainRequest :=
  .make .refresh (cfg.reverseTranslate row col bank rank subarray) now

/-- `MakeImplicitPrechargeRequest( triggerRequest )`: the trigger itself, with another type. -/
def makeImplicitPrechargeRequest (trigger : NVMainRequest) (now : Nat) : NVMainRequest :=
  { trigger with
    type :=
      match trigger.type with
      | .read => .readPrecharge
      | .write => .writePrecharge
      | type => type
    issueCycle := now }

namespace MemoryController

variable (cfg : Config) (mc : MemoryController)

/-! ### Writing the bookkeeping -/

def setQueue (queueId : Nat) (commands : List NVMainRequest) : MemoryController :=
  { mc with commandQueues := set1 mc.commandQueues queueId commands }

/-- `commandQueues[queueId].push_back( request )`. -/
def pushBack (queueId : Nat) (request : NVMainRequest) : MemoryController :=
  mc.setQueue queueId (mc.commandQueues queueId ++ [request])

def openRow (address : NVMAddress) : MemoryController :=
  { mc with
    activeSubArray := set3 mc.activeSubArray address.rank address.bank address.subarray true
    effectiveRow := set3 mc.effectiveRow address.rank address.bank address.subarray address.row
    effectiveMuxedRow := set3 mc.effectiveMuxedRow address.rank address.bank address.subarray (muxLevel cfg address) }

/-- The subarray becomes inactive, with the invalid row. -/
def closeRow (rank bank subarray : Nat) : MemoryController :=
  { mc with
    activeSubArray := set3 mc.activeSubArray rank bank subarray false
    effectiveRow := set3 mc.effectiveRow rank bank subarray cfg.rows
    effectiveMuxedRow := set3 mc.effectiveMuxedRow rank bank subarray cfg.rows }

def setActivateQueued (rank bank : Nat) (value : Bool) : MemoryController :=
  { mc with activateQueued := set2 mc.activateQueued rank bank value }

def setStarvationCounter (address : NVMAddress) (value : Nat) : MemoryController :=
  { mc with
    starvationCounter := set3 mc.starvationCounter address.rank address.bank address.subarray value }

/-- `assert( condition )`. -/
def check (assertion : Assertion) (condition : Bool) : MemoryController :=
  if condition then mc else { mc with failedAsserts := mc.failedAsserts ++ [assertion] }

/-! ### IssueMemoryCommands -/

/-- No subarray of the bank is active (`idle`). -/
def bankIdle (rank bank : Nat) : Bool :=
  (List.range cfg.subArrayNum).all fun subarray => !mc.activeSubArray rank bank subarray

/-- The branch of `IssueMemoryCommands` for a closed bank. -/
def queueClosedBank (request : NVMainRequest) (writing : Bool) (now : Nat) : MemoryController :=
  let address := request.address
  let queueId := cfg.getCommandQueueId address
  let mc := ((mc.setActivateQueued address.rank address.bank true).openRow cfg address ).setStarvationCounter address 0
  let request := { request with issueCycle := now }
  let mc := mc.pushBack queueId (makeActivateRequest request writing now)
  if request.lastRequest && cfg.usePrecharge then
    ((mc.pushBack queueId (makeImplicitPrechargeRequest request now)).closeRow cfg address.rank
      address.bank address.subarray).setActivateQueued address.rank address.bank false
  else mc.pushBack queueId request

/-- The branch of `IssueMemoryCommands` for an open bank with another row, or none, in the
subarray. -/
def queueRowMiss (request : NVMainRequest) (writing : Bool) (now : Nat) : MemoryController :=
  let address := request.address
  let queueId := cfg.getCommandQueueId address
  let mc := (mc.setStarvationCounter address 0).setActivateQueued address.rank address.bank true
  let request := { request with issueCycle := now }
  let mc :=
    if mc.activeSubArray address.rank address.bank address.subarray && cfg.usePrecharge then
      mc.pushBack queueId (makePrechargeRequest cfg
        (mc.effectiveRow address.rank address.bank address.subarray) 0 address.bank address.rank address.subarray now)
    else mc
  ((mc.pushBack queueId (makeActivateRequest request writing now)).pushBack queueId request).openRow cfg address

def releaseRow (rank bank subarray : Nat) : MemoryController :=
  let mc := mc.closeRow cfg rank bank subarray
  if mc.bankIdle cfg rank bank then mc.setActivateQueued rank bank false else mc

/-- The branch of `IssueMemoryCommands` for a row buffer hit. -/
def queueRowHit (request : NVMainRequest) (now : Nat) : MemoryController :=
  let address := request.address
  let queueId := cfg.getCommandQueueId address
  let mc := mc.setStarvationCounter address (mc.starvationCounter address.rank address.bank address.subarray + 1)
  let request := { request with issueCycle := now }
  if request.lastRequest && cfg.usePrecharge then
    let mc := mc.check .closePage (cfg.closePage ≠ 2)
    (mc.pushBack queueId (makeImplicitPrechargeRequest request now)).releaseRow cfg address.rank
      address.bank address.subarray
  else mc.pushBack queueId request

/-- How `IssueMemoryCommands` gets to its end: by the early return for a cached address, with
`rv = true`, or with `rv = false`. -/
inductive Queued where
  | cached
  | queued
  | refused
  deriving DecidableEq, Repr

/-- `IssueMemoryCommands( req )` up to the call of `ScheduleCommandWake`. `cached` is the answer of the
child to the cached request, `writing` that of the subarray to `IsWriting( )`. -/
def queueCommands (request : NVMainRequest) (cached writing : Bool) (now : Nat) : MemoryController × Queued :=
  let address := request.address
  let empty := (mc.commandQueues (cfg.getCommandQueueId address)).isEmpty
  if cached && !mc.rowHit cfg address then
    (mc.pushBack (cfg.getCommandQueueId address) { request with issueCycle := now }, .cached)
  else if !mc.activateQueued address.rank address.bank && empty then
    (mc.queueClosedBank cfg request writing now, .queued)
  else if mc.rowMiss cfg address && empty then
    (mc.queueRowMiss cfg request writing now, .queued)
  else if mc.rowHit cfg address then
    (mc.queueRowHit cfg request now, .queued)
  else (mc, .refused)

/-! ### Refresh -/

/-- `NeedRefresh( bank, rank )`. -/
def needRefresh (bank rank : Nat) : Bool :=
  cfg.useRefresh && decide (mc.delayedRefreshCounter rank (bank / cfg.banksPerRefresh) ≥ cfg.delayedRefreshThreshold)

def bankHead (bank : Nat) : Nat := bank / cfg.banksPerRefresh * cfg.banksPerRefresh

def setGroup (flags : Nat → Nat → Bool) (bank rank : Nat) (value : Bool) : Nat → Nat → Bool :=
  (List.range cfg.banksPerRefresh).foldl (fun flags i => set2 flags rank (bankHead cfg bank + i) value) flags

/-- `SetRefresh( bank, rank )`. -/
def setRefresh (bank rank : Nat) : MemoryController :=
  { mc with bankNeedRefresh := setGroup cfg mc.bankNeedRefresh bank rank true }

/-- `ResetRefresh( bank, rank )`. -/
def resetRefresh (bank rank : Nat) : MemoryController :=
  { mc with bankNeedRefresh := setGroup cfg mc.bankNeedRefresh bank rank false }

/-- `ResetRefreshQueued( bank, rank )`: the flag must be set for each bank of the group. -/
def resetRefreshQueued (bank rank : Nat) : MemoryController :=
  (List.range cfg.banksPerRefresh).foldl (fun mc i =>
    let mc := mc.check .refreshQueued (mc.refreshQueued rank (bankHead cfg bank + i))
    { mc with refreshQueued := set2 mc.refreshQueued rank (bankHead cfg bank + i) false }) mc

/-- `IncrementRefreshCounter( bank, rank )`. -/
def incrementRefreshCounter (bank rank : Nat) : MemoryController :=
  { mc with
    delayedRefreshCounter := set2 mc.delayedRefreshCounter rank (bank / cfg.banksPerRefresh)
      (addCycles (mc.delayedRefreshCounter rank (bank / cfg.banksPerRefresh)) 1) }

/-- `DecrementRefreshCounter( bank, rank )`. -/
def decrementRefreshCounter (bank rank : Nat) : MemoryController :=
  { mc with
    delayedRefreshCounter := set2 mc.delayedRefreshCounter rank (bank / cfg.banksPerRefresh)
      (subCycles (mc.delayedRefreshCounter rank (bank / cfg.banksPerRefresh)) 1) }

/-- `IsRefreshBankQueueEmpty( bank, rank )`. -/
def isRefreshBankQueueEmpty (bank rank : Nat) : Bool :=
  (List.range cfg.banksPerRefresh).all fun i =>
    mc.effectivelyEmpty (cfg.getCommandQueueId (.translated 0 0 (bankHead cfg bank + i) rank 0))

/-- The ranks and banks `HandleRefresh` looks at, in its round-robin order. -/
def refreshCandidates : List (Nat × Nat) :=
  (List.range cfg.ranks).flatMap fun rankIdx =>
    (List.range cfg.refreshBankNum).map fun bankIdx =>
      ((mc.nextRefreshRank + rankIdx) % cfg.ranks, (mc.nextRefreshBank + bankIdx * cfg.banksPerRefresh) % cfg.banks)

/-- The rank and bank `HandleRefresh` refreshes, if any needs it. -/
def refreshTarget : Option (Nat × Nat) :=
  (mc.refreshCandidates cfg).find? fun target => mc.needRefresh cfg target.2 target.1

/-- The `tmpBank`-th bank of the group that starts at bank `j`. -/
def refBank (j tmpBank : Nat) : Nat := (tmpBank + j) % cfg.banks

/-- One turn of the precharge loop of `HandleRefresh`, for an active bank. -/
def prechargeBank (rank bank now : Nat) : MemoryController :=
  if mc.activateQueued rank bank then
    let mc := mc.pushBack (cfg.getCommandQueueId (.translated 0 0 bank rank 0))
      (makePrechargeAllRequest cfg 0 0 bank rank 0 now)
    ((List.range cfg.subArrayNum).foldl (fun mc subarray => mc.closeRow cfg rank bank subarray)
      mc).setActivateQueued rank bank false
  else mc

/-- The precharge loop of `HandleRefresh`. -/
def prechargeGroup (i j now : Nat) : MemoryController :=
  if cfg.usePrecharge then
    (List.range cfg.banksPerRefresh).foldl (fun mc tmpBank =>
      mc.prechargeBank cfg i (refBank cfg j tmpBank) now) mc
  else mc

/-- `refreshQueued` for the banks of the group. -/
def markRefreshQueued (i j : Nat) : MemoryController :=
  { mc with
    refreshQueued := (List.range cfg.banksPerRefresh).foldl (fun flags tmpBank =>
      set2 flags i (refBank cfg j tmpBank) true) mc.refreshQueued }

/-- The round-robin step at the end of `HandleRefresh`. -/
def advanceRefresh : MemoryController :=
  let nextRefreshBank := mc.nextRefreshBank + cfg.banksPerRefresh
  if nextRefreshBank ≥ cfg.banks then
    { mc with
      nextRefreshBank := 0
      nextRefreshRank := if mc.nextRefreshRank + 1 = cfg.ranks then 0 else mc.nextRefreshRank + 1 }
  else { mc with nextRefreshBank := nextRefreshBank }

/-- The body of `HandleRefresh` for rank `i` and bank `j`, up to the call of `ScheduleCommandWake`. -/
def queueRefresh (i j now : Nat) : MemoryController :=
  let cmdRefresh := makeRefreshRequest cfg 0 0 j i 0 now
  let mc := mc.prechargeGroup cfg i j now
  let mc := mc.pushBack (cfg.getCommandQueueId (.translated 0 0 j i 0)) cmdRefresh
  let mc := (mc.markRefreshQueued cfg i j).decrementRefreshCounter cfg j i
  let mc := if mc.needRefresh cfg j i then mc else mc.resetRefresh cfg j i
  { mc.advanceRefresh cfg with handledRefresh := now }

/-- The head of the queue has been issued: it is flagged, its refresh is not queued any more, and the
cycle is noted. -/
def markIssued (queueId : Nat) (queueHead : NVMainRequest) (rest : List NVMainRequest) (now : Nat) :
    MemoryController :=
  let mc := mc.setQueue queueId ({ queueHead with issued := true } :: rest)
  let mc :=
    if queueHead.type = .refresh then
      mc.resetRefreshQueued cfg queueHead.address.bank queueHead.address.rank
    else mc
  { mc with lastIssueCycle := now }

/-- `MoveCurrentQueue( )`. -/
def moveCurrentQueue : MemoryController :=
  if cfg.scheduleScheme ≠ 0 then
    { mc with curQueue := if mc.curQueue + 1 > cfg.commandQueueCount then 0 else mc.curQueue + 1 }
  else mc

/-- `CleanupCallback( )`. -/
def cleanup : MemoryController :=
  { mc with
    commandQueues := fun queueId =>
      if queueId < cfg.commandQueueCount then (mc.commandQueues queueId).filter (!·.issued)
      else mc.commandQueues queueId }

variable {cfg mc}

theorem mem_of_mem_cleanup {queueId : Nat} {command : NVMainRequest}
    (member : command ∈ (mc.cleanup cfg).commandQueues queueId) : command ∈ mc.commandQueues queueId := by
  unfold cleanup at member
  dsimp only at member
  split at member
  · exact List.mem_of_mem_filter member
  · exact member

end MemoryController

namespace System

variable (cfg : Config) (child : Child χ)

/-! ### Wakeups and HandleRefresh -/

/-- Run operations of the child on the event queue. -/
def applyOps (sys : System χ) (ops : List (QueueOp ControllerMethod NVMainRequest)) : System χ :=
  { sys with queue := sys.queue.applyOps ops }

/-- The ranks and banks `NextIssuable` looks at, in order. -/
def rankBanks : List (Nat × Nat) :=
  (List.range cfg.ranks).flatMap fun rankIdx => (List.range cfg.banks).map fun bankIdx =>
    (rankIdx, bankIdx)

/-- "Give refresh priority": the first half of a turn of the loop of `NextIssuable`. -/
def refreshFirst (handleRefresh : System χ → System χ) (state : System χ × Nat)
    (rankIdx bankIdx : Nat) : System χ × Nat :=
  let sys := state.1
  if sys.mc.needRefresh cfg bankIdx rankIdx && sys.mc.isRefreshBankQueueEmpty cfg bankIdx rankIdx then
    if sys.mc.lastIssueCycle ≠ sys.now then (handleRefresh sys, state.2)
    else (sys, addCycles sys.now 1)
  else state

/-- One turn of the loop of `NextIssuable`. -/
def nextIssuableStep (handleRefresh : System χ → System χ) (state : System χ × Nat)
    (rankBank : Nat × Nat) : System χ × Nat :=
  let queueIdx := cfg.getCommandQueueId (.translated 0 0 rankBank.2 rankBank.1 0)
  let state := refreshFirst cfg handleRefresh state rankBank.1 rankBank.2
  let sys := state.1
  (sys,
    match sys.mc.commandQueues queueIdx with
    | [] => state.2
    | queueHead :: _ => min state.2 (child.nextIssuable sys.child sys.now queueHead))

/-- `NextIssuable( )`. -/
def nextIssuableWith (handleRefresh : System χ → System χ) (sys : System χ) : System χ × Nat :=
  let (sys, nextWakeup) := (rankBanks cfg).foldl (nextIssuableStep cfg child handleRefresh) (sys, maxCycle)
  (sys, if nextWakeup ≤ sys.now then addCycles sys.now 1 else nextWakeup)

/-- Whether the callback of the controller is in the event queue at a cycle. -/
def callbackScheduled (sys : System χ) (method : ControllerMethod) (when : Nat) (priority : Int) :
    Bool :=
  (sys.queue.findCallback cfg.self method when none priority).isSome

/-- `GetEventQueue( )->InsertCallback( this, method, when, NULL, priority )`. -/
def insertCallback (sys : System χ) (method : ControllerMethod) (when : Nat) (priority : Int) : System χ :=
  { sys with queue := sys.queue.insertCallback cfg.self method when none priority }

/-- `GetEventQueue( )->InsertEvent( EventCycle, this, when, NULL, transactionQueuePriority )`. -/
def insertCycle (sys : System χ) (when : Nat) : System χ :=
  { sys with
    queue := sys.queue.insertEventFor .cycle cfg.self none when none transactionQueuePriority }

/-- `ScheduleCommandWake( )`. -/
def scheduleCommandWakeWith (handleRefresh : System χ → System χ) (sys : System χ) : System χ :=
  let (sys, nextWakeup) := nextIssuableWith cfg child handleRefresh sys
  if sys.callbackScheduled cfg .commandQueueCallback nextWakeup commandQueuePriority then sys
  else sys.insertCallback cfg .commandQueueCallback nextWakeup commandQueuePriority

/-- `HandleRefresh( )` up to its call of `ScheduleCommandWake`; nothing if no group needs a
refresh. -/
def startRefresh (sys : System χ) : System χ :=
  match sys.mc.refreshTarget cfg with
  | none => sys
  | some (i, j) => { sys with mc := sys.mc.queueRefresh cfg i j sys.now }

/-- `HandleRefresh( )`. -/
def handleRefreshWith (scheduleCommandWake : System χ → System χ) (sys : System χ) : System χ × Bool :=
  match sys.mc.refreshTarget cfg with
  | none => (sys, false)
  | some _ => (scheduleCommandWake (sys.startRefresh cfg), true)

/-- `HandleRefresh( )`, nested at most `depth` deep. -/
def handleRefresh : Nat → System χ → System χ × Bool
  | 0, sys => ({ sys with mc := { sys.mc with outOfDepth := true } }, false)
  | depth + 1, sys =>
    handleRefreshWith cfg (scheduleCommandWakeWith cfg child fun sys => (handleRefresh depth sys).1) sys

/-- `NextIssuable( request )`. -/
def nextIssuable (depth : Nat) (sys : System χ) : System χ × Nat :=
  nextIssuableWith cfg child (fun sys => (handleRefresh cfg child depth sys).1) sys

/-- `ScheduleCommandWake( )`. -/
def scheduleCommandWake (depth : Nat) (sys : System χ) : System χ :=
  scheduleCommandWakeWith cfg child (fun sys => (handleRefresh cfg child depth sys).1) sys

/-! ### Issuing commands -/

/-- `IssueMemoryCommands( req )` up to its call of `ScheduleCommandWake`. -/
def startCommands (sys : System χ) (request : NVMainRequest) : System χ × MemoryController.Queued :=
  let cached := child.isIssuable sys.child sys.now (makeCachedRequest request)
  let writing := ((child.findSubArray sys.child request).map SubArrayStatus.isWriting).getD false
  let (mc, result) := sys.mc.queueCommands cfg request cached writing sys.now
  ({ sys with mc := mc }, result)

/-- `IssueMemoryCommands( req )`. -/
def issueMemoryCommands (depth : Nat) (sys : System χ) (request : NVMainRequest) : System χ × Bool :=
  match sys.startCommands cfg child request with
  | (sys, .cached) => (sys, true)
  | (sys, .queued) => (sys.scheduleCommandWake cfg child depth, true)
  | (sys, .refused) => (sys, false)

/-- How the loop of `CycleCommandQueues` ends. -/
inductive Selection where
  | idle
  | issue (queueId : Nat)
  | deadlock
  deriving DecidableEq, Repr

/-- The loop of `CycleCommandQueues` over the queue numbers. -/
def selectQueue (sys : System χ) : List Nat → Selection
  | [] => .idle
  | queueId :: rest =>
    match sys.mc.commandQueues queueId with
    | [] => selectQueue sys rest
    | queueHead :: _ =>
      if sys.mc.lastIssueCycle ≠ sys.now && child.isIssuable sys.child sys.now queueHead then
        .issue queueId
      else if subCycles sys.now queueHead.issueCycle > cfg.deadlockTimer then .deadlock
      else selectQueue sys rest

/-- `GetChild( )->IssueCommand( queueHead )`. -/
def sendCommand (sys : System χ) (queueHead : NVMainRequest) : System χ :=
  let (below, ops) := child.issueCommand sys.child sys.queue queueHead
  { sys with child := below, sent := sys.sent ++ [queueHead] }.applyOps ops

/-- Schedule the callback for the next cycle if it is not. -/
def scheduleCleanup (sys : System χ) : System χ :=
  if sys.callbackScheduled cfg .cleanupCallback (addCycles sys.now 1) cleanupPriority then sys
  else sys.insertCallback cfg .cleanupCallback (addCycles sys.now 1) cleanupPriority

/-- Wake the scheduler in the next cycle if the command was the only one of its queue and there is a
transaction for the queue. -/
def wakeTransactions (sys : System χ) (queueId : Nat) (only : Bool) : System χ :=
  if only && sys.mc.transactionAvailable cfg queueId then sys.insertCycle cfg (addCycles sys.now 1)
  else sys

/-- What `CycleCommandQueues` does with the head of the queue it stops at. -/
def issueHead (sys : System χ) (queueId : Nat) : System χ :=
  match sys.mc.commandQueues queueId with
  | [] => sys
  | queueHead :: rest =>
    let sys := sys.sendCommand child queueHead
    let sys := { sys with mc := sys.mc.markIssued cfg queueId queueHead rest sys.now }
    let sys := (sys.scheduleCleanup cfg).wakeTransactions cfg queueId rest.isEmpty
    { sys with mc := sys.mc.moveCurrentQueue cfg }

/-- The queue numbers in the order of `CycleCommandQueues`. -/
def queueOrder (mc : MemoryController) : List Nat :=
  (List.range cfg.commandQueueCount).map fun queueIdx =>
    (mc.curQueue + queueIdx) % cfg.commandQueueCount

/-- `CycleCommandQueues( )`. -/
def cycleCommandQueues (sys : System χ) : System χ :=
  if sys.mc.handledRefresh = sys.now then sys
  else
    match sys.selectQueue cfg child (queueOrder cfg sys.mc) with
    | .idle => sys
    | .issue queueId => sys.issueHead cfg child queueId
    | .deadlock => { sys with mc := { sys.mc with deadlocked := true } }

/-! ### Callbacks -/

/-- `GetChild( )->Cycle( steps )`. -/
def cycleChild (sys : System χ) (steps : Nat) : System χ :=
  let (below, ops) := child.cycle sys.child sys.queue steps
  { sys with child := below }.applyOps ops

/-- The controller notes the cycle of a wakeup. -/
def noteWake (sys : System χ) : System χ :=
  { sys with mc := { sys.mc with lastCommandWake := sys.now } }

/-- `CommandQueueCallback( data )`. -/
def commandQueueCallback (depth : Nat) (sys : System χ) : System χ :=
  let realSteps := subCycles sys.now sys.mc.lastCommandWake
  let (sys, nextWakeup) := sys.noteWake.nextIssuable cfg child depth
  let sys :=
    if !sys.callbackScheduled cfg .commandQueueCallback nextWakeup commandQueuePriority && nextWakeup ≠ maxCycle then
      sys.insertCallback cfg .commandQueueCallback nextWakeup commandQueuePriority
    else sys
  (sys.cycleCommandQueues cfg child).cycleChild child realSteps

/-- `ProcessRefreshPulse( refresh )`, less the new pulse. -/
def countRefresh (sys : System χ) (refresh : NVMainRequest) : System χ :=
  let bank := refresh.address.bank
  let rank := refresh.address.rank
  let mc := sys.mc.incrementRefreshCounter cfg bank rank
  { sys with mc := if mc.needRefresh cfg bank rank then mc.setRefresh cfg bank rank else mc }

/-- `ProcessRefreshPulse( refresh )`. -/
def processRefreshPulse (sys : System χ) (refresh : NVMainRequest) : System χ :=
  let sys := sys.countRefresh cfg refresh
  { sys with
    queue := sys.queue.insertCallback cfg.self .refreshCallback (addCycles sys.now cfg.tREFI)
      (some refresh) refreshPriority }

/-- `RefreshCallback( data )`. -/
def refreshCallback (depth : Nat) (sys : System χ) (refresh : NVMainRequest) : System χ :=
  let realSteps := subCycles sys.now sys.mc.lastCommandWake
  let sys := sys.noteWake.processRefreshPulse cfg refresh
  ((sys.handleRefresh cfg child depth).1).cycleChild child realSteps

/-- `CleanupCallback( data )`. -/
def cleanupCallback (sys : System χ) : System χ := { sys with mc := sys.mc.cleanup cfg }

/-! ### Transactions -/

/-- `Prequeue( queueNum, request )`. -/
def prequeue (sys : System χ) (request : NVMainRequest) : System χ :=
  { sys with mc := sys.mc.setTransactionQueue (request :: sys.mc.transactionQueue) }

/-- `Enqueue( queueNum, request )`. -/
def enqueue (sys : System χ) (request : NVMainRequest) : System χ :=
  let request := { request with address := cfg.translate request.address.physical }
  let sys := { sys with
    mc := sys.mc.setTransactionQueue (sys.mc.transactionQueue ++ [request]) }
  if sys.mc.effectivelyEmpty (cfg.getCommandQueueId request.address) &&
      (sys.queue.findEvent .cycle cfg.self none sys.now).isNone then
    sys.insertCycle cfg sys.now
  else sys

/-- `MemoryController::Cycle( )`. -/
def recheckTransactions (sys : System χ) : System χ :=
  if (sys.queue.findEvent .cycle cfg.self none (addCycles sys.now 1)).isSome then sys
  else if (List.range cfg.commandQueueCount).any fun queueIdx =>
      sys.mc.effectivelyEmpty queueIdx && sys.mc.transactionAvailable cfg queueIdx then
    sys.insertCycle cfg (addCycles sys.now 1)
  else sys

def dummyPredicate (_request : NVMainRequest) : Bool := true

/-- The searches of `FRFCFS::Cycle`, in its order: the request it goes on with and the controller
without it. -/
def findNextRequest (sys : System χ) : Option (NVMainRequest × MemoryController) :=
  match sys.mc.findStarvedRequest cfg sys.now dummyPredicate with
  | some found => some found
  | none =>
    match sys.mc.findRowBufferHit cfg sys.now dummyPredicate with
    | some found => some found
    | none =>
      match sys.findCachedAddress cfg child dummyPredicate with
      | some found => some found
      | none =>
        match sys.findWriteStalledRead cfg child dummyPredicate with
        | some found => found
        | none =>
          match sys.mc.findOldestReadyRequest cfg sys.now dummyPredicate with
          | some found => some found
          | none => sys.mc.findClosedBankRequest cfg sys.now dummyPredicate

/-- `Cycle( steps )`. -/
def cycle (depth : Nat) (sys : System χ) : System χ :=
  let sys :=
    match sys.findNextRequest cfg child with
    | some (request, mc) => ({ sys with mc := mc }.issueMemoryCommands cfg child depth request).1
    | none => sys
  (sys.cycleCommandQueues cfg child).recheckTransactions cfg

/-- `FRFCFS::IssueCommand( req )`: `none` when the queue is full. -/
def issueCommand (sys : System χ) (request : NVMainRequest) : Option (System χ) :=
  if sys.mc.transactionQueue.length ≥ cfg.queueSize then none
  else
    some ({ sys with accepted := sys.accepted ++ [request] }.enqueue cfg { request with arrivalCycle := sys.now })

/-- `FRFCFS::RequestComplete( request )`: a cancelled or paused write goes back to the head of the
transaction queue; anything else is deleted or handed to the parent. -/
def requestComplete (sys : System χ) (request : NVMainRequest) : System χ :=
  if (request.type = .write ∨ request.type = .writePrecharge) ∧ (request.cancelled = true ∨ request.paused = true) then
    sys.prequeue request
  else sys

/-! ### SetConfig -/

/-- The bank groups in the order in which `SetConfig` starts their refresh pulses. -/
def refreshGroups : List (Nat × Nat) :=
  (List.range cfg.ranks).flatMap fun i => (List.range cfg.refreshBankNum).map fun j => (i, j)

/-- Insert the first refresh pulse of bank group `j` of rank `i`. -/
def insertPulse (queue : ControllerQueue) (group : Nat × Nat) : ControllerQueue :=
  let (i, j) := group
  let refreshSlice := cfg.tREFI / (cfg.ranks * cfg.refreshBankNum)
  let offset := (i * cfg.refreshBankNum + j) * refreshSlice
  queue.insertCallback cfg.self .refreshCallback (queue.currentCycle + cfg.tREFI + offset)
    (some (makeRefreshRequest cfg 0 0 (j * cfg.banksPerRefresh) i 0 queue.currentCycle)) refreshPriority

/-- `SetConfig`, on an event queue. -/
def setConfig (below : χ) (queue : ControllerQueue) : System χ where
  mc := .create cfg
  child := below
  queue := if cfg.useRefresh then (refreshGroups cfg).foldl (insertPulse cfg) queue else queue
  accepted := []
  sent := []

end System

end Emas.Nvmain

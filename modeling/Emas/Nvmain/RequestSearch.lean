/-
**The searches of the memory controller: `IsLastRequest` and the `Find*` family.**

Each search goes through the transaction queue from the front, takes out the first request that meets
its condition, and, all but `FindCachedAddress`, marks it with `FLAG_LAST_REQUEST` when `IsLastRequest`
says so. `findRequest` is that loop; a member of the family is its condition. `FindWriteStalledRead`
has a loop of its own: it may give up (no subarray below) or stall the scheduler without a request.

A condition starts with the test that the command queue of the request is empty, by which the source
skips the request (`continue`). The `SchedulingPredicate` is an argument; `FRFCFS` uses
`DummyPredicate`.
-/

import Emas.Nvmain.ControllerData

namespace Emas.Nvmain

open Table

variable {χ : Type}

/-! ### Small tests -/

namespace MemoryController

variable (cfg : Config) (mc : MemoryController)

def setTransactionQueue (transactionQueue : List NVMainRequest) : MemoryController :=
  { mc with transactionQueue := transactionQueue }

/-- `EffectivelyEmpty( queueId )`: empty, or one command that was issued. -/
def effectivelyEmpty (queueId : Nat) : Bool :=
  match mc.commandQueues queueId with
  | [] => true
  | [only] => only.issued
  | _ :: _ :: _ => false

/-- `TransactionAvailable( queueId )`. -/
def transactionAvailable (queueId : Nat) : Bool :=
  mc.transactionQueue.any fun request => cfg.getCommandQueueId request.address = queueId

/-- `IsLastRequest( transactionQueue, request )`. -/
def isLastRequest (transactionQueue : List NVMainRequest) (request : NVMainRequest) : Bool :=
  if cfg.closePage = 0 then false
  else if cfg.closePage = 1 then
    !transactionQueue.any fun other =>
      other.address.rank = request.address.rank && other.address.bank = request.address.bank &&
        other.address.row = request.address.row &&
        other.address.subarray = request.address.subarray
  else true

/-- `col / p->RBSize`: the part of the row that is at the sense amplifiers. -/
def muxLevel (address : NVMAddress) : Nat := address.col / cfg.rbSize

/-- The row of the request is open in the bookkeeping: the condition of a row buffer hit. -/
def rowHit (address : NVMAddress) : Bool :=
  mc.activateQueued address.rank address.bank &&
    mc.activeSubArray address.rank address.bank address.subarray &&
    mc.effectiveRow address.rank address.bank address.subarray = address.row &&
    mc.effectiveMuxedRow address.rank address.bank address.subarray = muxLevel cfg address

/-- The bank is open, but not with the row of the request at the sense amplifiers. -/
def rowMiss (address : NVMAddress) : Bool :=
  mc.activateQueued address.rank address.bank &&
    (!mc.activeSubArray address.rank address.bank address.subarray ||
      mc.effectiveRow address.rank address.bank address.subarray ≠ address.row ||
      mc.effectiveMuxedRow address.rank address.bank address.subarray ≠ muxLevel cfg address)

/-- The command queue of the request is empty and its bank neither waits for a refresh nor has one
queued. -/
def bankFree (address : NVMAddress) : Bool :=
  (mc.commandQueues (cfg.getCommandQueueId address)).isEmpty &&
    !mc.bankNeedRefresh address.rank address.bank &&
    !mc.refreshQueued address.rank address.bank

/-! ### The common loop -/

/-- Take the first request that meets the condition out of the transaction queue, and mark it if it
is the last one for its row. -/
def findRequest (eligible : NVMainRequest → Bool) : Option (NVMainRequest × MemoryController) :=
  match mc.transactionQueue.find? eligible with
  | none => none
  | some request =>
    let transactionQueue := mc.transactionQueue.eraseP eligible
    some ({ request with
        lastRequest := request.lastRequest || isLastRequest cfg transactionQueue request },
      mc.setTransactionQueue transactionQueue)

/-- `FindStarvedRequest( transactionQueue, starvedRequest )`. -/
def findStarvedRequest (now : Nat) (pred : NVMainRequest → Bool) : Option (NVMainRequest × MemoryController) :=
  mc.findRequest cfg fun request =>
    mc.bankFree cfg request.address && mc.rowMiss cfg request.address &&
      decide (mc.starvationCounter request.address.rank request.address.bank request.address.subarray ≥
        cfg.starvationThreshold) &&
      decide (request.arrivalCycle ≠ now) && pred request

/-- `FindRowBufferHit( transactionQueue, hitRequest )`. -/
def findRowBufferHit (now : Nat) (pred : NVMainRequest → Bool) : Option (NVMainRequest × MemoryController) :=
  mc.findRequest cfg fun request =>
    mc.bankFree cfg request.address && mc.rowHit cfg request.address &&
      decide (request.arrivalCycle ≠ now) && pred request

/-- `FindOldestReadyRequest( transactionQueue, oldestRequest )`. -/
def findOldestReadyRequest (now : Nat) (pred : NVMainRequest → Bool) : Option (NVMainRequest × MemoryController) :=
  mc.findRequest cfg fun request =>
    mc.bankFree cfg request.address &&
      mc.activateQueued request.address.rank request.address.bank &&
      decide (request.arrivalCycle ≠ now) && pred request

/-- `FindClosedBankRequest( transactionQueue, closedRequest )`. -/
def findClosedBankRequest (now : Nat) (pred : NVMainRequest → Bool) : Option (NVMainRequest × MemoryController) :=
  mc.findRequest cfg fun request =>
    mc.bankFree cfg request.address &&
      !mc.activateQueued request.address.rank request.address.bank &&
      decide (request.arrivalCycle ≠ now) && pred request

end MemoryController

/-! ### Searches that ask the child -/

/-- `MakeCachedRequest( triggerRequest )`. The assignment of requests does not copy the flags. -/
def makeCachedRequest (trigger : NVMainRequest) : NVMainRequest where
  handle := none
  type := if trigger.type = .read then .cachedRead else .cachedWrite
  address := trigger.address
  arrivalCycle := trigger.arrivalCycle
  issueCycle := trigger.issueCycle
  lastRequest := false
  priority := false
  issued := false
  cancelled := false
  paused := false

/-- `MakeActivateRequest( triggerRequest )`, with `FLAG_PRIORITY` where the caller sets it. -/
def makeActivateRequest (trigger : NVMainRequest) (priority : Bool) (now : Nat) : NVMainRequest :=
  { NVMainRequest.make .activate trigger.address now with priority := priority }

namespace System

variable (cfg : Config) (child : Child χ) (sys : System χ)

/-- The condition of `FindCachedAddress`. -/
def cachedEligible (pred : NVMainRequest → Bool) (request : NVMainRequest) : Bool :=
  (sys.mc.commandQueues (cfg.getCommandQueueId request.address)).isEmpty &&
    child.isIssuable sys.child sys.now (makeCachedRequest request) &&
    decide (request.arrivalCycle ≠ sys.now) && pred request

/-- `FindCachedAddress`: the flags of the request stay as they are. -/
def findCachedAddress (pred : NVMainRequest → Bool) : Option (NVMainRequest × MemoryController) :=
  match sys.mc.transactionQueue.find? (sys.cachedEligible cfg child pred) with
  | none => none
  | some request =>
    some (request, sys.mc.setTransactionQueue (sys.mc.transactionQueue.eraseP (sys.cachedEligible cfg child pred)))

/-- What `FindWriteStalledRead` ends with: `false`, `true` without a request, or `true` with one and
the queue that is left. -/
inductive StalledRead where
  | notFound
  | stall
  | hit (request : NVMainRequest) (transactionQueue : List NVMainRequest)
  deriving DecidableEq

/-- Put a request that was passed over back in front of the queue that is left. -/
def StalledRead.behind (skipped : NVMainRequest) : StalledRead → StalledRead
  | notFound => notFound
  | stall => stall
  | hit request transactionQueue => hit request (skipped :: transactionQueue)

/-- The condition of `FindWriteStalledRead` on a read whose subarray is known. -/
def stalledEligible (pred : NVMainRequest → Bool) (request : NVMainRequest) (writingArray : SubArrayStatus) : Bool :=
  !sys.mc.bankNeedRefresh request.address.rank request.address.bank &&
    !sys.mc.refreshQueued request.address.rank request.address.bank && writingArray.isWriting &&
    (child.isIssuable sys.child sys.now request ||
      child.isIssuable sys.child sys.now (makeActivateRequest request true sys.now)) &&
    decide (request.arrivalCycle ≠ sys.now) && pred request

/-- The loop of `FindWriteStalledRead`. -/
def stalledScan (pred : NVMainRequest → Bool) : List NVMainRequest → StalledRead
  | [] => .notFound
  | request :: rest =>
    if request.type ≠ .read then (stalledScan pred rest).behind request
    else if !(sys.mc.commandQueues (cfg.getCommandQueueId request.address)).isEmpty then
      (stalledScan pred rest).behind request
    else
      match child.findSubArray sys.child request with
      | none => .notFound
      | some writingArray =>
        if sys.stalledEligible child pred request writingArray then
          if !writingArray.betweenWriteIterations && cfg.pauseMode = .normal then .stall
          else .hit request rest
        else (stalledScan pred rest).behind request

/-- `FindWriteStalledRead`: `none` is `false`, `some none` a stall. -/
def findWriteStalledRead (pred : NVMainRequest → Bool) : Option (Option (NVMainRequest × MemoryController)) :=
  if !cfg.writePausing then none
  else
    match sys.stalledScan cfg child pred sys.mc.transactionQueue with
    | .notFound => none
    | .stall => some none
    | .hit request transactionQueue =>
      some (some ({ request with
          lastRequest := request.lastRequest ||
            MemoryController.isLastRequest cfg transactionQueue request }, sys.mc.setTransactionQueue transactionQueue))

end System

end Emas.Nvmain

/-
**The memory controller: its data.**

Requests and addresses follow `include/NVMainRequest.h` and `include/NVMAddress.h`, `MemoryController`
is the state of `class MemoryController` with the single transaction queue of `FRFCFS`
(`InitQueues( 1 )`). Arrays are functions of their indices; `ncounter_t` is `Nat`, with the wrapping
operators of `Emas.Nvmain.EventQueue` where a counter may go below zero.

* A request is an object that moves between queues. `handle` is its address when it was handed in from
  outside; the commands the controller makes itself (`owner == this`) have none. Of `flags` the model
  has the five the controller reads.
* `System` is the controller with its child and the event queue. `accepted` records the requests that
  `FRFCFS::IssueCommand` has accepted, `sent` the commands given to `GetChild( )->IssueCommand`, both
  in order.

The `assert`s are off in the default build (`-DNDEBUG`), so a failing one does not stop the model. The
two that guard the controller's own bookkeeping are recorded in `failedAsserts`; the others are checks
of a queue number or of the type of an argument. Statistics and printed text are left out.
-/

import Emas.Nvmain.EventQueue
import Emas.Nvmain.AddressTranslator
import Emas.Lib.Table

namespace Emas.Nvmain

open Table

/-! ### Requests -/

/-- `enum OpType`, as far as the controller uses it. -/
inductive OpType where
  | activate
  | read
  | readPrecharge
  | write
  | writePrecharge
  | precharge
  | prechargeAll
  | refresh
  | cachedRead
  | cachedWrite
  deriving DecidableEq, Repr

/-- `class NVMAddress`: the physical address and the translated one. The channel is the controller's. -/
structure NVMAddress where
  physical : Nat
  row : Nat
  col : Nat
  bank : Nat
  rank : Nat
  subarray : Nat
  deriving DecidableEq, Repr

/-- `NVMAddress( row, col, bank, rank, 0, subarray )`. -/
def NVMAddress.translated (row col bank rank subarray : Nat) : NVMAddress :=
  ⟨0, row, col, bank, rank, subarray⟩

/-- `class NVMainRequest`. -/
structure NVMainRequest where
  handle : Option Nat
  type : OpType
  address : NVMAddress
  arrivalCycle : Nat
  issueCycle : Nat
  lastRequest : Bool
  priority : Bool
  issued : Bool
  cancelled : Bool
  paused : Bool
  deriving DecidableEq, Repr

/-- `NVMainRequest( )` of the given type and address, made by the controller at `issueCycle`. -/
def NVMainRequest.make (type : OpType) (address : NVMAddress) (issueCycle : Nat) : NVMainRequest where
  handle := none
  type := type
  address := address
  arrivalCycle := 0
  issueCycle := issueCycle
  lastRequest := false
  priority := false
  issued := false
  cancelled := false
  paused := false

/-! ### Configuration -/

/-- `enum QueueModel`. -/
inductive QueueModel where
  | perRank
  | perBank
  | perSubArray
  deriving DecidableEq, Repr

/-- `enum PauseMode`. -/
inductive PauseMode where
  | normal
  | iiwc
  | optimal
  deriving DecidableEq, Repr

/-- What `SetConfig` reads: the parameters, the queue model, the decoder, and the address `self` of the
controller as a recipient of events. `matHeight` is `none` when the key is not in the configuration. -/
structure Config where
  self : Nat
  decoder : AddressTranslator
  queueModel : QueueModel
  ranks : Nat
  banks : Nat
  rows : Nat
  matHeight : Option Nat
  rbSize : Nat
  closePage : Nat
  scheduleScheme : Nat
  usePrecharge : Bool
  useRefresh : Bool
  banksPerRefresh : Nat
  delayedRefreshThreshold : Nat
  tREFW : Nat
  refreshRows : Nat
  writePausing : Bool
  pauseMode : PauseMode
  deadlockTimer : Nat
  starvationThreshold : Nat
  queueSize : Nat

namespace Config

variable (cfg : Config)

def subArrayNum : Nat :=
  match cfg.matHeight with
  | some matHeight => cfg.rows / matHeight
  | none => 1

def commandQueueCount : Nat :=
  match cfg.queueModel with
  | .perRank => cfg.ranks
  | .perBank => cfg.ranks * cfg.banks
  | .perSubArray => cfg.ranks * cfg.banks * cfg.subArrayNum

/-- `m_refreshBankNum`. -/
def refreshBankNum : Nat := cfg.banks / cfg.banksPerRefresh

/-- `m_tREFI`. -/
def tREFI : Nat := cfg.tREFW / (cfg.rows / cfg.refreshRows)

/-- `GetCommandQueueId( addr )`, less its `assert`: with per-bank queues and another schedule scheme
than 1 and 2 it is the largest number. -/
def getCommandQueueId (addr : NVMAddress) : Nat :=
  match cfg.queueModel with
  | .perRank => addr.rank
  | .perBank =>
    if cfg.scheduleScheme = 1 then addr.bank * cfg.ranks + addr.rank
    else if cfg.scheduleScheme = 2 then addr.rank * cfg.banks + addr.bank
    else maxCycle
  | .perSubArray =>
    addr.rank * cfg.banks * cfg.subArrayNum + addr.bank * cfg.subArrayNum + addr.subarray

/-- The translated address is one of the controller's. -/
structure InRange (addr : NVMAddress) : Prop where
  row : addr.row < cfg.rows
  bank : addr.bank < cfg.banks
  rank : addr.rank < cfg.ranks
  subarray : addr.subarray < cfg.subArrayNum

instance (addr : NVMAddress) : Decidable (cfg.InRange addr) :=
  decidable_of_iff (addr.row < cfg.rows ∧ addr.bank < cfg.banks ∧ addr.rank < cfg.ranks ∧
      addr.subarray < cfg.subArrayNum)
    ⟨fun ⟨row, bank, rank, subarray⟩ => ⟨row, bank, rank, subarray⟩,
      fun range => ⟨range.row, range.bank, range.rank, range.subarray⟩⟩

/-- `GetDecoder( )->Translate` into an address. -/
def translate (physical : Nat) : NVMAddress :=
  let fields := (cfg.decoder.translate physical).getD fun _ => 0
  ⟨physical, fields .row, fields .col, fields .bank, fields .rank, fields .subarray⟩

/-- The address `MakePrechargeRequest`, `MakePrechargeAllRequest` and `MakeRefreshRequest` build from
its fields, with the physical address of `GetDecoder( )->ReverseTranslate`. -/
def reverseTranslate (row col bank rank subarray : Nat) : NVMAddress :=
  let fields : MemoryPartition → Nat
    | .row => row
    | .col => col
    | .bank => bank
    | .rank => rank
    | .channel => 0
    | .subarray => subarray
  ⟨cfg.decoder.reverseTranslate fields, row, col, bank, rank, subarray⟩

end Config

/-- The queue of a subarray. -/
def Config.queueOf (cfg : Config) (rank bank subarray : Nat) : Nat :=
  cfg.getCommandQueueId (.translated 0 0 bank rank subarray)

theorem queueOf_bank {cfg : Config} (model : cfg.queueModel ≠ .perSubArray) (rank bank subarray : Nat) :
    cfg.queueOf rank bank subarray = cfg.queueOf rank bank 0 := by
  unfold Config.queueOf Config.getCommandQueueId
  cases same : cfg.queueModel with
  | perRank => rfl
  | perBank => rfl
  | perSubArray => exact absurd same model

/-! ### State -/

/-- The `assert`s on the controller's bookkeeping. -/
inductive Assertion where
  | closePage
  | refreshQueued
  deriving DecidableEq, Repr

/-- `class MemoryController`. `deadlocked` is set where the source prints its warning and exits,
`outOfDepth` where the model's bound on the nesting of `HandleRefresh` is reached. -/
structure MemoryController where
  transactionQueue : List NVMainRequest
  commandQueues : Nat → List NVMainRequest
  activateQueued : Nat → Nat → Bool
  refreshQueued : Nat → Nat → Bool
  bankNeedRefresh : Nat → Nat → Bool
  activeSubArray : Nat → Nat → Nat → Bool
  effectiveRow : Nat → Nat → Nat → Nat
  effectiveMuxedRow : Nat → Nat → Nat → Nat
  starvationCounter : Nat → Nat → Nat → Nat
  delayedRefreshCounter : Nat → Nat → Nat
  curQueue : Nat
  nextRefreshRank : Nat
  nextRefreshBank : Nat
  handledRefresh : Nat
  lastIssueCycle : Nat
  lastCommandWake : Nat
  failedAsserts : List Assertion
  deadlocked : Bool
  outOfDepth : Bool

/-- The state after the constructor and `SetConfig`. -/
def MemoryController.create (cfg : Config) : MemoryController where
  transactionQueue := []
  commandQueues := fun _ => []
  activateQueued := fun _ _ => false
  refreshQueued := fun _ _ => false
  bankNeedRefresh := fun _ _ => false
  activeSubArray := fun _ _ _ => false
  effectiveRow := fun _ _ _ => cfg.rows
  effectiveMuxedRow := fun _ _ _ => cfg.rows
  starvationCounter := fun _ _ _ => 0
  delayedRefreshCounter := fun _ _ => 0
  curQueue := 0
  nextRefreshRank := 0
  nextRefreshBank := 0
  handledRefresh := maxCycle
  lastIssueCycle := 0
  lastCommandWake := 0
  failedAsserts := []
  deadlocked := false
  outOfDepth := false

/-- The callbacks an event may name: the controller's three, and those of other objects. -/
inductive ControllerMethod where
  | commandQueueCallback
  | refreshCallback
  | cleanupCallback
  | other (method : Nat)
  deriving DecidableEq, Repr

/-- The event queue the controller works with; the data of a callback is a request. -/
abbrev ControllerQueue := EventQueue ControllerMethod NVMainRequest

/-- What `FindChild( req, SubArray )` gives: `IsWriting( )` and `BetweenWriteIterations( )`. -/
structure SubArrayStatus where
  isWriting : Bool
  betweenWriteIterations : Bool
  deriving DecidableEq, Repr

/-- The interconnect below the controller, with state `χ`. The `Nat` argument is the current cycle. -/
structure Child (χ : Type) where
  isIssuable : χ → Nat → NVMainRequest → Bool
  nextIssuable : χ → Nat → NVMainRequest → Nat
  findSubArray : χ → NVMainRequest → Option SubArrayStatus
  issueCommand : χ → ControllerQueue → NVMainRequest → χ × List (QueueOp ControllerMethod NVMainRequest)
  cycle : χ → ControllerQueue → Nat → χ × List (QueueOp ControllerMethod NVMainRequest)

/-- The controller with its child and its event queue. -/
structure System (χ : Type) where
  mc : MemoryController
  child : χ
  queue : ControllerQueue
  accepted : List NVMainRequest
  sent : List NVMainRequest

/-- `GetEventQueue( )->GetCurrentCycle( )`. -/
def System.now {χ : Type} (sys : System χ) : Nat := sys.queue.currentCycle

/-! ### Priorities of events -/

def transactionQueuePriority : Int := 30
def commandQueuePriority : Int := 40
def refreshPriority : Int := 20
def cleanupPriority : Int := -10

end Emas.Nvmain

/-
**The load/store queue of a thread.**

`LSQUnit` of the out-of-order core as far as plain loads and stores go. An entry of a queue is the
instruction, with the iterator into the other queue that it got when it was inserted, and what executing it
has set. Iterators are positions, counted from the first instruction of the thread on.

* `executeStore` is `write` with the search for a violator after it.
* `recorded` is no field of the queue: it keeps every load that has been `memDepViolator`.
-/

import Mathlib.Logic.Basic
import Mathlib.Algebra.Group.Nat.Defs

namespace Emas.Gem5

/-! ### Entries -/

/-- A load of the program; `sqIt` is the end of the store queue when it was inserted. -/
structure LoadInst where
  seqNum : Nat
  effAddr : Nat
  effSize : Nat
  sqIt : Nat
  deriving DecidableEq

/-- A store of the program; `lqIt` is the end of the load queue when it was inserted. A store without data writes
zeros. -/
structure StoreInst where
  seqNum : Nat
  effAddr : Nat
  effSize : Nat
  lqIt : Nat
  operand : Nat → UInt8
  noData : Bool

/-- Where a load is: not executed (or to be executed again), with the memory, or answered. -/
inductive LoadState where
  | idle
  | sent
  | answered (memData : List UInt8)
  deriving DecidableEq

/-- An entry of the load queue. -/
structure LQEntry where
  inst : LoadInst
  effAddrValid : Bool
  state : LoadState
  deriving DecidableEq

/-- `size` is 0 until the store has executed. -/
structure SQEntry where
  inst : StoreInst
  effAddrValid : Bool
  size : Nat
  isAllZeros : Bool
  data : Nat → UInt8

namespace SQEntry

variable (store : SQEntry)

def byte (offset : Nat) : UInt8 := if store.isAllZeros then 0 else store.data offset

/-- `write( req, data, store_idx )`, with the address that the request gives the instruction. -/
def write : SQEntry :=
  { store with
    effAddrValid := true
    size := store.inst.effSize
    isAllZeros := store.inst.noData
    data := store.inst.operand }

def stE : Nat := (store.inst.effAddr + store.size) % 2 ^ 64

end SQEntry

namespace LoadInst

variable (load : LoadInst)

def reqE : Nat := (load.effAddr + load.effSize) % 2 ^ 64

/-- The store has all of the data needed. -/
def coveredBy (store : SQEntry) : Bool :=
  decide (load.effAddr ≥ store.inst.effAddr) && decide (load.reqE ≤ store.stE)

/-- The store has a part of the data needed. -/
def partlyIn (store : SQEntry) : Bool :=
  let storeHasLowerLimit := decide (load.effAddr ≥ store.inst.effAddr)
  let storeHasUpperLimit := decide (load.reqE ≤ store.stE)
  let lowerLoadHasStorePart := decide (load.effAddr < store.stE)
  let upperLoadHasStorePart := decide (load.reqE > store.inst.effAddr)
  storeHasLowerLimit && lowerLoadHasStorePart || storeHasUpperLimit && upperLoadHasStorePart ||
    lowerLoadHasStorePart && upperLoadHasStorePart

/-- The bytes that are forwarded. -/
def forwarded (store : SQEntry) : List UInt8 :=
  (List.range load.effSize).map fun i => store.byte (load.effAddr - store.inst.effAddr + i)

end LoadInst

/-- How the loop of `read` ends. -/
inductive Lookup where
  | forward (store : SQEntry)
  | stall (store : SQEntry)
  | memory

/-- The loop of `read`, over the stores from the youngest on. -/
def lookup (load : LoadInst) : List SQEntry → Lookup
  | [] => .memory
  | store :: older =>
    if store.size ≠ 0 then
      if load.coveredBy store then .forward store
      else if load.partlyIn store then .stall store
      else lookup load older
    else lookup load older

/-! ### The queue -/

/-- `class LSQUnit`. -/
structure LSQUnit where
  depCheckShift : Nat
  nextSeqNum : Nat
  loadQueue : List LQEntry
  storeQueue : List SQEntry
  storeWBIt : Nat
  stalled : Bool
  stallingStoreIsn : Nat
  stallingLoadIdx : Nat
  memDepViolator : Option Nat
  recorded : List Nat
  memory : Nat → UInt8

namespace LSQUnit

/-- Empty queues over a memory. -/
def start (depCheckShift : Nat) (memory : Nat → UInt8) : LSQUnit where
  depCheckShift := depCheckShift
  nextSeqNum := 0
  loadQueue := []
  storeQueue := []
  storeWBIt := 0
  stalled := false
  stallingStoreIsn := 0
  stallingLoadIdx := 0
  memDepViolator := none
  recorded := []
  memory := memory

variable (lsq : LSQUnit)

def insertLoad (effAddr effSize : Nat) : LSQUnit :=
  let inst := ⟨lsq.nextSeqNum, effAddr, effSize, lsq.storeQueue.length⟩
  { lsq with
    nextSeqNum := lsq.nextSeqNum + 1
    loadQueue := lsq.loadQueue ++ [⟨inst, false, .idle⟩] }

def insertStore (effAddr effSize : Nat) (operand : Nat → UInt8) (noData : Bool) : LSQUnit :=
  let inst := ⟨lsq.nextSeqNum, effAddr, effSize, lsq.loadQueue.length, operand, noData⟩
  { lsq with
    nextSeqNum := lsq.nextSeqNum + 1
    storeQueue := lsq.storeQueue ++ [⟨inst, false, 0, false, fun _ => 0⟩] }

/-- A load that has to wait, if it is the oldest one that does. -/
def stallOn (load : LoadInst) (loadIdx : Nat) (store : SQEntry) : LSQUnit :=
  if !lsq.stalled || (lsq.loadQueue[lsq.stallingLoadIdx]?).any fun other => decide (load.seqNum < other.inst.seqNum) then
    { lsq with stalled := true, stallingStoreIsn := store.inst.seqNum, stallingLoadIdx := loadIdx }
  else lsq

/-- `read( req, load_idx )`; `sent` is whether the cache takes the request. -/
def read (loadIdx : Nat) (load : LoadInst) (sent : Bool) : LSQUnit :=
  let set := fun (lsq : LSQUnit) (entry : LQEntry) => { lsq with loadQueue := lsq.loadQueue.set loadIdx entry }
  match lookup load ((lsq.storeQueue.take load.sqIt).drop lsq.storeWBIt).reverse with
  | .forward store => set lsq ⟨load, true, .answered (load.forwarded store)⟩
  | .stall store => set (lsq.stallOn load loadIdx store) ⟨load, false, .idle⟩
  | .memory => set lsq ⟨load, true, if sent then .sent else .idle⟩

def executeLoad (loadIdx : Nat) (sent : Bool) : LSQUnit :=
  match lsq.loadQueue[loadIdx]? with
  | some entry => lsq.read loadIdx entry.inst sent
  | none => lsq

/-- The data of a load comes from memory. -/
def respond (loadIdx : Nat) : LSQUnit :=
  match lsq.loadQueue[loadIdx]? with
  | some entry =>
    let memData := (List.range entry.inst.effSize).map fun i => lsq.memory (entry.inst.effAddr + i)
    { lsq with loadQueue := lsq.loadQueue.set loadIdx { entry with state := .answered memData } }
  | none => lsq

/-- Whether a load touches a block of a store, in the granularity of `checkViolations`. -/
def sameBlock (store : StoreInst) (load : LoadInst) : Bool :=
  let instEffAddr1 := store.effAddr >>> lsq.depCheckShift
  let instEffAddr2 := ((store.effAddr + store.effSize + (2 ^ 64 - 1)) % 2 ^ 64) >>> lsq.depCheckShift
  let ldEffAddr1 := load.effAddr >>> lsq.depCheckShift
  let ldEffAddr2 := ((load.effAddr + load.effSize + (2 ^ 64 - 1)) % 2 ^ 64) >>> lsq.depCheckShift
  decide (instEffAddr2 ≥ ldEffAddr1) && decide (instEffAddr1 ≤ ldEffAddr2)

/-- The loop of `checkViolations` for a store, over the loads from `loadIt` on. -/
def violator (store : StoreInst) : List LQEntry → Option Nat
  | [] => none
  | load :: younger =>
    if !load.effAddrValid then violator store younger
    else if lsq.sameBlock store load.inst then
      if lsq.memDepViolator.any fun violator => decide (load.inst.seqNum > violator) then none
      else some load.inst.seqNum
    else violator store younger

def checkViolations (store : StoreInst) : LSQUnit :=
  match lsq.violator store (lsq.loadQueue.drop store.lqIt) with
  | some load => { lsq with memDepViolator := some load, recorded := load :: lsq.recorded }
  | none => lsq

def executeStore (storeIdx : Nat) : LSQUnit :=
  match lsq.storeQueue[storeIdx]? with
  | some entry =>
    let lsq := { lsq with storeQueue := lsq.storeQueue.set storeIdx entry.write }
    if entry.write.size = 0 then lsq else lsq.checkViolations entry.inst
  | none => lsq

/-- The next store in the queue gets to memory; a load that waits for it may go on. -/
def writebackStore : LSQUnit :=
  match lsq.storeQueue[lsq.storeWBIt]? with
  | some store =>
    let unstalls := lsq.stalled && decide (store.inst.seqNum = lsq.stallingStoreIsn)
    { lsq with
      storeWBIt := lsq.storeWBIt + 1
      stalled := if unstalls then false else lsq.stalled
      stallingStoreIsn := if unstalls then 0 else lsq.stallingStoreIsn
      memory := fun addr =>
        if store.inst.effAddr ≤ addr ∧ addr < store.inst.effAddr + store.size then
          store.byte (addr - store.inst.effAddr)
        else lsq.memory addr }
  | none => lsq

/-! ### Steps -/

/-- A step of the queue or of what is around it. -/
inductive Step where
  | insertLoad (effAddr effSize : Nat)
  | insertStore (effAddr effSize : Nat) (operand : Nat → UInt8) (noData : Bool)
  | executeLoad (loadIdx : Nat) (sent : Bool)
  | respond (loadIdx : Nat)
  | executeStore (storeIdx : Nat)
  | writebackStore
  | getMemDepViolator

/-- What a step leaves of the queues. -/
def step : Step → LSQUnit
  | .insertLoad effAddr effSize => lsq.insertLoad effAddr effSize
  | .insertStore effAddr effSize operand noData => lsq.insertStore effAddr effSize operand noData
  | .executeLoad loadIdx sent => lsq.executeLoad loadIdx sent
  | .respond loadIdx => lsq.respond loadIdx
  | .executeStore storeIdx => lsq.executeStore storeIdx
  | .writebackStore => lsq.writebackStore
  | .getMemDepViolator => { lsq with memDepViolator := none }

/-- When a step may be taken. No end of an access wraps; a load executes until it is sent or answered, and `read`
asserts that no younger store has been written back; a store executes once, and is written back after that, and not
before the older loads that are with the memory have their answers. -/
def Allowed : Step → Prop
  | .insertLoad effAddr effSize | .insertStore effAddr effSize _ _ => effAddr + effSize < 2 ^ 64
  | .executeLoad loadIdx _ => ∃ load, lsq.loadQueue[loadIdx]? = some load ∧ load.state = .idle ∧
    load.inst.sqIt ≥ lsq.storeWBIt
  | .respond loadIdx => ∃ load, lsq.loadQueue[loadIdx]? = some load ∧ load.state = .sent
  | .executeStore storeIdx => ∃ store, lsq.storeQueue[storeIdx]? = some store ∧ store.effAddrValid = false
  | .writebackStore => (∃ store, lsq.storeQueue[lsq.storeWBIt]? = some store ∧ store.effAddrValid = true) ∧
    ∀ load ∈ lsq.loadQueue, load.state = .sent → lsq.storeWBIt < load.inst.sqIt
  | .getMemDepViolator => True

end LSQUnit

end Emas.Gem5

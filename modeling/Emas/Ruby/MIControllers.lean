/-
**The controllers of the MI protocol.**

`MI_example-msg.sm`, `MI_example-cache.sm` and `MI_example-dir.sm`, for one line: the messages, and of the L1 cache and the
directory the transitions as tables of actions, and what an action does.
-/

import Emas.Ruby.Address

namespace Emas.Ruby

/-! ### The messages of the MI protocol

`MI_example-msg.sm`, for one line: the address of a message is that of the line, but for the physical address of a DMA
request, which is given by its offset in the line. Message sizes and the senders of responses are not modelled; a
response to a cache is always `DATA`.
-/

/-- `MachineID`, of the caches `ι`, the directory and the DMA controllers `κ`. -/
inductive MachineID (ι κ : Type) where
  | l1Cache (version : ι) | directory | dma (version : κ)
  deriving DecidableEq, Repr

/-- `CoherenceRequestType`. -/
inductive CoherenceRequestType where
  | GETX | GETS | PUTX | WB_ACK | WB_NACK | INV
  deriving DecidableEq, Repr

/-- `RequestMsg`. -/
structure RequestMsg (ι κ : Type) where
  type : CoherenceRequestType
  requestor : MachineID ι κ
  dataBlk : DataBlock := .clear

/-- `ResponseMsg`. -/
structure ResponseMsg where
  dataBlk : DataBlock

/-- `DMARequestType`. -/
inductive DMARequestType where
  | READ | WRITE
  deriving DecidableEq, Repr

/-- `DMARequestMsg`. -/
structure DMARequestMsg (ι κ : Type) where
  type : DMARequestType
  physicalAddress : Nat
  requestor : MachineID ι κ
  dataBlk : DataBlock
  len : Nat

/-- `DMAResponseType`. -/
inductive DMAResponseType where
  | DATA | ACK
  deriving DecidableEq, Repr

/-- `DMAResponseMsg`. -/
structure DMAResponseMsg where
  type : DMAResponseType
  dataBlk : DataBlock := .clear

/-- A packet for the memory: a read of the line, or a write of these bytes from an offset on. -/
inductive MemoryAccess where
  | read
  | write (block : DataBlock)
  | writePartial (offset : Nat) (bytes : List UInt8)

/-- A packet with its sender state. -/
structure MemoryRequest (ι κ : Type) where
  id : MachineID ι κ
  access : MemoryAccess

/-- `MemoryRequestType`. -/
inductive MemoryRequestType where
  | MEMORY_READ | MEMORY_WB
  deriving DecidableEq, Repr

/-- `MemoryMsg`. -/
structure MemoryMsg (ι κ : Type) where
  type : MemoryRequestType
  originalRequestorMachId : MachineID ι κ
  dataBlk : DataBlock := .clear

/-- Why a controller stops the program: there is no transition for the event, an assertion fails, a message has no
destination of its network. -/
inductive SliccFailure where
  | invalidTransition | assertion | misrouted
  deriving DecidableEq, Repr

/-- What is peeked, which must be there. -/
def peek {α : Type} (message : Option α) : Except SliccFailure α := message.elim (.error .assertion) .ok

/-- `assert( condition )`. -/
def ensure (condition : Prop) [Decidable condition] : Except SliccFailure Unit :=
  if condition then .ok () else .error .assertion

/-! ### The L1 cache of the MI protocol

`MI_example-cache.sm`, for one line: the transitions as a table of the actions, and what an action does. Statistics, the
order of replacement and the notice of an eviction have no effect here. There is room in the cache and a free TBE when
one is allocated: the port triggers a replacement first, and the transition waits for a TBE.
-/

/-- `State`. -/
inductive L1State where
  | I | II | M | MI | MII | IS | IM
  deriving DecidableEq, Repr

/-- `Event`. -/
inductive L1Event where
  | Load | Ifetch | Store | Data | Fwd_GETX | Inv | Replacement | Writeback_Ack | Writeback_Nack
  deriving DecidableEq, Repr

/-- The actions of `MI_example-cache.sm`. -/
inductive L1Action where
  | issueRequest | issuePUT | sendData | sendDataFromTBE | allocateL1CacheBlock | deallocateL1CacheBlock
  | popMandatoryQueue | popResponseQueue | popForwardedRequestQueue | loadHit | rxLoadHit | storeHit | sxStoreHit
  | writeDataToCache | allocateTBE | deallocateTBE | copyDataFromCacheToTBE | stall
  deriving DecidableEq, Repr

/-- `Entry`. -/
structure L1Entry where
  cacheState : L1State
  dataBlk : DataBlock

/-- `TBE`. -/
structure L1TBE where
  tbeState : L1State
  dataBlk : DataBlock

/-- The entry and the TBE of the line, if there are any. -/
structure L1Cache where
  entry : Option L1Entry
  tbe : Option L1TBE

namespace L1Cache

def getState (cache : L1Cache) : L1State :=
  match cache.tbe, cache.entry with
  | some tbe, _ => tbe.tbeState
  | none, some entry => entry.cacheState
  | none, none => .I

def setState (cache : L1Cache) (state : L1State) : L1Cache where
  entry := cache.entry.map fun entry => { entry with cacheState := state }
  tbe := cache.tbe.map fun tbe => { tbe with tbeState := state }

def transition (state : L1State) (event : L1Event) : Option (List L1Action × L1State) :=
  if state ∈ [.IS, .IM, .MI, .II, .MII] ∧ event ∈ [.Load, .Ifetch, .Store, .Replacement] then some ([.stall], state)
  else if state ∈ [.IS, .IM] ∧ event ∈ [.Fwd_GETX, .Inv] then some ([.stall], state)
  else match state, event with
    | .MI, .Inv => some ([.popForwardedRequestQueue], .MI)
    | .M, .Store => some ([.storeHit, .popMandatoryQueue], .M)
    | .M, .Load | .M, .Ifetch => some ([.loadHit, .popMandatoryQueue], .M)
    | .I, .Inv => some ([.popForwardedRequestQueue], .I)
    | .I, .Store => some ([.allocateTBE, .allocateL1CacheBlock, .issueRequest, .popMandatoryQueue], .IM)
    | .I, .Load | .I, .Ifetch =>
      some ([.allocateTBE, .allocateL1CacheBlock, .issueRequest, .popMandatoryQueue], .IS)
    | .IS, .Data => some ([.writeDataToCache, .rxLoadHit, .deallocateTBE, .popResponseQueue], .M)
    | .IM, .Data => some ([.writeDataToCache, .sxStoreHit, .deallocateTBE, .popResponseQueue], .M)
    | .M, .Fwd_GETX => some ([.sendData, .popForwardedRequestQueue], .I)
    | .I, .Replacement => some ([.deallocateL1CacheBlock], .I)
    | .M, .Replacement | .M, .Inv =>
      some ([.allocateTBE, .issuePUT, .copyDataFromCacheToTBE, .deallocateL1CacheBlock], .MI)
    | .MI, .Writeback_Ack => some ([.deallocateTBE, .popForwardedRequestQueue], .I)
    | .MI, .Fwd_GETX => some ([.sendDataFromTBE, .popForwardedRequestQueue], .II)
    | .MI, .Writeback_Nack => some ([.popForwardedRequestQueue], .MII)
    | .MII, .Fwd_GETX => some ([.sendDataFromTBE, .deallocateTBE, .popForwardedRequestQueue], .I)
    | .II, .Writeback_Nack => some ([.deallocateTBE, .popForwardedRequestQueue], .I)
    | _, _ => none

end L1Cache

/-- A callback of the sequencer: a load sees the data of the line, a store sees it and leaves other data. -/
inductive L1Callback (ι : Type) where
  | load (version : ι) (seen : DataBlock)
  | store (version : ι) (seen written : DataBlock)

/-- What triggers a transition: a request of the processor, a message of the forward network or one of the response
network. The hits of a write callback turn the data of the line into other data. -/
structure L1Trigger (ι κ : Type) where
  forward : Option (RequestMsg ι κ)
  response : Option ResponseMsg
  hits : DataBlock → DataBlock

/-- A cache in a transition, with what it sends and calls back, and whether it takes the message that triggers it. -/
structure L1Context (ι κ : Type) where
  cache : L1Cache
  requests : List (RequestMsg ι κ)
  responses : List (MachineID ι κ × ResponseMsg)
  callbacks : List (L1Callback ι)
  popped : Bool

namespace L1Context

variable {ι κ : Type} (machineID : ι) (trigger : L1Trigger ι κ) (ctx : L1Context ι κ)

/-- A message of the forward network is answered with this data. -/
def respond (message : RequestMsg ι κ) (data : DataBlock) : L1Context ι κ :=
  { ctx with responses := ctx.responses ++ [(message.requestor, ⟨data⟩)] }

/-- `sequencer.readCallback( address, cache_entry.DataBlk, .. )`. -/
def readCallback : Except SliccFailure (L1Context ι κ) := do
  let entry ← peek ctx.cache.entry
  .ok { ctx with callbacks := ctx.callbacks ++ [.load machineID entry.dataBlk] }

/-- `sequencer.writeCallback( address, cache_entry.DataBlk, .. )`. -/
def writeCallback : Except SliccFailure (L1Context ι κ) := do
  let entry ← peek ctx.cache.entry
  let written := trigger.hits entry.dataBlk
  .ok { ctx with
    cache := { ctx.cache with entry := some { entry with dataBlk := written } }
    callbacks := ctx.callbacks ++ [.store machineID entry.dataBlk written] }

def perform : L1Action → Except SliccFailure (L1Context ι κ)
  | .issueRequest => .ok { ctx with requests := ctx.requests ++ [{ type := .GETX, requestor := .l1Cache machineID }] }
  | .issuePUT => do
    let entry ← peek ctx.cache.entry
    .ok { ctx with requests := ctx.requests ++ [⟨.PUTX, .l1Cache machineID, entry.dataBlk⟩] }
  | .sendData => do
    let message ← peek trigger.forward
    let entry ← peek ctx.cache.entry
    .ok (ctx.respond message entry.dataBlk)
  | .sendDataFromTBE => do
    let message ← peek trigger.forward
    let tbe ← peek ctx.cache.tbe
    .ok (ctx.respond message tbe.dataBlk)
  | .allocateL1CacheBlock => .ok (match ctx.cache.entry with
    | some _ => ctx
    | none => { ctx with cache := { ctx.cache with entry := some ⟨.I, .clear⟩ } })
  | .deallocateL1CacheBlock => .ok { ctx with cache := { ctx.cache with entry := none } }
  | .popMandatoryQueue | .popResponseQueue | .popForwardedRequestQueue => .ok { ctx with popped := true }
  | .loadHit => ctx.readCallback machineID
  | .rxLoadHit => ctx.readCallback machineID
  | .storeHit => ctx.writeCallback machineID trigger
  | .sxStoreHit => ctx.writeCallback machineID trigger
  | .writeDataToCache => do
    let message ← peek trigger.response
    let entry ← peek ctx.cache.entry
    .ok { ctx with cache := { ctx.cache with entry := some { entry with dataBlk := message.dataBlk } } }
  | .allocateTBE => do
    ensure ctx.cache.tbe.isNone
    .ok { ctx with cache := { ctx.cache with tbe := some ⟨.I, .clear⟩ } }
  | .deallocateTBE => do
    ensure ctx.cache.tbe.isSome
    .ok { ctx with cache := { ctx.cache with tbe := none } }
  | .copyDataFromCacheToTBE => do
    let entry ← peek ctx.cache.entry
    let tbe ← peek ctx.cache.tbe
    .ok { ctx with cache := { ctx.cache with tbe := some { tbe with dataBlk := entry.dataBlk } } }
  | .stall => .ok ctx

end L1Context

def L1Cache.doTransition {ι κ : Type} (machineID : ι) (trigger : L1Trigger ι κ) (event : L1Event) (cache : L1Cache) :
    Except SliccFailure (L1Context ι κ) :=
  match transition cache.getState event with
  | none => .error .invalidTransition
  | some (actions, next) => do
    let ctx ← actions.foldlM (L1Context.perform machineID trigger) ⟨cache, [], [], [], false⟩
    .ok (if actions = [.stall] then ctx else { ctx with cache := ctx.cache.setState next })

/-! ### The directory of the MI protocol

`MI_example-dir.sm`, for one line: the transitions as a table of the actions, and what an action does, with the functions
of `class AbstractController` that queue accesses to the memory.

* A line without an entry has the state `I` and no owner, as a new entry has.
* A set of machines is a list. There are never sharers. There is a free TBE when one is allocated.
* The address of a line has offset 0 in the line.
-/

/-- `State`. -/
inductive DirectoryState where
  | I | M | M_DRD | M_DWR | M_DWRI | M_DRDI | IM | MI | ID | ID_W
  deriving DecidableEq, Repr

/-- `Event`. -/
inductive DirectoryEvent where
  | GETX | GETS | PUTX | PUTX_NotOwner | DMA_READ | DMA_WRITE | Memory_Data | Memory_Ack
  deriving DecidableEq, Repr

/-- The actions. `lSendWriteBackAck` is `l_sendWriteBackAck`. -/
inductive DirectoryAction where
  | lSendWriteBackAck | sendWriteBackNack | clearOwner | sendData | drSendDMAData | drpSendDMAData | sendDMAAck
  | ownerIsRequestor | forwardRequest | sendCacheInvalidate | popIncomingRequestQueue | popIncomingDMARequestQueue
  | allocateTBE | allocateTbeForDmaRead | allocateTBEFromRequestNet | deallocateTBE | recycleRequestQueue
  | recycleDMARequestQueue | queueMemoryFetchRequest | queueMemoryFetchRequestDMA | queueMemoryWBRequestPartial
  | queueMemoryWBRequestPartialTBE | queueMemoryWBRequest | popMemQueue
  deriving DecidableEq, Repr

/-- `TBE`. -/
structure DirectoryTBE (ι κ : Type) where
  tbeState : DirectoryState := .I
  physicalAddress : Nat := 0
  dataBlk : DataBlock := .clear
  len : Nat := 0
  dmaRequestor : Option (MachineID ι κ) := none

/-- The entry and the TBE of the line. -/
structure Directory (ι κ : Type) where
  directoryState : DirectoryState
  owner : List (MachineID ι κ)
  tbe : Option (DirectoryTBE ι κ)

namespace Directory

variable {ι κ : Type}

def getState (dir : Directory ι κ) : DirectoryState := dir.tbe.elim dir.directoryState DirectoryTBE.tbeState

def setState (dir : Directory ι κ) (state : DirectoryState) : Except SliccFailure (Directory ι κ) := do
  ensure (state = .M → dir.owner.length = 1)
  ensure (state = .I → dir.owner.length = 0)
  .ok { dir with directoryState := state, tbe := dir.tbe.map fun tbe => { tbe with tbeState := state } }

def transition (state : DirectoryState) (event : DirectoryEvent) : Option (List DirectoryAction × DirectoryState) :=
  if state ∈ [.M_DRD, .M_DWR, .M_DWRI, .M_DRDI] ∧ event = .GETX then some ([.recycleRequestQueue], state)
  else if state ∈ [.IM, .MI, .ID, .ID_W] ∧ event ∈ [.GETX, .GETS, .PUTX, .PUTX_NotOwner] then
    some ([.recycleRequestQueue], state)
  else if state ∈ [.IM, .MI, .ID, .ID_W] ∧ event ∈ [.DMA_READ, .DMA_WRITE] then
    some ([.recycleDMARequestQueue], state)
  else match state, event with
    | .I, .GETX =>
      some ([.allocateTBEFromRequestNet, .queueMemoryFetchRequest, .ownerIsRequestor, .popIncomingRequestQueue], .IM)
    | .IM, .Memory_Data => some ([.sendData, .deallocateTBE, .popMemQueue], .M)
    | .I, .DMA_READ =>
      some ([.allocateTbeForDmaRead, .queueMemoryFetchRequestDMA, .popIncomingDMARequestQueue], .ID)
    | .ID, .Memory_Data => some ([.drSendDMAData, .deallocateTBE, .popMemQueue], .I)
    | .I, .DMA_WRITE => some ([.allocateTBE, .queueMemoryWBRequestPartial, .popIncomingDMARequestQueue], .ID_W)
    | .ID_W, .Memory_Ack => some ([.sendDMAAck, .deallocateTBE, .popMemQueue], .I)
    | .M, .DMA_READ => some ([.allocateTBE, .sendCacheInvalidate, .popIncomingDMARequestQueue], .M_DRD)
    | .M_DRD, .PUTX =>
      some ([.drpSendDMAData, .clearOwner, .queueMemoryWBRequest, .popIncomingRequestQueue], .M_DRDI)
    | .M_DRDI, .Memory_Ack => some ([.lSendWriteBackAck, .deallocateTBE, .popMemQueue], .I)
    | .M, .DMA_WRITE => some ([.allocateTBE, .sendCacheInvalidate, .popIncomingDMARequestQueue], .M_DWR)
    | .M_DWR, .PUTX => some ([.queueMemoryWBRequestPartialTBE, .clearOwner, .popIncomingRequestQueue], .M_DWRI)
    | .M_DWRI, .Memory_Ack => some ([.lSendWriteBackAck, .sendDMAAck, .deallocateTBE, .popMemQueue], .I)
    | .M, .GETX => some ([.forwardRequest, .ownerIsRequestor, .popIncomingRequestQueue], .M)
    | .M, .PUTX =>
      some ([.clearOwner, .allocateTBEFromRequestNet, .queueMemoryWBRequest, .popIncomingRequestQueue], .MI)
    | .MI, .Memory_Ack => some ([.lSendWriteBackAck, .deallocateTBE, .popMemQueue], .I)
    | .M, .PUTX_NotOwner => some ([.sendWriteBackNack, .popIncomingRequestQueue], .M)
    | .I, .PUTX_NotOwner => some ([.sendWriteBackNack, .popIncomingRequestQueue], .I)
    | _, _ => none

/-! ### Ports -/

instance [DecidableEq ι] [DecidableEq κ] (id : MachineID ι κ) (owners : List (MachineID ι κ)) : Decidable (id ∈ owners) :=
  inferInstance

/-- The event of a request of a cache. -/
def requestEvent [DecidableEq ι] [DecidableEq κ] (dir : Directory ι κ) (message : RequestMsg ι κ) :
    Except SliccFailure DirectoryEvent :=
  match message.type with
  | .GETS => .ok .GETS
  | .GETX => .ok .GETX
  | .PUTX => .ok (if message.requestor ∈ dir.owner then .PUTX else .PUTX_NotOwner)
  | _ => .error .invalidTransition

/-- The event of a request of a DMA controller. -/
def dmaEvent (message : DMARequestMsg ι κ) : DirectoryEvent :=
  match message.type with
  | .READ => .DMA_READ
  | .WRITE => .DMA_WRITE

/-- The event of a message of the memory. -/
def memoryEvent (message : MemoryMsg ι κ) : DirectoryEvent :=
  match message.type with
  | .MEMORY_READ => .Memory_Data
  | .MEMORY_WB => .Memory_Ack

end Directory

/-- The message that triggers a transition. -/
structure DirectoryTrigger (ι κ : Type) where
  request : Option (RequestMsg ι κ)
  dmaRequest : Option (DMARequestMsg ι κ)
  memory : Option (MemoryMsg ι κ)

/-- The directory in a transition, with what it sends, and whether it takes the message that triggers it. -/
structure DirectoryContext (ι κ : Type) where
  dir : Directory ι κ
  forwards : List (MachineID ι κ × RequestMsg ι κ)
  responses : List (MachineID ι κ × ResponseMsg)
  dmaResponses : List (MachineID ι κ × DMAResponseMsg)
  memoryRequests : List (MemoryRequest ι κ)
  popped : Bool

namespace DirectoryContext

variable {ι κ : Type} (blockSize : Nat) (trigger : DirectoryTrigger ι κ) (ctx : DirectoryContext ι κ)

/-- `TBEs.allocate( address )`, and what the TBE holds. -/
def allocate (tbe : DirectoryTBE ι κ) : Except SliccFailure (DirectoryContext ι κ) := do
  ensure ctx.dir.tbe.isNone
  .ok { ctx with dir := { ctx.dir with tbe := some tbe } }

def respondDMA (message : DMAResponseMsg) : Except SliccFailure (DirectoryContext ι κ) := do
  let tbe ← peek ctx.dir.tbe
  let requestor ← peek tbe.dmaRequestor
  .ok { ctx with dmaResponses := ctx.dmaResponses ++ [(requestor, message)] }

/-- `queueMemoryRead( id, addr, latency )`. -/
def queueMemoryRead (id : MachineID ι κ) : DirectoryContext ι κ :=
  { ctx with memoryRequests := ctx.memoryRequests ++ [⟨id, .read⟩] }

/-- `queueMemoryWrite( id, addr, latency, block )`. -/
def queueMemoryWrite (id : MachineID ι κ) (block : DataBlock) : DirectoryContext ι κ :=
  { ctx with memoryRequests := ctx.memoryRequests ++ [⟨id, .write block⟩] }

/-- `queueMemoryWritePartial( id, addr, latency, block, size )`, for the offset of `addr` in the line. -/
def queueMemoryWritePartial (id : MachineID ι κ) (offset : Nat) (block : DataBlock) (size : Nat) :
    Except SliccFailure (DirectoryContext ι κ) := do
  let bytes ← peek (block.getData blockSize offset size)
  .ok { ctx with memoryRequests := ctx.memoryRequests ++ [⟨id, .writePartial offset bytes⟩] }

def perform : DirectoryAction → Except SliccFailure (DirectoryContext ι κ)
  | .lSendWriteBackAck => do
    let message ← peek trigger.memory
    let id := message.originalRequestorMachId
    .ok { ctx with forwards := ctx.forwards ++ [(id, { type := .WB_ACK, requestor := id })] }
  | .sendWriteBackNack => do
    let message ← peek trigger.request
    let id := message.requestor
    .ok { ctx with forwards := ctx.forwards ++ [(id, { type := .WB_NACK, requestor := id })] }
  | .clearOwner => .ok { ctx with dir := { ctx.dir with owner := [] } }
  | .sendData => do
    let message ← peek trigger.memory
    .ok { ctx with responses := ctx.responses ++ [(message.originalRequestorMachId, ⟨message.dataBlk⟩)] }
  | .drSendDMAData => do
    let message ← peek trigger.memory
    ctx.respondDMA ⟨.DATA, message.dataBlk⟩
  | .drpSendDMAData => do
    let message ← peek trigger.request
    ctx.respondDMA ⟨.DATA, message.dataBlk⟩
  | .sendDMAAck => ctx.respondDMA { type := .ACK }
  | .ownerIsRequestor => do
    let message ← peek trigger.request
    .ok { ctx with dir := { ctx.dir with owner := [message.requestor] } }
  | .forwardRequest => do
    let message ← peek trigger.request
    let forwarded := ctx.dir.owner.map fun owner => (owner, { type := message.type, requestor := message.requestor })
    .ok { ctx with forwards := ctx.forwards ++ forwarded }
  | .sendCacheInvalidate =>
    let invalidated := ctx.dir.owner.map fun owner => (owner, { type := .INV, requestor := .directory })
    .ok { ctx with forwards := ctx.forwards ++ invalidated }
  | .popIncomingRequestQueue | .popIncomingDMARequestQueue | .popMemQueue => .ok { ctx with popped := true }
  | .allocateTBE => do
    let message ← peek trigger.dmaRequest
    ctx.allocate {
      dataBlk := message.dataBlk
      physicalAddress := message.physicalAddress
      len := message.len
      dmaRequestor := some message.requestor }
  | .allocateTbeForDmaRead => do
    let message ← peek trigger.dmaRequest
    ctx.allocate { dmaRequestor := some message.requestor }
  | .allocateTBEFromRequestNet => do
    let message ← peek trigger.request
    ctx.allocate { dataBlk := message.dataBlk }
  | .deallocateTBE => do
    ensure ctx.dir.tbe.isSome
    .ok { ctx with dir := { ctx.dir with tbe := none } }
  | .recycleRequestQueue | .recycleDMARequestQueue => .ok ctx
  | .queueMemoryFetchRequest => do
    let message ← peek trigger.request
    .ok (ctx.queueMemoryRead message.requestor)
  | .queueMemoryFetchRequestDMA => do
    let message ← peek trigger.dmaRequest
    .ok (ctx.queueMemoryRead message.requestor)
  | .queueMemoryWBRequestPartial => do
    let message ← peek trigger.dmaRequest
    ctx.queueMemoryWritePartial blockSize message.requestor 0 message.dataBlk message.len
  | .queueMemoryWBRequestPartialTBE => do
    let message ← peek trigger.request
    let tbe ← peek ctx.dir.tbe
    ctx.queueMemoryWritePartial blockSize message.requestor 0 tbe.dataBlk tbe.len
  | .queueMemoryWBRequest => do
    let message ← peek trigger.request
    .ok (ctx.queueMemoryWrite message.requestor message.dataBlk)

end DirectoryContext

def Directory.doTransition {ι κ : Type} (blockSize : Nat) (trigger : DirectoryTrigger ι κ) (event : DirectoryEvent)
    (dir : Directory ι κ) : Except SliccFailure (DirectoryContext ι κ) :=
  match transition dir.getState event with
  | none => .error .invalidTransition
  | some (actions, next) => do
    let ctx ← actions.foldlM (DirectoryContext.perform blockSize trigger) ⟨dir, [], [], [], [], false⟩
    let dir ← ctx.dir.setState next
    .ok { ctx with dir }

end Emas.Ruby

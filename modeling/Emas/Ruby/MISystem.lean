/-
**The MI protocol for one line.**

Any number of L1 caches `ι` and DMA controllers `κ`, one directory and the memory, as `MI_example-cache.sm`,
`MI_example-dir.sm` and `MI_example-dma.sm` describe them; and a step for each message that can be delivered.

* The messages in flight to or from a cache are kept with it, and so are those of a DMA controller. A step takes the
  message at any position; there is no message at a position behind the last one.
* A message that is stalled or recycled stays in flight.
* The memory answers each packet once. The callbacks of the DMA sequencer have no effect here.
-/

import Emas.Ruby.MIControllers

namespace Emas.Ruby

/-! ### DMA controllers -/

/-- `State`. -/
inductive DMAState where
  | READY | BUSY_RD | BUSY_WR
  deriving DecidableEq, Repr

/-- `Event`. -/
inductive DMAEvent where
  | ReadRequest | WriteRequest | Data | Ack
  deriving DecidableEq, Repr

/-- The actions. -/
inductive DMAAction where
  | sendReadRequest | sendWriteRequest | ackCallback | dataCallback | updateTBEData | allocateTBE | deallocateTBE
  | popRequestQueue | popResponseQueue | stallAndWaitRequestQueue | wakeUpAllDependents
  deriving DecidableEq, Repr

/-- `TBE`. -/
structure DMATBE where
  tbeState : DMAState
  dataBlk : DataBlock

/-- `SequencerMsg`, of a request for a line. -/
structure SequencerMsg where
  write : Bool
  physicalAddress : Nat
  dataBlk : DataBlock
  len : Nat

/-- The message of `DMASequencer::makeRequest( pkt )`, for an access of `len` bytes at this offset of the line. -/
def DMASequencer.message {blockSize : Nat} (write : Bool) (offset : Fin blockSize) (len : Nat) (data : List UInt8) :
    SequencerMsg :=
  let msgLen := if offset + len ≤ blockSize then len else blockSize - offset
  ⟨write, offset, if write then DataBlock.clear.overwrite data offset msgLen else .clear, msgLen⟩

def DMAState.transition (state : DMAState) (event : DMAEvent) : Option (List DMAAction × DMAState) :=
  match state, event with
  | .READY, .ReadRequest => some ([.allocateTBE, .sendReadRequest, .popRequestQueue], .BUSY_RD)
  | .READY, .WriteRequest => some ([.allocateTBE, .sendWriteRequest, .popRequestQueue], .BUSY_WR)
  | .BUSY_RD, .Data =>
    some ([.updateTBEData, .dataCallback, .deallocateTBE, .popResponseQueue, .wakeUpAllDependents], .READY)
  | .BUSY_WR, .Ack => some ([.ackCallback, .deallocateTBE, .popResponseQueue, .wakeUpAllDependents], .READY)
  | .BUSY_RD, .ReadRequest | .BUSY_RD, .WriteRequest => some ([.stallAndWaitRequestQueue], .BUSY_RD)
  | .BUSY_WR, .ReadRequest | .BUSY_WR, .WriteRequest => some ([.stallAndWaitRequestQueue], .BUSY_WR)
  | _, _ => none

/-- A DMA controller in a transition, with what it sends, and whether it takes the message that triggers it. -/
structure DMAContext (ι κ : Type) where
  tbe : Option DMATBE
  requests : List (DMARequestMsg ι κ)
  popped : Bool

namespace DMAContext

variable {ι κ : Type} (machineID : κ) (request : Option SequencerMsg) (response : Option DMAResponseMsg)
  (ctx : DMAContext ι κ)

/-- What an action does. -/
def perform : DMAAction → Except SliccFailure (DMAContext ι κ)
  | .sendReadRequest => do
    let message ← peek request
    .ok { ctx with
      requests := ctx.requests ++ [⟨.READ, message.physicalAddress, .dma machineID, message.dataBlk, message.len⟩] }
  | .sendWriteRequest => do
    let message ← peek request
    .ok { ctx with
      requests := ctx.requests ++ [⟨.WRITE, message.physicalAddress, .dma machineID, message.dataBlk, message.len⟩] }
  | .updateTBEData => do
    let tbe ← peek ctx.tbe
    let message ← peek response
    .ok { ctx with tbe := some { tbe with dataBlk := message.dataBlk } }
  | .allocateTBE => do
    ensure ctx.tbe.isNone
    .ok { ctx with tbe := some ⟨.READY, .clear⟩ }
  | .deallocateTBE => do
    ensure ctx.tbe.isSome
    .ok { ctx with tbe := none }
  | .popRequestQueue | .popResponseQueue => .ok { ctx with popped := true }
  | .ackCallback | .dataCallback | .stallAndWaitRequestQueue | .wakeUpAllDependents => .ok ctx

end DMAContext

def DMATBE.doTransition {ι κ : Type} (machineID : κ) (request : Option SequencerMsg) (response : Option DMAResponseMsg)
    (event : DMAEvent) (tbe : Option DMATBE) : Except SliccFailure (DMAContext ι κ) :=
  match (tbe.elim .READY DMATBE.tbeState).transition event with
  | none => .error .invalidTransition
  | some (actions, next) => do
    let ctx ← actions.foldlM (DMAContext.perform machineID request response) ⟨tbe, [], false⟩
    .ok { ctx with tbe := ctx.tbe.map fun tbe => { tbe with tbeState := next } }

/-! ### The system -/

/-- A cache with its buffers. -/
structure L1Node (ι κ : Type) where
  cache : L1Cache
  requestFromCache : List (RequestMsg ι κ)
  forwardToCache : List (RequestMsg ι κ)
  responseToCache : List ResponseMsg

/-- A DMA controller with its buffers. -/
structure DMANode (ι κ : Type) where
  tbe : Option DMATBE
  requestToDir : List (DMARequestMsg ι κ)
  responseFromDir : List DMAResponseMsg

/-- All controllers, and the memory with the packets to it and the messages from it. -/
structure MISystem (ι κ : Type) where
  nodes : ι → L1Node ι κ
  dmas : κ → DMANode ι κ
  dir : Directory ι κ
  memory : DataBlock
  memoryRequests : List (MemoryRequest ι κ)
  responseFromMemory : List (MemoryMsg ι κ)

/-- What can happen: a processor asks for a load, a store or a replacement, a controller takes a message, the memory
answers a packet, a DMA sequencer has a request. -/
inductive MIAction (ι κ : Type) (blockSize : Nat) where
  | load (version : ι)
  | ifetch (version : ι)
  | store (version : ι) (hits : DataBlock → DataBlock)
  | replacement (version : ι)
  | forwardRequestNetwork (version : ι) (i : Nat)
  | responseNetwork (version : ι) (i : Nat) (hits : DataBlock → DataBlock)
  | requestQueue (version : ι) (i : Nat)
  | dmaRequestQueue (version : κ) (i : Nat)
  | memQueue (i : Nat)
  | memory (i : Nat)
  | dmaRequest (version : κ) (write : Bool) (offset : Fin blockSize) (len : Nat) (data : List UInt8)
  | dmaResponseQueue (version : κ) (i : Nat)

namespace MISystem

variable {ι κ : Type} [DecidableEq ι] [DecidableEq κ] {blockSize : Nat} (s : MISystem ι κ)

/-- Nothing is cached, and the memory holds this data. -/
def init (memory : DataBlock) : MISystem ι κ where
  nodes _ := ⟨⟨none, none⟩, [], [], []⟩
  dmas _ := ⟨none, [], []⟩
  dir := ⟨.I, [], none⟩
  memory := memory
  memoryRequests := []
  responseFromMemory := []

def setNode (version : ι) (node : L1Node ι κ) : MISystem ι κ := { s with nodes := Function.update s.nodes version node }

def setDMA (version : κ) (node : DMANode ι κ) : MISystem ι κ := { s with dmas := Function.update s.dmas version node }

/-! ### Networks -/

def sendForward (s : MISystem ι κ) : MachineID ι κ × RequestMsg ι κ → Except SliccFailure (MISystem ι κ)
  | (.l1Cache version, message) =>
    let node := s.nodes version
    .ok (s.setNode version { node with forwardToCache := node.forwardToCache ++ [message] })
  | _ => .error .misrouted

def sendResponse (s : MISystem ι κ) : MachineID ι κ × ResponseMsg → Except SliccFailure (MISystem ι κ)
  | (.l1Cache version, message) =>
    let node := s.nodes version
    .ok (s.setNode version { node with responseToCache := node.responseToCache ++ [message] })
  | _ => .error .misrouted

def sendDMAResponse (s : MISystem ι κ) : MachineID ι κ × DMAResponseMsg → Except SliccFailure (MISystem ι κ)
  | (.dma version, message) =>
    let node := s.dmas version
    .ok (s.setDMA version { node with responseFromDir := node.responseFromDir ++ [message] })
  | _ => .error .misrouted

/-! ### Steps -/

/-- A transition of a cache; `remove` takes the message that triggers it out of its buffer. -/
def runCache (version : ι) (event : L1Event) (trigger : L1Trigger ι κ) (remove : L1Node ι κ → L1Node ι κ) :
    Except SliccFailure (MISystem ι κ × List (L1Callback ι)) := do
  let node := s.nodes version
  let ctx ← node.cache.doTransition version trigger event
  let taken := if ctx.popped then remove node else node
  let node := { taken with cache := ctx.cache, requestFromCache := taken.requestFromCache ++ ctx.requests }
  let sent ← ctx.responses.foldlM sendResponse (s.setNode version node)
  .ok (sent, ctx.callbacks)

/-- The event of a forwarded message. -/
def forwardEvent (message : RequestMsg ι κ) : Except SliccFailure L1Event :=
  match message.type with
  | .GETX => .ok .Fwd_GETX
  | .WB_ACK => .ok .Writeback_Ack
  | .WB_NACK => .ok .Writeback_Nack
  | .INV => .ok .Inv
  | _ => .error .invalidTransition

/-- A transition of the directory; `remove` takes the message that triggers it out of its buffer. -/
def runDirectory (blockSize : Nat) (event : DirectoryEvent) (trigger : DirectoryTrigger ι κ)
    (remove : MISystem ι κ → MISystem ι κ) : Except SliccFailure (MISystem ι κ) := do
  let ctx ← s.dir.doTransition blockSize trigger event
  let taken := if ctx.popped then remove s else s
  let sent := { taken with dir := ctx.dir, memoryRequests := taken.memoryRequests ++ ctx.memoryRequests }
  let sent ← ctx.forwards.foldlM sendForward sent
  let sent ← ctx.responses.foldlM sendResponse sent
  ctx.dmaResponses.foldlM sendDMAResponse sent

/-- A transition of a DMA controller; `remove` takes the message that triggers it out of its buffer. -/
def runDMA (version : κ) (event : DMAEvent) (request : Option SequencerMsg) (response : Option DMAResponseMsg)
    (remove : DMANode ι κ → DMANode ι κ) : Except SliccFailure (MISystem ι κ) := do
  let node := s.dmas version
  let ctx ← DMATBE.doTransition version request response event node.tbe
  let taken := if ctx.popped then remove node else node
  .ok (s.setDMA version { taken with tbe := ctx.tbe, requestToDir := taken.requestToDir ++ ctx.requests })

/-- The memory performs an access and answers it. -/
def answerMemory (request : MemoryRequest ι κ) : MISystem ι κ :=
  match request.access with
  | .read => { s with
      responseFromMemory := s.responseFromMemory ++ [⟨.MEMORY_READ, request.id, s.memory⟩] }
  | .write block => { s with
      memory := block
      responseFromMemory := s.responseFromMemory ++ [{ type := .MEMORY_WB, originalRequestorMachId := request.id }] }
  | .writePartial offset bytes => { s with
      memory := s.memory.overwrite bytes offset bytes.length
      responseFromMemory := s.responseFromMemory ++ [{ type := .MEMORY_WB, originalRequestorMachId := request.id }] }

/-- A request of a processor. -/
def processor (version : ι) (event : L1Event) (hits : DataBlock → DataBlock) :
    Except SliccFailure (MISystem ι κ × List (L1Callback ι)) :=
  s.runCache version event ⟨none, none, hits⟩ id

/-- One action, with the callbacks of the sequencer. -/
def step (s : MISystem ι κ) : MIAction ι κ blockSize → Except SliccFailure (MISystem ι κ × List (L1Callback ι))
  | .load version => s.processor version .Load id
  | .ifetch version => s.processor version .Ifetch id
  | .store version hits => s.processor version .Store hits
  | .replacement version => s.processor version .Replacement id
  | .forwardRequestNetwork version i =>
    match (s.nodes version).forwardToCache[i]? with
    | none => .ok (s, [])
    | some message => do
      let event ← forwardEvent message
      s.runCache version event ⟨some message, none, id⟩ fun node =>
        { node with forwardToCache := node.forwardToCache.eraseIdx i }
  | .responseNetwork version i hits =>
    match (s.nodes version).responseToCache[i]? with
    | none => .ok (s, [])
    | some message =>
      s.runCache version .Data ⟨none, some message, hits⟩ fun node =>
        { node with responseToCache := node.responseToCache.eraseIdx i }
  | .requestQueue version i =>
    match (s.nodes version).requestFromCache[i]? with
    | none => .ok (s, [])
    | some message => do
      let event ← s.dir.requestEvent message
      let next ← s.runDirectory blockSize event ⟨some message, none, none⟩ fun s =>
        let node := s.nodes version
        s.setNode version { node with requestFromCache := node.requestFromCache.eraseIdx i }
      .ok (next, [])
  | .dmaRequestQueue version i =>
    match (s.dmas version).requestToDir[i]? with
    | none => .ok (s, [])
    | some message => do
      let next ← s.runDirectory blockSize (Directory.dmaEvent message) ⟨none, some message, none⟩ fun s =>
        let node := s.dmas version
        s.setDMA version { node with requestToDir := node.requestToDir.eraseIdx i }
      .ok (next, [])
  | .memQueue i =>
    match s.responseFromMemory[i]? with
    | none => .ok (s, [])
    | some message => do
      let next ← s.runDirectory blockSize (Directory.memoryEvent message) ⟨none, none, some message⟩ fun s =>
        { s with responseFromMemory := s.responseFromMemory.eraseIdx i }
      .ok (next, [])
  | .memory i =>
    match s.memoryRequests[i]? with
    | none => .ok (s, [])
    | some request => .ok ({ s with memoryRequests := s.memoryRequests.eraseIdx i }.answerMemory request, [])
  | .dmaRequest version write offset len data => do
    let message := DMASequencer.message write offset len data
    let next ← s.runDMA version (if write then .WriteRequest else .ReadRequest) (some message) none id
    .ok (next, [])
  | .dmaResponseQueue version i =>
    match (s.dmas version).responseFromDir[i]? with
    | none => .ok (s, [])
    | some message => do
      let event := match message.type with
        | .ACK => DMAEvent.Ack
        | .DATA => DMAEvent.Data
      let next ← s.runDMA version event none (some message) fun node =>
        { node with responseFromDir := node.responseFromDir.eraseIdx i }
      .ok (next, [])

end MISystem

end Emas.Ruby

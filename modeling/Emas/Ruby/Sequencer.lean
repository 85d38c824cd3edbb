/-
**The sequencer.**

`class Sequencer` of `mem/ruby/system/Sequencer.cc`: the requests of a processor, in one list for each line, and the
callbacks of the protocol that complete them.

* An entry of the request table is erased when its list is empty. Addresses are blocked in the controller,
  `m_controller->m_block_map`. Of the data cache only the lock of an entry is read.
* The packets that the processor sends while a hit is called back are given with the callback, a list for each hit; the
  hits that follow these send none.
* The system is neither warming up nor cooling down, and no tester is used; statistics and the check for deadlocks have no
  effect on requests. The extra data of a store-conditional is not modelled.
* Where an assertion or a panic ends the program there is no result.
* `trace` is no member of the class: it is what the sequencer and its surroundings have done, in order.
-/

import Emas.Gem5.Packet
import Emas.Lib.SortedMap
import Emas.Ruby.Address

namespace Emas.Ruby

open Gem5

/-- `enum RubyRequestType`, as far as the sequencer uses it. -/
inductive RubyRequestType where
  | ld | st | atomic | ifetch | flush | rmwRead | lockedRmwRead | lockedRmwWrite | loadLinked | storeConditional
  deriving DecidableEq, Repr

/-- `enum RequestStatus`, as far as the sequencer uses it. -/
inductive RequestStatus where
  | ready | issued | bufferFull | aliased
  deriving DecidableEq, Repr

/-- `struct SequencerRequest`. -/
structure SequencerRequest where
  pkt : Packet
  type : RubyRequestType
  secondType : RubyRequestType
  issueTime : Nat
  deriving DecidableEq

/-- `class RubyRequest`: a message of the mandatory queue. -/
structure RubyRequest where
  physicalAddress : Addr
  type : RubyRequestType
  deriving DecidableEq

/-- What a sequencer and its surroundings do: a request is accepted, a message goes to the mandatory queue, the protocol
answers it, a request is completed with these bytes and removed, the line is written by another one. -/
inductive SequencerEvent where
  | accepted (request : SequencerRequest)
  | issued (message : RubyRequest)
  | answered (address : Addr)
  | completed (address : Addr) (request : SequencerRequest) (data : List UInt8)
  | external (address : Addr) (data : DataBlock)

/-- The parameters of a sequencer and its system; a line has `2 ^ blockBits` bytes. -/
structure SequencerConfig where
  blockBits : Nat
  maxOutstandingRequests : Nat
  runningGarnetStandalone : Bool
  x86 : Bool
  deriving DecidableEq, Repr

/-- `class Sequencer`. -/
structure Sequencer where
  requestTable : SortedMap Addr (List SequencerRequest)
  outstandingCount : Int
  blockMap : Addr → Bool
  locked : Addr → Option Bool
  mandatoryQ : List RubyRequest
  trace : List SequencerEvent

/-- A load or an instruction fetch. -/
def RubyRequestType.isLoad (type : RubyRequestType) : Bool := type = .ld || type = .ifetch

namespace Sequencer

variable (cfg : SequencerConfig) (curCycle : Nat) (seq : Sequencer)

/-- `Sequencer( .. )`. -/
def init : Sequencer := ⟨.empty, 0, fun _ => false, fun _ => none, [], []⟩

/-- `m_RequestTable[line_addr]`. -/
def requests (line : Addr) : List SequencerRequest := (seq.requestTable.find? line).getD []

def note (event : SequencerEvent) : Sequencer := { seq with trace := seq.trace ++ [event] }

/-! ### Requests -/

def issueRequest (pkt : Packet) (secondaryType : RubyRequestType) : Sequencer :=
  let msg : RubyRequest := ⟨pkt.addr, secondaryType⟩
  { seq with mandatoryQ := seq.mandatoryQ ++ [msg] }.note (.issued msg)

def insertRequest (pkt : Packet) (primaryType secondaryType : RubyRequestType) : RequestStatus × Sequencer :=
  let lineAddr := makeLineAddress cfg.blockBits pkt.addr
  let request : SequencerRequest := ⟨pkt, primaryType, secondaryType, curCycle⟩
  let seqReqList := seq.requests lineAddr ++ [request]
  let inserted := { seq with
    requestTable := seq.requestTable.insert lineAddr seqReqList
    outstandingCount := seq.outstandingCount + 1 }.note (.accepted request)
  if 1 < seqReqList.length then (.aliased, inserted) else (.ready, inserted)

/-- `X86ISA::StoreCheck << X86ISA::FlagShift`. -/
def storeCheck : BitVec 64 := 4#64 <<< 4

/-- The types of a request, as `makeRequest` finds them. -/
def requestTypes (pkt : Packet) : Option (RubyRequestType × RubyRequestType) :=
  if pkt.isLLSC then
    if pkt.isWrite then some (.storeConditional, .atomic)
    else if pkt.isRead then some (.loadLinked, .atomic) else none
  else if pkt.req.isLockedRMW then
    if pkt.isWrite then some (.lockedRmwWrite, .st)
    else if pkt.isRead then some (.lockedRmwRead, .st) else none
  else if pkt.isWrite then some (.st, .st)
  else if pkt.isRead then
    if pkt.req.isInstFetch then some (.ifetch, .ifetch)
    else if cfg.x86 && pkt.req.isSet storeCheck then some (.rmwRead, .st) else some (.ld, .ld)
  else if pkt.isFlush then some (.flush, .flush) else none

/-- `makeRequest( pkt )`. -/
def makeRequest (pkt : Packet) : Option (RequestStatus × Sequencer) :=
  if cfg.maxOutstandingRequests ≤ seq.outstandingCount then some (.bufferFull, seq)
  else match requestTypes cfg pkt with
    | none => none
    | some (primaryType, secondaryType) =>
      if seq.blockMap (makeLineAddress cfg.blockBits pkt.addr) && primaryType ≠ .lockedRmwWrite then
        some (.aliased, seq)
      else
        let (status, inserted) := seq.insertRequest cfg curCycle pkt primaryType secondaryType
        if status ≠ .ready ∧ status ≠ .aliased then some (status, inserted)
        else some (.issued, if status ≠ .aliased then inserted.issueRequest pkt secondaryType else inserted)

/-- The packets that are sent one after another. -/
def makeRequests : List Packet → Sequencer → Option Sequencer
  | [], seq => some seq
  | pkt :: rest, seq => do
    let (_, seq) ← seq.makeRequest cfg curCycle pkt
    makeRequests rest seq

/-! ### Callbacks -/

def handleLlsc (address : Addr) (request : SequencerRequest) : Bool × Sequencer :=
  match seq.locked address with
  | none => (true, seq)
  | some locked =>
    if request.type = .storeConditional then
      (locked, { seq with locked := Function.update seq.locked address (some false) })
    else if request.type = .loadLinked then
      (true, { seq with locked := Function.update seq.locked address (some true) })
    else if locked then (true, { seq with locked := Function.update seq.locked address (some false) })
    else (true, seq)

/-- `m_controller->blockOnQueue( address, m_mandatory_q_ptr )`. -/
def blockOnQueue (address : Addr) : Sequencer := { seq with blockMap := Function.update seq.blockMap address true }

/-- `m_controller->unblock( address )`. -/
def unblock (address : Addr) : Sequencer := { seq with blockMap := Function.update seq.blockMap address false }

/-- What `hitCallback( srequest, data, llscSuccess, .. )` does to the line and to the data of the packet. -/
def hitCallback (srequest : SequencerRequest) (data : DataBlock) (llscSuccess : Bool) :
    Option (DataBlock × List UInt8) :=
  let pkt := srequest.pkt
  let offset := (getOffset cfg.blockBits pkt.addr).toNat
  if pkt.isFlush then some (data, pkt.data)
  else if srequest.type ∈ [.ld, .ifetch, .rmwRead, .lockedRmwRead, .loadLinked] then do
    let read ← data.getData (2 ^ cfg.blockBits) offset pkt.size
    some (data, read)
  else if pkt.req.isSwap then do
    let read ← data.getData (2 ^ cfg.blockBits) offset pkt.size
    let data ← data.setData (2 ^ cfg.blockBits) pkt.writeData offset pkt.size
    some (data, read)
  else if srequest.type ≠ .storeConditional ∨ llscSuccess then do
    let data ← data.setData (2 ^ cfg.blockBits) pkt.data offset pkt.size
    some (data, pkt.data)
  else some (data, pkt.data)

/-- The front of the list is called back, the processor sends these packets, `pop_front( )` and `markRemoved( )`. -/
def finishFront (address : Addr) (request : SequencerRequest) (llscSuccess : Bool) (sent : List Packet)
    (data : DataBlock) : Option (DataBlock × Sequencer) := do
  let (data, answer) ← hitCallback cfg request data llscSuccess
  let seq ← makeRequests cfg curCycle sent seq
  let removed := { seq with
    requestTable := seq.requestTable.insert address (seq.requests address).tail
    outstandingCount := seq.outstandingCount - 1 }
  some (data, removed.note (.completed address request answer))

/-- The assertion of `recordMissLatency`. -/
def latencyRecorded (request : SequencerRequest) : Bool := request.issueTime ≤ curCycle

/-- What `writeCallback` does about a request before its hit: nothing but a check for a load. -/
def prepareWrite (address : Addr) (rubyRequest : Bool) (request : SequencerRequest) : Option (Bool × Sequencer) :=
  if rubyRequest ∧ request.type.isLoad then none
  else if !request.type.isLoad then
    let (success, seq) := if cfg.runningGarnetStandalone then (true, seq) else seq.handleLlsc address request
    let seq :=
      if request.type = .lockedRmwRead then seq.blockOnQueue address
      else if request.type = .lockedRmwWrite then seq.unblock address
      else seq
    if rubyRequest ∧ !latencyRecorded curCycle request then none else some (success, seq)
  else if rubyRequest then none
  else some (true, seq)

/-- The loop of `writeCallback`. -/
def writeLoop (address : Addr) : Nat → Bool → List (List Packet) → DataBlock → Sequencer → Option (DataBlock × Sequencer)
  | 0, _, _, data, seq => if seq.requests address = [] then some (data, seq) else none
  | fuel + 1, rubyRequest, sent, data, seq =>
    match seq.requests address with
    | [] => some (data, seq)
    | request :: _ => do
      let (success, seq) ← seq.prepareWrite cfg curCycle address rubyRequest request
      let (data, seq) ← seq.finishFront cfg curCycle address request success (sent.headD []) data
      writeLoop address fuel false sent.tail data seq

/-- The loop of `readCallback`. -/
def readLoop (address : Addr) : Nat → Bool → List (List Packet) → DataBlock → Sequencer → Option (DataBlock × Sequencer)
  | 0, _, _, data, seq => if seq.requests address = [] then some (data, seq) else none
  | fuel + 1, rubyRequest, sent, data, seq =>
    match seq.requests address with
    | [] => some (data, seq)
    | request :: _ =>
      if rubyRequest ∧ !request.type.isLoad then none
      else if !request.type.isLoad then some (data, seq.issueRequest request.pkt request.secondType)
      else if rubyRequest ∧ !latencyRecorded curCycle request then none
      else do
        let (data, seq) ← seq.finishFront cfg curCycle address request true (sent.headD []) data
        readLoop address fuel false sent.tail data seq

/-- An entry with an empty list is erased. -/
def eraseIfEmpty (address : Addr) : Sequencer :=
  if seq.requests address = [] then { seq with requestTable := seq.requestTable.erase address } else seq

/-- The iterations that a list and the packets sent meanwhile can need. -/
def hits (seqReqList : List SequencerRequest) (sent : List (List Packet)) : Nat := seqReqList.length + sent.flatten.length

/-- `writeCallback( address, data, .. )`, with the data afterwards. -/
def writeCallback (address : Addr) (sent : List (List Packet)) (data : DataBlock) : Option (DataBlock × Sequencer) :=
  if address ≠ makeLineAddress cfg.blockBits address then none
  else match seq.requestTable.find? address with
    | none => none
    | some seqReqList => do
      let (data, seq) ← writeLoop cfg curCycle address (hits seqReqList sent) true sent data seq
      some (data, seq.eraseIfEmpty address)

/-- `readCallback( address, data, .. )`, with the data afterwards. -/
def readCallback (address : Addr) (sent : List (List Packet)) (data : DataBlock) : Option (DataBlock × Sequencer) :=
  if address ≠ makeLineAddress cfg.blockBits address then none
  else match seq.requestTable.find? address with
    | none => none
    | some seqReqList => do
      let (data, seq) ← readLoop cfg curCycle address (hits seqReqList sent) true sent data seq
      some (data, seq.eraseIfEmpty address)

end Sequencer

end Emas.Ruby

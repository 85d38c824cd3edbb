/-
**Packets.**

`class MemCmd`, `class Request` and `class Packet` of `mem/packet.hh` and `mem/request.hh`, as far as the caches read
them. The attributes of a command and its response are those of the table `MemCmd::commandInfo`; a flag of a request
is tested as a bit mask.

* The flags of a packet are fields. Its payload is a list of bytes; allocating it leaves its content open, so that a
  payload that nobody has written yet is the empty list.
* `fromMshr` says whether the stack of sender states has an `MSHR` entry. What a packet does to that entry of another
  cache is not part of the model.
-/

import Emas.Gem5.AddrRange
import Mathlib.Data.List.DropRight
import Mathlib.Order.Nat

namespace Emas.Gem5

def maxTick : Nat := 2 ^ 64 - 1

/-! ### Commands -/

/-- `enum MemCmd::Attribute`. -/
inductive MemCmd.Attribute where
  | isRead | isWrite | isUpgrade | isInvalidate | isClean | needsWritable | isRequest | isResponse | needsResponse
  | isEviction | isSWPrefetch | isHWPrefetch | isLlsc | hasData | isError | isPrint | isFlush | fromCache
  deriving DecidableEq, Repr

/-- `enum MemCmd::Command`. -/
inductive MemCmd where
  | invalidCmd | readReq | readResp | readRespWithInvalidate | writeReq | writeResp | writebackDirty
  | writebackClean | writeClean | cleanEvict | softPFReq | softPFExReq | hardPFReq | softPFResp | hardPFResp
  | writeLineReq | upgradeReq | scUpgradeReq | upgradeResp | scUpgradeFailReq | upgradeFailResp | readExReq
  | readExResp | readCleanReq | readSharedReq | loadLockedReq | storeCondReq | storeCondFailReq | storeCondResp
  | swapReq | swapResp | memFenceReq | memFenceResp | cleanSharedReq | cleanSharedResp | cleanInvalidReq
  | cleanInvalidResp | invalidDestError | badAddressError | functionalReadError | functionalWriteError | printReq
  | flushReq | invalidateReq | invalidateResp
  deriving DecidableEq, Repr

namespace MemCmd

open Attribute

/-- `commandInfo[cmd].attributes`. -/
def attributes : MemCmd → List Attribute
  | invalidCmd => []
  | readReq => [isRead, isRequest, needsResponse]
  | readResp => [isRead, isResponse, hasData]
  | readRespWithInvalidate => [isRead, isResponse, hasData, isInvalidate]
  | writeReq => [isWrite, needsWritable, isRequest, needsResponse, hasData]
  | writeResp => [isWrite, isResponse]
  | writebackDirty => [isWrite, isRequest, isEviction, hasData, fromCache]
  | writebackClean => [isWrite, isRequest, isEviction, hasData, fromCache]
  | writeClean => [isWrite, isRequest, hasData, fromCache]
  | cleanEvict => [isRequest, isEviction, fromCache]
  | softPFReq => [isRead, isRequest, isSWPrefetch, needsResponse]
  | softPFExReq => [isRead, needsWritable, isInvalidate, isRequest, isSWPrefetch, needsResponse]
  | hardPFReq => [isRead, isRequest, isHWPrefetch, needsResponse, fromCache]
  | softPFResp => [isRead, isResponse, isSWPrefetch, hasData]
  | hardPFResp => [isRead, isResponse, isHWPrefetch, hasData]
  | writeLineReq => [isWrite, needsWritable, isRequest, needsResponse, hasData]
  | upgradeReq => [isInvalidate, needsWritable, isUpgrade, isRequest, needsResponse, fromCache]
  | scUpgradeReq => [isInvalidate, needsWritable, isUpgrade, isLlsc, isRequest, needsResponse, fromCache]
  | upgradeResp => [isUpgrade, isResponse]
  | scUpgradeFailReq => [isRead, needsWritable, isInvalidate, isLlsc, isRequest, needsResponse, fromCache]
  | upgradeFailResp => [isRead, isResponse, hasData]
  | readExReq => [isRead, needsWritable, isInvalidate, isRequest, needsResponse, fromCache]
  | readExResp => [isRead, isResponse, hasData]
  | readCleanReq => [isRead, isRequest, needsResponse, fromCache]
  | readSharedReq => [isRead, isRequest, needsResponse, fromCache]
  | loadLockedReq => [isRead, isLlsc, isRequest, needsResponse]
  | storeCondReq => [isWrite, needsWritable, isLlsc, isRequest, needsResponse, hasData]
  | storeCondFailReq => [isWrite, needsWritable, isLlsc, isRequest, needsResponse, hasData]
  | storeCondResp => [isWrite, isLlsc, isResponse]
  | swapReq => [isRead, isWrite, needsWritable, isRequest, hasData, needsResponse]
  | swapResp => [isRead, isWrite, isResponse, hasData]
  | memFenceReq => [isRequest, needsResponse]
  | memFenceResp => [isResponse]
  | cleanSharedReq => [isRequest, isClean, needsResponse, fromCache]
  | cleanSharedResp => [isResponse, isClean]
  | cleanInvalidReq => [isRequest, isInvalidate, isClean, needsResponse, fromCache]
  | cleanInvalidResp => [isResponse, isInvalidate, isClean]
  | invalidDestError => [isResponse, isError]
  | badAddressError => [isResponse, isError]
  | functionalReadError => [isRead, isResponse, isError]
  | functionalWriteError => [isWrite, isResponse, isError]
  | printReq => [isRequest, isPrint]
  | flushReq => [isRequest, isFlush, needsWritable]
  | invalidateReq => [isInvalidate, isRequest, needsWritable, needsResponse, fromCache]
  | invalidateResp => [isInvalidate, isResponse]

/-- `testCmdAttrib( attrib )`. -/
def test (cmd : MemCmd) (attrib : Attribute) : Bool := attrib ∈ cmd.attributes

end MemCmd

/-! ### Requests -/

/-- `class Request`. An empty `byteEnable` enables every byte. -/
structure Request where
  paddr : Addr
  size : Nat
  flags : BitVec 64
  contextId : Int
  masterId : Nat
  taskId : Nat
  byteEnable : List Bool
  deriving DecidableEq

namespace Request

/-- `Request( paddr, size, flags, mid )` of a context. -/
def make (paddr : Addr) (size : Nat) (flags : BitVec 64) (masterId : Nat) (contextId : Int) : Request where
  paddr := paddr
  size := size
  flags := flags
  contextId := contextId
  masterId := masterId
  taskId := 1024
  byteEnable := []

def instFetch : BitVec 64 := 0x00000100#64
def uncacheable : BitVec 64 := 0x00000400#64
def strictOrder : BitVec 64 := 0x00000800#64
def mmappedIpr : BitVec 64 := 0x00002000#64
def privileged : BitVec 64 := 0x00008000#64
def lockedRMW : BitVec 64 := 0x00100000#64
def llsc : BitVec 64 := 0x00200000#64
def memSwap : BitVec 64 := 0x00400000#64
def memSwapCond : BitVec 64 := 0x00800000#64
def secure : BitVec 64 := 0x10000000#64
def invalidate : BitVec 64 := 0x100000000#64
def clean : BitVec 64 := 0x200000000#64

variable (req : Request)

/-- `_flags.isSet( mask )`: some flag of the mask is set. -/
def isSet (mask : BitVec 64) : Bool := req.flags &&& mask != 0#64

def isInstFetch : Bool := req.isSet instFetch

def isLockedRMW : Bool := req.isSet lockedRMW

def isSwap : Bool := req.isSet (memSwap ||| memSwapCond)

def isUncacheable : Bool := req.isSet uncacheable

def isCacheInvalidate : Bool := req.isSet invalidate

def isCacheMaintenance : Bool := req.isSet (clean ||| invalidate)

def isMasked : Bool := false ∈ req.byteEnable

end Request

/-! ### Packets -/

/-- `class Packet`. -/
structure Packet where
  id : Nat
  cmd : MemCmd
  req : Request
  addr : Addr
  size : Nat
  isSecure : Bool
  data : List UInt8
  expressSnoop : Bool
  cacheResponding : Bool
  responderHadWritable : Bool
  satisfied : Bool
  hasSharers : Bool
  fromMshr : Bool
  deriving DecidableEq

namespace Packet

/-- `Packet( req, cmd )`, with an identifier and a payload. -/
def ofRequest (id : Nat) (req : Request) (cmd : MemCmd) (data : List UInt8) : Packet where
  id := id
  cmd := cmd
  req := req
  addr := req.paddr
  size := req.size
  isSecure := req.isSet Request.secure
  data := data
  expressSnoop := false
  cacheResponding := false
  responderHadWritable := false
  satisfied := false
  hasSharers := false
  fromMshr := false

variable (pkt : Packet)

def isRead : Bool := pkt.cmd.test .isRead
def isWrite : Bool := pkt.cmd.test .isWrite
def isUpgrade : Bool := pkt.cmd.test .isUpgrade
def isInvalidate : Bool := pkt.cmd.test .isInvalidate
def isClean : Bool := pkt.cmd.test .isClean
def isRequest : Bool := pkt.cmd.test .isRequest
def isLLSC : Bool := pkt.cmd.test .isLlsc
def isFlush : Bool := pkt.cmd.test .isFlush
def needsResponse : Bool := pkt.cmd.test .needsResponse
def hasData : Bool := pkt.cmd.test .hasData
def fromCache : Bool := pkt.cmd.test .fromCache

/-- `needsWritable( )`, for a request. -/
def needsWritable : Bool := pkt.cmd.test .needsWritable

def getOffset (blkSize : Nat) : Nat := (pkt.addr &&& BitVec.ofNat 64 (blkSize - 1)).toNat

def getBlockAddr (blkSize : Nat) : Addr := pkt.addr &&& ~~~ BitVec.ofNat 64 (blkSize - 1)

def isMaskedWrite : Bool := pkt.cmd = .writeReq && pkt.req.isMasked

/-- `writeData( p )`, where the bytes at `p` are 0. -/
def writeData : List UInt8 :=
  if pkt.isMaskedWrite then List.zipWith (fun enabled byte => if enabled then byte else 0) pkt.req.byteEnable pkt.data
  else pkt.data

def setCacheResponding : Option Packet :=
  if pkt.isRequest && !pkt.cacheResponding then some { pkt with cacheResponding := true } else none

def setResponderHadWritable : Option Packet :=
  if pkt.cacheResponding && !pkt.responderHadWritable then some { pkt with responderHadWritable := true } else none

def setSatisfied : Option Packet :=
  if pkt.isClean && !pkt.satisfied then some { pkt with satisfied := true } else none

def setHasSharers : Packet := { pkt with hasSharers := true }

/-- `Packet( pkt, true, true )`: a copy without flags, with a payload of its own. -/
def copy : Packet where
  id := pkt.id
  cmd := pkt.cmd
  req := pkt.req
  addr := pkt.addr
  size := pkt.size
  isSecure := pkt.isSecure
  data := []
  expressSnoop := false
  cacheResponding := false
  responderHadWritable := false
  satisfied := false
  hasSharers := false
  fromMshr := pkt.fromMshr

/-- `Packet( make_shared<Request>( req ), cmd, blkSize, id )`: a packet for the block of the request. -/
def forBlock (blkSize : Nat) : Packet where
  id := pkt.id
  cmd := pkt.cmd
  req := pkt.req
  addr := pkt.req.paddr &&& ~~~ BitVec.ofNat 64 (blkSize - 1)
  size := blkSize
  isSecure := pkt.req.isSet Request.secure
  data := []
  expressSnoop := false
  cacheResponding := false
  responderHadWritable := false
  satisfied := false
  hasSharers := false
  fromMshr := false

/-- What a request is known by when its command is replaced. -/
def identity : Nat × Request := (pkt.id, pkt.req)

@[simp] theorem identity_copy : pkt.copy.identity = pkt.identity := rfl

@[simp] theorem identity_forBlock (blkSize : Nat) : (pkt.forBlock blkSize).identity = pkt.identity := rfl

end Packet

/-! ### The packet queue

`class PacketQueue` of `mem/packet_queue.cc`: packets that a port sends later, and the event that sends them.

* A tick is a natural number. `sendEvent` is the tick that the event is scheduled at, if it is.
* What the peer does with a packet is given to the call that sends it: it refuses the packet, or accepts it and meanwhile
  queues others.
* An assertion or a panic that fires ends the program; `QueueFailure` says which.
-/

def Packet.matchAddr (pkt other : Packet) : Bool := pkt.addr = other.addr && pkt.isSecure = other.isSecure

/-- `enum class DrainState`. -/
inductive DrainState where
  | running | draining | drained | resuming
  deriving DecidableEq, Repr

/-- A packet that was queued. The number of the call that queued it tells the packets apart. -/
structure QueuedPacket extends Packet where
  call : Nat
  deriving DecidableEq

/-- `class DeferredPacket`. -/
structure DeferredPacket where
  tick : Nat
  pkt : QueuedPacket
  deriving DecidableEq

/-- The assertions, by the function that makes them, and the panic of a queue that has grown too long. -/
inductive QueueFailure where
  | backInTime | expressSnoop | beyondHundred | scheduledWhileWaiting | waitingOnRetry | notReady | notWaiting
  deriving DecidableEq, Repr

/-- What happens to a packet that is sent: it is refused, or it is accepted after these packets were queued. -/
inductive SendOutcome where
  | refused
  | accepted (queued : List (QueuedPacket × Nat))

/-- The parameters of a packet queue. -/
structure QueueSettings where
  forceOrder : Bool
  disableSanityCheck : Bool
  deriving DecidableEq, Repr

/-- `class PacketQueue`. -/
structure PacketQueue where
  transmitList : List DeferredPacket
  sendEvent : Option Nat
  waitingOnRetry : Bool
  drainState : DrainState
  deriving DecidableEq

namespace PacketQueue

variable (settings : QueueSettings) (queue : PacketQueue) (curTick : Nat)

/-- `PacketQueue( .. )`. -/
def init : PacketQueue := ⟨[], none, false, .running⟩

/-! ### Queuing -/

def deferredPacketReadyTime : Nat := queue.transmitList.head?.elim maxTick DeferredPacket.tick

def schedSendEvent (when : Nat) : Except QueueFailure PacketQueue :=
  if queue.waitingOnRetry then
    if queue.sendEvent.isSome then .error .scheduledWhileWaiting else .ok queue
  else if when ≠ maxTick then
    let when := max when (curTick + 1)
    match queue.sendEvent with
    | none => .ok { queue with sendEvent := some when }
    | some scheduled => .ok (if when < scheduled then { queue with sendEvent := some when } else queue)
  else if queue.drainState = .draining ∧ queue.transmitList = [] ∧ queue.sendEvent = none then
    .ok { queue with drainState := .drained }
  else .ok queue

/-- The packet of the list stays before a new one. -/
def staysBefore (pkt : QueuedPacket) (when : Nat) (it : DeferredPacket) : Bool :=
  (settings.forceOrder && it.pkt.matchAddr pkt.toPacket) || it.tick ≤ when

/-- The list with a new packet: behind the last one that stays before it, else at the front. -/
def emplace (pkt : QueuedPacket) (when : Nat) (list : List DeferredPacket) : List DeferredPacket :=
  list.rdropWhile (!staysBefore settings pkt when ·) ++ ⟨when, pkt⟩ ::
    list.rtakeWhile (!staysBefore settings pkt when ·)

def schedSendTiming (pkt : QueuedPacket) (when : Nat) : Except QueueFailure PacketQueue :=
  if ¬ curTick ≤ when then .error .backInTime
  else if pkt.expressSnoop then .error .expressSnoop
  else if !settings.disableSanityCheck ∧ 100 < queue.transmitList.length then .error .beyondHundred
  else
    let emplaced := { queue with transmitList := emplace settings pkt when queue.transmitList }
    if queue.transmitList.any (staysBefore settings pkt when) then .ok emplaced
    else emplaced.schedSendEvent curTick when

/-! ### Sending -/

/-- The packets that are queued while one is sent. -/
def schedAll : List (QueuedPacket × Nat) → PacketQueue → Except QueueFailure PacketQueue
  | [], queue => .ok queue
  | (pkt, when) :: rest, queue => do
    let queue ← queue.schedSendTiming settings curTick pkt when
    schedAll rest queue

def sendDeferredPacket (outcome : SendOutcome) : Except QueueFailure PacketQueue :=
  if queue.waitingOnRetry then .error .waitingOnRetry
  else match queue.transmitList with
    | [] => .error .notReady
    | dp :: rest =>
      if ¬ dp.tick ≤ curTick then .error .notReady
      else
        let popped := { queue with transmitList := rest }
        match outcome with
        | .refused => .ok { popped with waitingOnRetry := true, transmitList := dp :: rest }
        | .accepted queued => do
          let sent ← schedAll settings curTick queued popped
          let sent := { sent with waitingOnRetry := false }
          sent.schedSendEvent curTick sent.deferredPacketReadyTime

def processSendEvent (outcome : SendOutcome) : Except QueueFailure PacketQueue :=
  if queue.waitingOnRetry then .error .waitingOnRetry else queue.sendDeferredPacket settings curTick outcome

def retry (outcome : SendOutcome) : Except QueueFailure PacketQueue :=
  if ¬ queue.waitingOnRetry then .error .notWaiting
  else { queue with waitingOnRetry := false }.sendDeferredPacket settings curTick outcome

def drain : DrainState := if queue.transmitList = [] then .drained else .draining

end PacketQueue

end Emas.Gem5

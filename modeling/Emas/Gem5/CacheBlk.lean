/-
**Cache blocks.**

`class CacheBlk` of `mem/cache/cache_blk.hh`. The bits of `status` are fields, each of them set and cleared on its own. A
lock is a range of addresses that a context has load-locked; requests are compared with it through their lowest and
highest address, which are computed modulo `2 ^ 64`. Where an assertion fails there is no result.
-/

import Emas.Gem5.Packet

namespace Emas.Gem5

def maxAddr : Addr := BitVec.allOnes 64

/-- `ContextSwitchTaskId::Unknown`. -/
def unknownTaskId : Nat := 1024

def invldMasterId : Nat := 2 ^ 16 - 1

/-! ### Locks -/

/-- `class CacheBlk::Lock`. -/
structure Lock where
  contextId : Int
  lowAddr : Addr
  highAddr : Addr
  deriving DecidableEq

namespace Request

variable (req : Request)

/-- `req_low`. -/
def lowAddr : Addr := req.paddr

/-- `req_high`. -/
def highAddr : Addr := req.paddr + BitVec.ofNat 64 req.size - 1

end Request

namespace Lock

variable (lock : Lock) (req : Request)

/-- `Lock( req )`. -/
def ofRequest : Lock := ⟨req.contextId, req.lowAddr, req.highAddr⟩

/-- `matches( req )`. -/
def matchesReq : Bool :=
  lock.contextId = req.contextId && lock.lowAddr ≤ req.lowAddr && req.highAddr ≤ lock.highAddr

def intersects : Bool := req.lowAddr ≤ lock.highAddr && lock.lowAddr ≤ req.highAddr

end Lock

/-! ### Blocks -/

/-- `CacheBlkStatusBits`. -/
structure CacheBlk.State where
  blkValid : Bool := false
  blkWritable : Bool := false
  blkReadable : Bool := false
  blkDirty : Bool := false
  blkHWPrefetched : Bool := false
  blkSecure : Bool := false
  blkCompressed : Bool := false
  deriving DecidableEq

/-- `class CacheBlk`. -/
structure CacheBlk where
  taskId : Nat
  tag : Addr
  status : CacheBlk.State
  whenReady : Nat
  refCount : Nat
  srcMasterId : Nat
  tickInserted : Nat
  lockList : List Lock

namespace CacheBlk

variable (blk : CacheBlk)

def invalidate : CacheBlk :=
  { blk with
    tag := maxAddr, taskId := unknownTaskId, status := {}, whenReady := maxTick, refCount := 0,
    srcMasterId := invldMasterId, lockList := [] }

/-- `CacheBlk( )`. -/
def create : CacheBlk where
  taskId := unknownTaskId
  tag := maxAddr
  status := {}
  whenReady := maxTick
  refCount := 0
  srcMasterId := invldMasterId
  tickInserted := 0
  lockList := []

/-! ### Load-locked and store-conditional -/

def trackLoadLocked (pkt : Packet) : Option CacheBlk :=
  if pkt.isLLSC then
    some { blk with lockList := .ofRequest pkt.req :: blk.lockList.filter fun lock => !lock.intersects pkt.req }
  else none

def clearLoadLocks (req : Request) : CacheBlk :=
  { blk with
    lockList := blk.lockList.filter fun lock => !(lock.intersects req && lock.contextId != req.contextId) }

/-- `checkWrite( pkt )`, with whether the write proceeds. A store-conditional takes the first lock that it matches. -/
def checkWrite (pkt : Packet) : Option (Bool × CacheBlk) :=
  if pkt.isWrite then
    if !pkt.isLLSC && blk.lockList.isEmpty then some (true, blk)
    else if pkt.isLLSC then
      let success := blk.lockList.any fun lock => lock.matchesReq pkt.req
      let blk := { blk with lockList := blk.lockList.eraseP fun lock => lock.matchesReq pkt.req }
      some (success, blk.clearLoadLocks pkt.req)
    else some (true, blk.clearLoadLocks pkt.req)
  else none

end CacheBlk

end Emas.Gem5

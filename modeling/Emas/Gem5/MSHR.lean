/-
**Miss status holding registers.**

`class MSHR` of `mem/cache/mshr.cc`: the targets that wait for a block, those that are serviced with the response to
the request sent downstream, and those that are deferred until after it.

* A list of targets carries the flags that the source derives from its packets. An offset and a size give the bytes of
  the line that a target touches.
* Where an assertion or a panic fires, or an empty list is read, there is no result.
* Of the entry that another cache keeps for a packet only `fromMshr` is known: the marks of a target say that this
  entry was told to wait, what it does then is not part of the model.
-/

import Emas.Gem5.Packet

namespace Emas.Gem5

/-- `enum MSHR::Target::Source`. -/
inductive Source where
  | fromCPU | fromSnoop | fromPrefetcher
  deriving DecidableEq, Repr

/-- `class MSHR::Target`. -/
structure Target where
  recvTime : Nat
  readyTime : Nat
  order : Nat
  pkt : Packet
  source : Source
  markedPending : Bool
  allocOnFill : Bool
  deriving DecidableEq

/-- The target is a request from above. -/
def Target.fromCPU (t : Target) : Bool := t.source = .fromCPU

def replaceUpgrade (pkt : Packet) : Packet :=
  match pkt.cmd with
  | .upgradeReq => { pkt with cmd := .readExReq }
  | .scUpgradeReq => { pkt with cmd := .scUpgradeFailReq }
  | .storeCondReq => { pkt with cmd := .storeCondFailReq }
  | _ => pkt

/-! ### Lists of targets -/

/-- `class MSHR::TargetList`. -/
structure TargetList where
  list : List Target
  blkAddr : Addr
  blkSize : Nat
  needsWritable : Bool
  hasUpgrade : Bool
  allocOnFill : Bool
  hasFromCache : Bool
  canMergeWrites : Bool
  writesBitmap : List Bool
  deriving DecidableEq

namespace TargetList

/-- `TargetList( )`, after `init`. -/
def create : TargetList where
  list := []
  blkAddr := 0
  blkSize := 0
  needsWritable := false
  hasUpgrade := false
  allocOnFill := false
  hasFromCache := false
  canMergeWrites := true
  writesBitmap := []

variable (targets : TargetList)

def resetFlags : TargetList :=
  { targets with
    canMergeWrites := true, writesBitmap := targets.writesBitmap.map fun _ => false,
    needsWritable := false, hasUpgrade := false, allocOnFill := false, hasFromCache := false }

def init (blkAddr : Addr) (blkSize : Nat) : TargetList :=
  resetFlags { targets with
    blkAddr := blkAddr, blkSize := blkSize, writesBitmap := List.replicate blkSize false }

def isReset : Bool :=
  !targets.needsWritable && !targets.hasUpgrade && !targets.allocOnFill && !targets.hasFromCache &&
    targets.canMergeWrites

def isWholeLineWrite : Bool := targets.writesBitmap.all id

def noMergeFlags : BitVec 64 :=
  Request.uncacheable ||| Request.strictOrder ||| Request.mmappedIpr ||| Request.privileged ||| Request.llsc |||
    Request.memSwap ||| Request.memSwapCond ||| Request.secure

def compatWrite (pkt : Packet) : Bool := pkt.isWrite && !pkt.req.isSet noMergeFlags

def updateWriteFlags (pkt : Packet) : TargetList :=
  if targets.isWholeLineWrite then targets
  else
    let firstWrite := pkt.isWrite && targets.list.length == 0
    let offset := pkt.getOffset targets.blkSize
    { targets with
      canMergeWrites := targets.canMergeWrites && compatWrite pkt
      writesBitmap :=
        if firstWrite || compatWrite pkt then
          targets.writesBitmap.mapIdx fun i written => written || (offset ≤ i && i < offset + pkt.size)
        else targets.writesBitmap }

def updateFlags (pkt : Packet) (source : Source) (allocOnFill : Bool) : TargetList :=
  if source = .fromSnoop then targets
  else
    let targets :=
      { targets with
        needsWritable := targets.needsWritable || pkt.needsWritable
        hasUpgrade := targets.hasUpgrade || pkt.isUpgrade || pkt.cmd = .storeCondReq
        allocOnFill := targets.allocOnFill || allocOnFill }
    if source = .fromPrefetcher then targets
    else { targets with hasFromCache := targets.hasFromCache || pkt.fromCache }.updateWriteFlags pkt

def populateFlags : TargetList :=
  targets.list.foldl (fun targets t => targets.updateFlags t.pkt t.source t.allocOnFill) targets.resetFlags

def add (curTick : Nat) (pkt : Packet) (readyTime order : Nat) (source : Source) (markPending allocOnFill : Bool) :
    TargetList :=
  let targets := targets.updateFlags pkt source allocOnFill
  { targets with
    list := targets.list ++ [⟨curTick, readyTime, order, pkt, source, markPending && pkt.fromMshr, allocOnFill⟩] }

def replaceUpgrades : TargetList :=
  if targets.hasUpgrade then
    { targets with
      list := targets.list.map fun t => { t with pkt := replaceUpgrade t.pkt }
      hasUpgrade := false }
  else targets

/-- `clearDownstreamPending( begin, end )`. -/
def clearPending (range : List Target) : List Target := range.map fun t => { t with markedPending := false }

def clearDownstreamPending : TargetList := { targets with list := clearPending targets.list }

/-! What the flags are derived from stays. -/

@[simp] theorem resetFlags_list : targets.resetFlags.list = targets.list := rfl

@[simp] theorem init_list (blkAddr : Addr) (blkSize : Nat) : (targets.init blkAddr blkSize).list = targets.list := rfl

@[simp] theorem clearDownstreamPending_list : targets.clearDownstreamPending.list = clearPending targets.list := rfl

@[simp] theorem updateWriteFlags_list (pkt : Packet) : (targets.updateWriteFlags pkt).list = targets.list := by
  unfold updateWriteFlags
  split <;> rfl

@[simp] theorem updateFlags_list (pkt : Packet) (source : Source) (allocOnFill : Bool) :
    (targets.updateFlags pkt source allocOnFill).list = targets.list := by
  unfold updateFlags
  split
  · rfl
  · dsimp only
    split
    · rfl
    · exact updateWriteFlags_list ..

@[simp] theorem populateFlags_list : targets.populateFlags.list = targets.list := by
  suffices keeps : ∀ (range : List Target) (start : TargetList),
      (range.foldl (fun targets t => targets.updateFlags t.pkt t.source t.allocOnFill) start).list = start.list from
    keeps targets.list targets.resetFlags
  intro range
  induction range with
  | nil => exact fun _ => rfl
  | cons t rest ih => exact fun start => (ih _).trans (updateFlags_list ..)

@[simp] theorem add_list (curTick : Nat) (pkt : Packet) (readyTime order : Nat) (source : Source)
    (markPending allocOnFill : Bool) :
    (targets.add curTick pkt readyTime order source markPending allocOnFill).list = targets.list ++
      [⟨curTick, readyTime, order, pkt, source, markPending && pkt.fromMshr, allocOnFill⟩] := by
  simp [add]

end TargetList

/-! ### The register -/

/-- `class MSHR`. -/
structure MSHR where
  readyTime : Nat
  isUncacheable : Bool
  inService : Bool
  order : Nat
  blkAddr : Addr
  blkSize : Nat
  isSecure : Bool
  downstreamPending : Bool
  pendingModified : Bool
  postInvalidate : Bool
  postDowngrade : Bool
  wasWholeLineWrite : Bool
  isForward : Bool
  targets : TargetList
  deferredTargets : TargetList
  deriving DecidableEq

namespace MSHR

/-- `MSHR( )`. -/
def create : MSHR where
  readyTime := 0
  isUncacheable := false
  inService := false
  order := 0
  blkAddr := 0
  blkSize := 0
  isSecure := false
  downstreamPending := false
  pendingModified := false
  postInvalidate := false
  postDowngrade := false
  wasWholeLineWrite := false
  isForward := false
  targets := .create
  deferredTargets := .create

variable (mshr : MSHR) (curTick : Nat)

def isWholeLineWrite : Bool := mshr.targets.isWholeLineWrite

def getNumTargets : Nat := mshr.targets.list.length + mshr.deferredTargets.list.length

def hasTargets : Bool := !mshr.targets.list.isEmpty

/-- The target of a first request, and where it comes from. -/
def sourceOf (pkt : Packet) : Source := if pkt.cmd = .hardPFReq then .fromPrefetcher else .fromCPU

def allocate (blkAddr : Addr) (blkSize : Nat) (pkt : Packet) (whenReady order : Nat) (allocOnFill : Bool) :
    Option MSHR :=
  if ¬ pkt.isRequest then none
  else
    let targets := (mshr.targets.init blkAddr blkSize).add curTick pkt whenReady order (sourceOf pkt) true allocOnFill
    -- All targets must refer to the same block.
    if targets.list.head?.all fun front =>
        pkt.getBlockAddr blkSize = front.pkt.getBlockAddr blkSize && pkt.isSecure = front.pkt.isSecure then
      some
        { mshr with
          blkAddr := blkAddr
          blkSize := blkSize
          isSecure := pkt.isSecure
          readyTime := whenReady
          order := order
          isForward := false
          wasWholeLineWrite := false
          isUncacheable := pkt.req.isUncacheable
          inService := false
          downstreamPending := false
          targets := targets
          deferredTargets := mshr.deferredTargets.init blkAddr blkSize }
    else none

def clearDownstreamPending : Option MSHR :=
  if mshr.downstreamPending then
    some { mshr with downstreamPending := false, targets := mshr.targets.clearDownstreamPending }
  else none

def markInService (pendingModifiedResp : Bool) : Option MSHR :=
  if mshr.inService then none
  else
    let targets := if mshr.downstreamPending then mshr.targets else mshr.targets.clearDownstreamPending
    some
      { mshr with
        inService := true
        pendingModified := mshr.targets.needsWritable || pendingModifiedResp
        postInvalidate := false
        postDowngrade := false
        targets := targets
        wasWholeLineWrite := targets.isWholeLineWrite }

def deallocate : Option MSHR :=
  if mshr.targets.list.isEmpty && mshr.deferredTargets.isReset then
    some { mshr with targets := mshr.targets.resetFlags, inService := false }
  else none

/-- A new target has to be deferred, where `front` is the first one. -/
def defers (pkt front : Packet) : Bool :=
  pkt.req.isCacheMaintenance || front.req.isCacheMaintenance || !mshr.deferredTargets.list.isEmpty ||
    (mshr.inService && (mshr.postInvalidate ||
        (pkt.needsWritable && (!mshr.pendingModified || mshr.postDowngrade || mshr.isForward))))

def allocateTarget (pkt : Packet) (whenReady order : Nat) (allocOnFill : Bool) : Option MSHR :=
  if pkt.cmd = .hardPFReq ∨ ¬ pkt.isRequest then none
  else match mshr.targets.list with
    | [] => none
    | front :: _ =>
      if mshr.defers pkt front.pkt then
        let pkt := if mshr.inService && mshr.postInvalidate then replaceUpgrade pkt else pkt
        some
          { mshr with
            deferredTargets := mshr.deferredTargets.add curTick pkt whenReady order .fromCPU true allocOnFill }
      else
        some
          { mshr with
            targets := mshr.targets.add curTick pkt whenReady order .fromCPU (!mshr.inService) allocOnFill }

/-! ### Snoops -/

/-- The register will respond to the snoop. -/
def willRespond (pkt : Packet) : Bool := mshr.pendingModified && pkt.needsResponse && !pkt.isClean

/-- What the register tells the requester of a snoop that it records. -/
def answerSnoop (pkt : Packet) : Option Packet :=
  if mshr.willRespond pkt then pkt.setCacheResponding.bind Packet.setResponderHadWritable
  else if mshr.pendingModified && pkt.isClean then pkt.setSatisfied
  else some pkt

/-- A snoop becomes a target, and may ask for an invalidation afterwards. -/
def recordSnoop (pkt : Packet) (order : Nat) : MSHR :=
  let cpPkt := if mshr.willRespond pkt then pkt.copy else pkt.forBlock mshr.blkSize
  { mshr with
    targets := mshr.targets.add curTick cpPkt curTick order .fromSnoop
      (mshr.downstreamPending && mshr.targets.needsWritable) false
    postInvalidate := mshr.postInvalidate || pkt.needsWritable || pkt.isInvalidate }

/-- `handleSnoop( pkt, _order )`, with what it returns and the packet as it leaves it. -/
def handleSnoop (pkt : Packet) (order : Nat) : Option (Bool × Packet × MSHR) :=
  if ¬ pkt.isRequest ∨ (pkt.needsWritable ≠ pkt.isInvalidate ∧ ¬ pkt.req.isCacheMaintenance) then none
  else
    let takesBlock := pkt.needsWritable || pkt.req.isCacheInvalidate
    if !mshr.inService || (pkt.expressSnoop && mshr.downstreamPending) then
      some (false, pkt,
        if takesBlock then
          { mshr with
            targets := mshr.targets.replaceUpgrades
            deferredTargets := mshr.deferredTargets.replaceUpgrades }
        else mshr)
    else
      let mshr :=
        if takesBlock then { mshr with deferredTargets := mshr.deferredTargets.replaceUpgrades } else mshr
      match mshr.targets.list with
      | [] => none
      | front :: _ =>
        if mshr.postInvalidate || front.pkt.req.isCacheInvalidate then some (true, pkt, mshr)
        else
          let recorded := mshr.pendingModified || pkt.isInvalidate
          let snooped := if recorded then mshr.recordSnoop curTick pkt order else mshr
          (if recorded then mshr.answerSnoop pkt else some pkt).map fun answered =>
            if !pkt.needsWritable && !pkt.req.isUncacheable then
              (true, answered.setHasSharers, { snooped with postDowngrade := true })
            else (true, answered, snooped)

/-! ### Responses -/

/-- `extractServiceableTargets( pkt )`, with the targets that it returns. -/
def extractServiceableTargets (pkt : Packet) : Option (TargetList × MSHR) :=
  let empty := TargetList.create.init mshr.blkAddr mshr.blkSize
  if pkt.cmd = .readRespWithInvalidate then
    match mshr.targets.list with
    | [] => none
    | front :: rest =>
      if front.source = .fromSnoop ∨ rest.any (fun t => t.source = .fromPrefetcher) then none
      else
        let ready := front :: rest.filter fun t => !t.fromCPU
        some ({ empty with list := ready }.populateFlags,
          { mshr with
            targets := { mshr.targets with list := rest.filter Target.fromCPU }.populateFlags })
  else some (mshr.targets, { mshr with targets := empty.populateFlags })

/-- How many deferred targets are promoted: those before the first that is a cache maintenance request, or this one where
it is the first and can be serviced on its own. -/
def promotedCount : Nat :=
  match mshr.deferredTargets.list.takeWhile fun t => !t.pkt.req.isCacheMaintenance with
  | [] => if mshr.targets.list.isEmpty then 1 else 0
  | before => before.length

def promoteDeferredTargets : Option (Bool × MSHR) :=
  if mshr.targets.list.isEmpty && mshr.deferredTargets.list.isEmpty then some (false, mshr)
  else
    let deferred := mshr.deferredTargets.list
    let targets :=
      { mshr.targets with list := mshr.targets.list ++ deferred.take mshr.promotedCount }.populateFlags
    match targets.list with
    | [] => none
    | front :: _ =>
      some (true,
        { mshr with
          targets := targets
          deferredTargets := { mshr.deferredTargets with list := deferred.drop mshr.promotedCount }.populateFlags
          order := front.order
          readyTime := max curTick front.readyTime })

/-- The targets up to the first that the predicate rejects, and the others. Each target that is looked at is asserted to
come from a CPU. -/
def splitPromoted (pred : Target → Bool) : List Target → Option (List Target × List Target)
  | [] => some ([], [])
  | t :: rest =>
    if t.source ≠ .fromCPU then none
    else if pred t then (splitPromoted pred rest).map fun (promoted, others) => (t :: promoted, others)
    else some ([], t :: rest)

def promoteIf (pred : Target → Bool) : Option MSHR :=
  if mshr.downstreamPending then none
  else (splitPromoted pred mshr.deferredTargets.list).map fun (promoted, others) =>
    { mshr with
      targets := { mshr.targets with list := mshr.targets.list ++ TargetList.clearPending promoted }
      deferredTargets := { mshr.deferredTargets with list := others }.populateFlags }

/-- The predicate of `promoteReadable`. -/
def isReadable (t : Target) : Bool := !t.pkt.req.isCacheInvalidate && !t.pkt.needsWritable

/-- The predicate of `promoteWritable`. -/
def isWritable (t : Target) : Bool := !t.pkt.req.isCacheInvalidate

def promoteReadable : Option MSHR :=
  if mshr.deferredTargets.list.isEmpty then some mshr
  else if ¬ mshr.inService then none
  else if mshr.postInvalidate then some mshr
  else mshr.promoteIf isReadable

/-- `promoteWritable( )`. The first deferred target is read only where some target needs a writable block. -/
def promoteWritable : Option MSHR :=
  if mshr.deferredTargets.needsWritable then
    if ¬ mshr.inService then none
    else if mshr.postInvalidate || mshr.postDowngrade then some mshr
    else match mshr.deferredTargets.list with
      | [] => none
      | front :: _ =>
        if front.pkt.req.isCacheInvalidate then some mshr
        else if mshr.targets.needsWritable then none
        else { mshr with targets := { mshr.targets with needsWritable := true } }.promoteIf isWritable
  else some mshr

theorem splitPromoted_spec {pred : Target → Bool} {deferred promoted others : List Target}
    (split : splitPromoted pred deferred = some (promoted, others)) :
    promoted = deferred.takeWhile pred ∧ others = deferred.dropWhile pred ∧ ∀ t ∈ promoted, t.source = .fromCPU := by
  induction deferred generalizing promoted with
  | nil =>
    obtain ⟨rfl, rfl⟩ := Prod.mk.inj (Option.some.inj split)
    exact ⟨rfl, rfl, fun _ => nofun⟩
  | cons t rest ih =>
    unfold splitPromoted at split
    split at split
    · cases split
    next above =>
    split at split
    · next accepted =>
      obtain ⟨⟨promoted, others⟩, onward, same⟩ := Option.map_eq_some_iff.mp split
      obtain ⟨rfl, rfl⟩ := Prod.mk.inj same
      obtain ⟨taken, left, all⟩ := ih onward
      rw [List.takeWhile_cons_of_pos accepted, List.dropWhile_cons_of_pos accepted, taken, left]
      exact ⟨rfl, rfl, List.forall_mem_cons.mpr ⟨not_not.mp above, taken ▸ all⟩⟩
    · next rejected =>
      obtain ⟨rfl, rfl⟩ := Prod.mk.inj (Option.some.inj split)
      rw [List.takeWhile_cons_of_neg rejected, List.dropWhile_cons_of_neg rejected]
      exact ⟨rfl, rfl, fun _ => nofun⟩

def popTarget : MSHR := { mshr with targets := { mshr.targets with list := mshr.targets.list.tail } }

def delay (delayTicks : Nat) : Option MSHR :=
  if mshr.readyTime ≤ curTick then some { mshr with readyTime := curTick + delayTicks } else none

/-! ### Runs -/

/-- The calls of a register, with the tick at which they are made. The cache that owns it notes whether it forwards the
request of another cache, and takes the register out of service to send it again; a cache downstream marks it while its
request waits there. -/
inductive Action where
  | allocate (curTick : Nat) (blkAddr : Addr) (blkSize : Nat) (pkt : Packet) (whenReady order : Nat)
    (allocOnFill : Bool)
  | allocateTarget (curTick : Nat) (pkt : Packet) (whenReady order : Nat) (allocOnFill : Bool)
  | handleSnoop (curTick : Nat) (pkt : Packet) (order : Nat)
  | setForward (isForward : Bool)
  | markInService (pendingModifiedResp : Bool)
  | markPending
  | setDownstreamPending
  | clearDownstreamPending
  | extractServiceableTargets (pkt : Packet)
  | promoteReadable
  | promoteWritable
  | promoteDeferredTargets (curTick : Nat)
  | deallocate
  deriving DecidableEq

/-- The deferred targets that a call of `promoteReadable` or `promoteWritable` moves to the others. -/
def movedTargets (mshr : MSHR) : Action → List Target
  | .promoteReadable => if mshr.postInvalidate then [] else mshr.deferredTargets.list.takeWhile isReadable
  | .promoteWritable =>
    if mshr.deferredTargets.needsWritable && !(mshr.postInvalidate || mshr.postDowngrade) then
      mshr.deferredTargets.list.takeWhile isWritable
    else []
  | _ => []

end MSHR

/-- A register in a run, with the lists of targets that were extracted. -/
structure MSHRRun where
  mshr : MSHR
  extracted : List (List Target)
  deriving DecidableEq

namespace MSHRRun

variable (run : MSHRRun)

/-- The run goes on with the register. -/
def onto (mshr : MSHR) : MSHRRun := { run with mshr := mshr }

/-- A call. The queue allocates only a register without targets. -/
def perform : MSHR.Action → Option MSHRRun
  | .allocate curTick blkAddr blkSize pkt whenReady order allocOnFill =>
    if run.mshr.getNumTargets = 0 then
      (run.mshr.allocate curTick blkAddr blkSize pkt whenReady order allocOnFill).map run.onto
    else none
  | .allocateTarget curTick pkt whenReady order allocOnFill =>
    (run.mshr.allocateTarget curTick pkt whenReady order allocOnFill).map run.onto
  | .handleSnoop curTick pkt order =>
    (run.mshr.handleSnoop curTick pkt order).map fun (_, _, mshr) => run.onto mshr
  | .setForward isForward => some (run.onto { run.mshr with isForward := isForward })
  | .markInService pendingModifiedResp => (run.mshr.markInService pendingModifiedResp).map run.onto
  | .markPending => if run.mshr.inService then some (run.onto { run.mshr with inService := false }) else none
  | .setDownstreamPending =>
    if run.mshr.downstreamPending then none else some (run.onto { run.mshr with downstreamPending := true })
  | .clearDownstreamPending => run.mshr.clearDownstreamPending.map run.onto
  | .extractServiceableTargets pkt =>
    (run.mshr.extractServiceableTargets pkt).map fun (ready, mshr) => ⟨mshr, run.extracted ++ [ready.list]⟩
  | .promoteReadable => run.mshr.promoteReadable.map run.onto
  | .promoteWritable => run.mshr.promoteWritable.map run.onto
  | .promoteDeferredTargets curTick => (run.mshr.promoteDeferredTargets curTick).map fun (_, mshr) => run.onto mshr
  | .deallocate => run.mshr.deallocate.map run.onto

@[simp] theorem onto_mshr (mshr : MSHR) : (run.onto mshr).mshr = mshr := rfl

@[simp] theorem onto_extracted (mshr : MSHR) : (run.onto mshr).extracted = run.extracted := rfl

end MSHRRun

end Emas.Gem5

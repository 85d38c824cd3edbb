/-
**The lists of the register queue.**

`Consistent` is what the three lists and the two counters of the queue say of its entries. Every call keeps it
(`MSHRQueueRun.Consistent.step`). That the ready list is in the order of the ready times is what `getNext` and
`addToReadyList` go by; two calls change the ready time of an entry in its place in the list:

* `delay` looks for the place from the entry itself on, and finds it there;
* `forceDeallocateTarget` promotes the deferred targets of a register that is not in service.

**`MSHRQueueRun.represents_iff`** — the queue is what it says in every state of a run if and only if each of these calls gives
the entry a time that the entries beside it allow.
-/

import Emas.Gem5.MSHR
import Emas.Lib.KeyedOrder
import Emas.Lib.PartialRun
import Mathlib.Data.List.Perm.Basic

namespace Emas.Gem5

/-! ### The queue of miss status holding registers

`class Queue` of `mem/cache/queue.hh` with the registers of `mem/cache/mshr_queue.cc` as its entries. The three lists hold the
numbers of entries. An iterator that an entry keeps is its place in the list: while the entry is in the list there is one,
and where it is not, erasing it has no result. Nor is there one where an assertion or the panic of `addToReadyList` fires.

A run may also let time pass, and make the calls of a register that the cache makes on the entries that it was given
(`MSHR.Action.isOwn`).
-/

/-- `class MSHRQueue`. -/
structure MSHRQueue where
  numEntries : Nat
  numReserve : Nat
  entries : Nat → MSHR
  allocatedList : List Nat
  readyList : List Nat
  freeList : List Nat
  numInService : Int
  allocated : Int

namespace MSHRQueue

/-- `MSHRQueue( num_entries, reserve )`. -/
def create (numEntries reserve : Nat) : MSHRQueue where
  numEntries := numEntries + reserve
  numReserve := reserve
  entries := fun _ => .create
  allocatedList := []
  readyList := []
  freeList := List.range (numEntries + reserve)
  numInService := 0
  allocated := 0

variable (queue : MSHRQueue) (curTick : Nat)

/-- `readyTime` of an entry. -/
def readyTime (entry : Nat) : Nat := (queue.entries entry).readyTime

/-- An entry has changed. -/
def setEntry (entry : Nat) (mshr : MSHR) : MSHRQueue := { queue with entries := Function.update queue.entries entry mshr }

def isFull : Bool := (queue.numEntries : Int) - queue.numReserve ≤ queue.allocated

/-- The loop of `addToReadyList( entry )`: before the first entry that is ready later. -/
def insertBeforeLater (entry : Nat) : List Nat → Option (List Nat)
  | [] => none
  | other :: rest =>
    if queue.readyTime entry < queue.readyTime other then some (entry :: other :: rest)
    else (insertBeforeLater entry rest).map (other :: ·)

def addToReadyList (entry : Nat) : Option MSHRQueue :=
  (if queue.readyList.getLast?.all fun back => queue.readyTime back ≤ queue.readyTime entry then
    some (queue.readyList ++ [entry])
  else queue.insertBeforeLater entry queue.readyList).map fun readyList => { queue with readyList := readyList }

/-- Erases an entry through its iterator. -/
def eraseFrom (list : List Nat) (entry : Nat) : Option (List Nat) :=
  if entry ∈ list then some (list.erase entry) else none

def getNext : Option Nat := queue.readyList.head?.filter fun entry => queue.readyTime entry ≤ curTick

def deallocate (entry : Nat) : Option MSHRQueue :=
  (eraseFrom queue.allocatedList entry).bind fun allocatedList =>
    let mshr := queue.entries entry
    let queue :=
      { queue with
        allocatedList := allocatedList, freeList := entry :: queue.freeList, allocated := queue.allocated - 1 }
    (if mshr.inService then some { queue with numInService := queue.numInService - 1 }
      else (eraseFrom queue.readyList entry).map fun readyList => { queue with readyList := readyList }).bind
        fun queue => mshr.deallocate.map (queue.setEntry entry)

/-- `allocate( blk_addr, blk_size, pkt, when_ready, order, alloc_on_fill )`, with the entry. -/
def allocate (blkAddr : Addr) (blkSize : Nat) (pkt : Packet) (whenReady order : Nat) (allocOnFill : Bool) :
    Option (Nat × MSHRQueue) :=
  match queue.freeList with
  | [] => none
  | entry :: freeList =>
    if (queue.entries entry).getNumTargets = 0 then do
      let mshr ← (queue.entries entry).allocate curTick blkAddr blkSize pkt whenReady order allocOnFill
      let queue := { queue.setEntry entry mshr with
        freeList := freeList, allocatedList := queue.allocatedList ++ [entry] }
      let queue ← queue.addToReadyList entry
      some (entry, { queue with allocated := queue.allocated + 1 })
    else none

/-- The ready list after `readyList.splice( it, readyList, readyIter )`, where `it` is the first place from that of the entry
on whose entry is not ready later than it. -/
def spliceReady (entry : Nat) : List Nat :=
  let before := queue.readyList.takeWhile (· ≠ entry)
  let onward := queue.readyList.dropWhile (· ≠ entry)
  let later := fun other => queue.readyTime entry < queue.readyTime other
  let behind := onward.dropWhile later
  if behind.head? = some entry then queue.readyList
  else before ++ (onward.takeWhile later).erase entry ++ entry :: behind

def delay (entry delayTicks : Nat) : Option MSHRQueue :=
  if entry ∈ queue.readyList then
    ((queue.entries entry).delay curTick delayTicks).map fun mshr =>
      let queue := queue.setEntry entry mshr
      { queue with readyList := queue.spliceReady entry }
  else none

def markInService (entry : Nat) (pendingModifiedResp : Bool) : Option MSHRQueue := do
  let mshr ← (queue.entries entry).markInService pendingModifiedResp
  let readyList ← eraseFrom queue.readyList entry
  some { queue.setEntry entry mshr with readyList := readyList, numInService := queue.numInService + 1 }

def markPending (entry : Nat) : Option MSHRQueue :=
  let mshr := queue.entries entry
  if mshr.inService then
    { queue.setEntry entry { mshr with inService := false } with
      numInService := queue.numInService - 1 }.addToReadyList entry
  else none

/-- `forceDeallocateTarget( mshr )`, with what it returns. -/
def forceDeallocateTarget (entry : Nat) : Option (Bool × MSHRQueue) :=
  if (queue.entries entry).hasTargets then
    let mshr := (queue.entries entry).popTarget
    (if mshr.hasTargets then some (queue.setEntry entry mshr)
      else (mshr.promoteDeferredTargets curTick).bind fun (promoted, mshr) =>
        if promoted then some (queue.setEntry entry mshr)
        else (queue.setEntry entry mshr).deallocate entry).map fun after => (queue.isFull && !after.isFull, after)
  else none

end MSHRQueue

/-! ### Runs -/

/-- The calls that the cache makes on a register of the queue, where this is in service or not. -/
def MSHR.Action.isOwn (inService : Bool) : MSHR.Action → Bool
  | .allocateTarget .. | .handleSnoop .. | .setForward .. | .setDownstreamPending | .clearDownstreamPending
  | .extractServiceableTargets .. | .promoteReadable | .promoteWritable => true
  | .promoteDeferredTargets .. => inService
  | .allocate .. | .markInService .. | .markPending | .deallocate => false

/-- A queue, and the time. -/
structure MSHRQueueRun where
  queue : MSHRQueue
  curTick : Nat

namespace MSHRQueueRun

/-- The calls of the queue, the calls of its registers, and the passing of time. -/
inductive Action where
  | advance (ticks : Nat)
  | allocate (blkAddr : Addr) (blkSize : Nat) (pkt : Packet) (whenReady order : Nat) (allocOnFill : Bool)
  | markInService (entry : Nat) (pendingModifiedResp : Bool)
  | markPending (entry : Nat)
  | delay (entry delayTicks : Nat)
  | forceDeallocateTarget (entry : Nat)
  | deallocate (entry : Nat)
  | own (entry : Nat) (call : MSHR.Action)
  deriving DecidableEq

variable (run : MSHRQueueRun)

def onto (queue : MSHRQueue) : MSHRQueueRun := { run with queue := queue }

/-- A call on an allocated entry, or what else may happen. -/
def perform : Action → Option MSHRQueueRun
  | .advance ticks => some { run with curTick := run.curTick + ticks }
  | .allocate blkAddr blkSize pkt whenReady order allocOnFill =>
    (run.queue.allocate run.curTick blkAddr blkSize pkt whenReady order allocOnFill).map fun (_, queue) =>
      run.onto queue
  | .markInService entry pendingModifiedResp => (run.queue.markInService entry pendingModifiedResp).map run.onto
  | .markPending entry =>
    if entry ∈ run.queue.allocatedList then (run.queue.markPending entry).map run.onto else none
  | .delay entry delayTicks => (run.queue.delay run.curTick entry delayTicks).map run.onto
  | .forceDeallocateTarget entry =>
    if entry ∈ run.queue.allocatedList then
      (run.queue.forceDeallocateTarget run.curTick entry).map fun (_, queue) => run.onto queue
    else none
  | .deallocate entry => (run.queue.deallocate entry).map run.onto
  | .own entry call =>
    if entry ∈ run.queue.allocatedList ∧ call.isOwn (run.queue.entries entry).inService then
      (MSHRRun.perform ⟨run.queue.entries entry, []⟩ call).map fun after =>
        run.onto (run.queue.setEntry entry after.mshr)
    else none

end MSHRQueueRun

/-! ### Registers -/

namespace MSHR

variable {mshr next : MSHR} {curTick : Nat}

theorem allocate_inService {blkAddr : Addr} {blkSize : Nat} {pkt : Packet} {whenReady order : Nat} {allocOnFill : Bool}
    (done : mshr.allocate curTick blkAddr blkSize pkt whenReady order allocOnFill = some next) :
    next.inService = false := by
  unfold allocate at done
  split at done
  · cases done
  dsimp only at done
  split at done
  · cases done
    rfl
  · cases done

theorem markInService_inService {pendingModifiedResp : Bool}
    (done : mshr.markInService pendingModifiedResp = some next) :
    mshr.inService = false ∧ next.inService = true ∧ next.readyTime = mshr.readyTime := by
  unfold markInService at done
  split at done
  · cases done
  · next notSent =>
    cases done
    exact ⟨Bool.eq_false_iff.mpr notSent, rfl, rfl⟩

theorem promotedCount_pos (empty : mshr.targets.list = []) : 0 < mshr.promotedCount := by
  unfold promotedCount
  split
  · rw [if_pos (List.isEmpty_iff.mpr empty)]
    exact Nat.one_pos
  · next nonempty => exact List.length_pos_of_ne_nil fun nil => nonempty nil

theorem promoteDeferredTargets_spec {promoted : Bool} (empty : mshr.targets.list = [])
    (done : mshr.promoteDeferredTargets curTick = some (promoted, next)) :
    next.inService = mshr.inService ∧
      match mshr.deferredTargets.list with
      | [] => promoted = false ∧ next = mshr
      | first :: _ => promoted = true ∧ next.readyTime = max curTick first.readyTime := by
  unfold promoteDeferredTargets at done
  split at done
  · next none =>
    rw [Bool.and_eq_true, List.isEmpty_iff, List.isEmpty_iff] at none
    cases done
    rw [none.2]
    exact ⟨rfl, rfl, rfl⟩
  next some =>
  dsimp only at done
  split at done
  · cases done
  next front rest targets =>
  cases done
  refine ⟨rfl, ?_⟩
  cases deferred : mshr.deferredTargets.list with
  | nil => simp [empty, deferred] at some
  | cons first others =>
    refine ⟨rfl, ?_⟩
    obtain ⟨count, same⟩ := Nat.exists_eq_add_one_of_ne_zero (promotedCount_pos empty).ne'
    rw [TargetList.populateFlags_list, empty, deferred, same, List.nil_append, List.take_succ_cons] at targets
    rw [← (List.cons.inj targets).1]

theorem promoteDeferredTargets_some {first : Target} {others : List Target} (empty : mshr.targets.list = [])
    (deferred : mshr.deferredTargets.list = first :: others) :
    ∃ next, mshr.promoteDeferredTargets curTick = some (true, next) := by
  obtain ⟨count, same⟩ := Nat.exists_eq_add_one_of_ne_zero (promotedCount_pos empty).ne'
  simp [promoteDeferredTargets, empty, deferred, same]

theorem handleSnoop_times {pkt answered : Packet} {order : Nat} {handled : Bool}
    (done : mshr.handleSnoop curTick pkt order = some (handled, answered, next)) :
    next.inService = mshr.inService ∧ next.readyTime = mshr.readyTime := by
  unfold handleSnoop at done
  split at done
  · cases done
  dsimp only at done
  split at done
  · cases done
    split <;> exact ⟨rfl, rfl⟩
  · generalize changed : (if (pkt.needsWritable || pkt.req.isCacheInvalidate) = true then
        { mshr with deferredTargets := mshr.deferredTargets.replaceUpgrades } else mshr) = middle at done
    have same : middle.inService = mshr.inService ∧ middle.readyTime = mshr.readyTime := by
      rw [← changed]
      split <;> exact ⟨rfl, rfl⟩
    split at done
    · cases done
    split at done
    · cases done
      exact same
    · obtain ⟨answer, -, done⟩ := Option.map_eq_some_iff.mp done
      have recorded : (if (middle.pendingModified || pkt.isInvalidate) = true then
          middle.recordSnoop curTick pkt order else middle).inService = mshr.inService ∧
          (if (middle.pendingModified || pkt.isInvalidate) = true then
            middle.recordSnoop curTick pkt order else middle).readyTime = mshr.readyTime := by
        split <;> exact same
      split at done
      · cases done
        exact recorded
      · cases done
        exact recorded

theorem promoteIf_times {pred : Target → Bool} (done : mshr.promoteIf pred = some next) :
    next.inService = mshr.inService ∧ next.readyTime = mshr.readyTime := by
  unfold promoteIf at done
  split at done
  · cases done
  · obtain ⟨_, -, rfl⟩ := Option.map_eq_some_iff.mp done
    exact ⟨rfl, rfl⟩

/-- **The calls that the cache makes on a register** leave it in service or not, and leave its ready time where it is not in
service. -/
theorem own_times {after : MSHRRun} {call : Action} (own : call.isOwn mshr.inService)
    (done : MSHRRun.perform ⟨mshr, []⟩ call = some after) :
    after.mshr.inService = mshr.inService ∧ (mshr.inService = false → after.mshr.readyTime = mshr.readyTime) := by
  suffices times : after.mshr.inService = mshr.inService ∧
      (after.mshr.readyTime = mshr.readyTime ∨ mshr.inService = true) from
    ⟨times.1, fun notSent => times.2.resolve_right (by simp [notSent])⟩
  cases call with
  | allocate | markInService | markPending | deallocate => cases own
  | allocateTarget curTick pkt whenReady order allocOnFill =>
    obtain ⟨next, allocated, rfl⟩ := Option.map_eq_some_iff.mp done
    unfold allocateTarget at allocated
    split at allocated
    · cases allocated
    split at allocated
    · cases allocated
    split at allocated <;> cases allocated <;> exact ⟨rfl, .inl rfl⟩
  | handleSnoop curTick pkt order =>
    obtain ⟨⟨handled, answered, next⟩, snooped, rfl⟩ := Option.map_eq_some_iff.mp done
    exact (handleSnoop_times snooped).imp_right .inl
  | setForward isForward =>
    cases done
    exact ⟨rfl, .inl rfl⟩
  | setDownstreamPending =>
    unfold MSHRRun.perform at done
    dsimp only at done
    split at done
    · cases done
    · cases done
      exact ⟨rfl, .inl rfl⟩
  | clearDownstreamPending =>
    obtain ⟨next, cleared, rfl⟩ := Option.map_eq_some_iff.mp done
    unfold clearDownstreamPending at cleared
    split at cleared
    · cases cleared
      exact ⟨rfl, .inl rfl⟩
    · cases cleared
  | extractServiceableTargets pkt =>
    obtain ⟨⟨ready, next⟩, extracted, rfl⟩ := Option.map_eq_some_iff.mp done
    unfold extractServiceableTargets at extracted
    dsimp only at extracted
    split at extracted
    · split at extracted
      · cases extracted
      split at extracted <;> cases extracted
      exact ⟨rfl, .inl rfl⟩
    · cases extracted
      exact ⟨rfl, .inl rfl⟩
  | promoteReadable =>
    obtain ⟨next, promoted, rfl⟩ := Option.map_eq_some_iff.mp done
    unfold promoteReadable at promoted
    split at promoted
    · cases promoted
      exact ⟨rfl, .inl rfl⟩
    split at promoted
    · cases promoted
    split at promoted
    · cases promoted
      exact ⟨rfl, .inl rfl⟩
    · exact (promoteIf_times promoted).imp_right .inl
  | promoteWritable =>
    obtain ⟨next, promoted, rfl⟩ := Option.map_eq_some_iff.mp done
    unfold promoteWritable at promoted
    split at promoted
    · split at promoted
      · cases promoted
      split at promoted
      · cases promoted
        exact ⟨rfl, .inl rfl⟩
      split at promoted
      · cases promoted
      split at promoted
      · cases promoted
        exact ⟨rfl, .inl rfl⟩
      split at promoted
      · cases promoted
      · have times := promoteIf_times promoted
        exact times.imp_right .inl
    · cases promoted
      exact ⟨rfl, .inl rfl⟩
  | promoteDeferredTargets curTick =>
    obtain ⟨⟨promoted, next⟩, moved, rfl⟩ := Option.map_eq_some_iff.mp done
    refine ⟨?_, .inr own⟩
    unfold promoteDeferredTargets at moved
    split at moved
    · cases moved
      rfl
    dsimp only at moved
    split at moved
    · cases moved
    · cases moved
      rfl

end MSHR

/-! ### What the lists and counters say -/

namespace MSHRQueue

variable {queue next : MSHRQueue} {curTick entry : Nat}

def isInService (queue : MSHRQueue) (entry : Nat) : Bool := (queue.entries entry).inService

/-- **The lists and the counters agree with the entries**: the entries are those on the free list and those on the allocated
one, and of these the ready list has, once each, those that are not in service. -/
structure Consistent (queue : MSHRQueue) : Prop where
  partition : (queue.freeList ++ queue.allocatedList).Perm (List.range queue.numEntries)
  allocated : queue.allocated = queue.allocatedList.length
  numInService : queue.numInService = (queue.allocatedList.filter queue.isInService).length
  ready : queue.readyList.Perm (queue.allocatedList.filter fun entry => !queue.isInService entry)

theorem addToReadyList_spec (queue : MSHRQueue) (entry : Nat) :
    ∃ before after, queue.readyList = before ++ after ∧
      queue.addToReadyList entry = some { queue with readyList := before ++ entry :: after } ∧
      (KeyOrdered queue.readyTime queue.readyList → KeyOrdered queue.readyTime (before ++ entry :: after)) := by
  unfold addToReadyList
  split
  · next last =>
    refine ⟨queue.readyList, [], (List.append_nil _).symm, rfl, fun inOrder => ?_⟩
    refine keyOrdered_insert_iff.mpr ⟨by rwa [List.append_nil], ?_, fun _ => nofun⟩
    refine (inOrder.forall_le_iff _).mpr fun back found => ?_
    rw [found] at last
    simpa using last
  · next later =>
    -- The last entry is ready later, so that the loop finds a place.
    have found : ∃ other ∈ queue.readyList, queue.readyTime entry < queue.readyTime other := by
      simp only [Option.all_eq_true, decide_eq_true_eq, not_forall, not_le] at later
      obtain ⟨back, last, less⟩ := later
      exact ⟨back, List.mem_of_getLast? last, less⟩
    suffices place : ∀ list : List Nat, (∃ other ∈ list, queue.readyTime entry < queue.readyTime other) →
        ∃ before after, list = before ++ after ∧
          queue.insertBeforeLater entry list = some (before ++ entry :: after) ∧
          (KeyOrdered queue.readyTime list → KeyOrdered queue.readyTime (before ++ entry :: after)) by
      obtain ⟨before, after, split, inserted, keeps⟩ := place queue.readyList found
      exact ⟨before, after, split, by rw [inserted]; rfl, keeps⟩
    intro list
    induction list with
    | nil => exact fun ⟨_, member, _⟩ => nomatch member
    | cons other rest ih =>
      intro ⟨largest, member, less⟩
      unfold insertBeforeLater
      split
      · next here =>
        refine ⟨[], other :: rest, rfl, rfl, fun inOrder => ?_⟩
        have upper : ∀ later ∈ other :: rest, queue.readyTime entry ≤ queue.readyTime later :=
          (inOrder.forall_ge_iff _).mpr fun first found => by cases found; exact here.le
        exact List.pairwise_cons.mpr ⟨upper, inOrder⟩
      · next behind =>
        have inside : largest ∈ rest := by
          rcases List.mem_cons.mp member with rfl | inside
          · exact absurd less behind
          · exact inside
        obtain ⟨before, after, rfl, inserted, keeps⟩ := ih ⟨largest, inside, less⟩
        refine ⟨other :: before, after, rfl, by rw [inserted]; rfl, fun inOrder => ?_⟩
        obtain ⟨least, tail⟩ := List.pairwise_cons.mp inOrder
        refine List.pairwise_cons.mpr ⟨fun item member => ?_, keeps tail⟩
        rcases List.mem_append.mp member with front | back
        · exact least item (List.mem_append_left _ front)
        · rcases List.mem_cons.mp back with rfl | back
          · exact not_lt.mp behind
          · exact least item (List.mem_append_right _ back)

theorem update_inService (queue : MSHRQueue) {list : List Nat} (absent : entry ∉ list) (mshr : MSHR) :
    ∀ other ∈ list, (Function.update queue.entries entry mshr other).inService = queue.isInService other := by
  intro other inside
  have apart : other ≠ entry := fun same => absent (same ▸ inside)
  rw [Function.update_of_ne apart]
  rfl

theorem mem_of_eraseFrom {list erased : List Nat} (done : eraseFrom list entry = some erased) :
    entry ∈ list ∧ erased = list.erase entry := by
  unfold eraseFrom at done
  split at done
  · next member => exact ⟨member, (Option.some.inj done).symm⟩
  · cases done

namespace Consistent

variable (consistent : queue.Consistent)

include consistent

theorem nodup : (queue.freeList ++ queue.allocatedList).Nodup := consistent.partition.nodup_iff.mpr List.nodup_range

theorem allocated_nodup : queue.allocatedList.Nodup := (List.nodup_append.mp consistent.nodup).2.1

theorem ready_nodup : queue.readyList.Nodup := consistent.ready.nodup_iff.mpr (consistent.allocated_nodup.filter _)

theorem mem_ready_iff : entry ∈ queue.readyList ↔ entry ∈ queue.allocatedList ∧ queue.isInService entry = false := by
  rw [consistent.ready.mem_iff, List.mem_filter, Bool.not_eq_true']

theorem split (member : entry ∈ queue.allocatedList) :
    queue.numInService = (queue.isInService entry).toNat +
        ((queue.allocatedList.erase entry).filter queue.isInService).length ∧
      queue.readyList.Perm ((if queue.isInService entry then [] else [entry]) ++
        (queue.allocatedList.erase entry).filter fun other => !queue.isInService other) := by
  have whole : queue.allocatedList.Perm (entry :: queue.allocatedList.erase entry) := List.perm_cons_erase member
  constructor
  · rw [consistent.numInService, (whole.filter _).length_eq]
    cases service : queue.isInService entry <;> simp [service, Nat.add_comm]
  · refine (consistent.ready.trans (whole.filter _)).trans (.of_eq ?_)
    cases service : queue.isInService entry <;> simp [service]

theorem set (member : entry ∈ queue.allocatedList) {mshr : MSHR} {readyList : List Nat} {numInService : Int}
    (count : numInService = mshr.inService.toNat + ((queue.allocatedList.erase entry).filter queue.isInService).length)
    (ready : readyList.Perm ((if mshr.inService then [] else [entry]) ++
      (queue.allocatedList.erase entry).filter fun other => !queue.isInService other)) :
    Consistent { queue.setEntry entry mshr with readyList := readyList, numInService := numInService } := by
  have whole : queue.allocatedList.Perm (entry :: queue.allocatedList.erase entry) := List.perm_cons_erase member
  have here : (queue.setEntry entry mshr).isInService entry = mshr.inService := by
    simp [isInService, setEntry]
  have others : ∀ other ∈ queue.allocatedList.erase entry,
      (queue.setEntry entry mshr).isInService other = queue.isInService other :=
    update_inService queue (List.Nodup.not_mem_erase consistent.allocated_nodup) mshr
  have filtered : (queue.allocatedList.erase entry).filter (queue.setEntry entry mshr).isInService =
      (queue.allocatedList.erase entry).filter queue.isInService := List.filter_congr others
  have filtered' : ((queue.allocatedList.erase entry).filter fun other =>
      !(queue.setEntry entry mshr).isInService other) =
      (queue.allocatedList.erase entry).filter fun other => !queue.isInService other :=
    List.filter_congr fun other inside => by rw [others other inside]
  refine ⟨consistent.partition, consistent.allocated, ?_, ?_⟩
  · show numInService = ((queue.allocatedList.filter (queue.setEntry entry mshr).isInService).length : Int)
    rw [count, (whole.filter _).length_eq, ← filtered]
    cases service : mshr.inService <;> simp [here, service, Int.add_comm]
  · refine ready.trans (.symm ((whole.filter _).trans (.of_eq ?_)))
    rw [← filtered']
    cases service : mshr.inService
    · rw [List.filter_cons_of_pos (by show (!(queue.setEntry entry mshr).isInService entry) = true; simp [here, service])]
      rfl
    · rw [List.filter_cons_of_neg (by show ¬ (!(queue.setEntry entry mshr).isInService entry) = true; simp [here, service])]
      rfl

end Consistent

/-! ### A changed ready time -/

/-- The entries beside this one in the ready list allow it that time. -/
def Fits (queue : MSHRQueue) (entry time : Nat) : Prop :=
  entry ∈ queue.readyList →
    (∀ last ∈ (queue.readyList.takeWhile (· ≠ entry)).getLast?, queue.readyTime last ≤ time) ∧
      ∀ first ∈ (queue.readyList.dropWhile (· ≠ entry)).tail.head?, time ≤ queue.readyTime first

theorem dropWhile_readyList (member : entry ∈ queue.readyList) :
    queue.readyList.dropWhile (· ≠ entry) = entry :: (queue.readyList.dropWhile (· ≠ entry)).tail := by
  have nonempty : queue.readyList.dropWhile (· ≠ entry) ≠ [] := by
    intro empty
    have differs := List.dropWhile_eq_nil_iff.mp empty entry member
    simp at differs
  obtain ⟨head, rest, found⟩ := List.exists_cons_of_ne_nil nonempty
  have here : head = entry := by
    have stop := List.head?_dropWhile_not (fun other : Nat => decide (other ≠ entry)) queue.readyList
    rw [found] at stop
    simpa using stop
  rw [found, here, List.tail_cons]

theorem readyList_split (member : entry ∈ queue.readyList) :
    queue.readyList = queue.readyList.takeWhile (· ≠ entry) ++
      entry :: (queue.readyList.dropWhile (· ≠ entry)).tail := by
  rw [← dropWhile_readyList member, List.takeWhile_append_dropWhile]

variable (consistent : queue.Consistent) (inOrder : KeyOrdered queue.readyTime queue.readyList)

include consistent inOrder

/-- **Where the ready time of an entry changes**, the ready list stays in order if and only if the entries beside it allow
it. -/
theorem setEntry_inOrder_iff (mshr : MSHR) :
    KeyOrdered (queue.setEntry entry mshr).readyTime queue.readyList ↔ queue.Fits entry mshr.readyTime := by
  have others : ∀ other ≠ entry, (queue.setEntry entry mshr).readyTime other = queue.readyTime other := by
    intro other apart
    simp [readyTime, setEntry, Function.update_of_ne apart]
  have here : (queue.setEntry entry mshr).readyTime entry = mshr.readyTime := by simp [readyTime, setEntry]
  by_cases member : entry ∈ queue.readyList
  · have split := readyList_split member
    have nodup := consistent.ready_nodup
    unfold Fits
    rw [imp_iff_right member, ← here]
    generalize queue.readyList.takeWhile (· ≠ entry) = before at split ⊢
    generalize (queue.readyList.dropWhile (· ≠ entry)).tail = after at split ⊢
    rw [split] at inOrder nodup ⊢
    refine keyOrdered_change_iff inOrder fun other inside => others other fun same => ?_
    have absent : entry ∉ before ++ after := (List.nodup_middle.mp nodup).notMem
    exact absent (same ▸ inside)
  · refine iff_of_true ?_ fun inside => absurd inside member
    exact (keyOrdered_congr fun other inside => others other fun same => member (same ▸ inside)).mpr inOrder

theorem fits_self (entry : Nat) : queue.Fits entry (queue.readyTime entry) := by
  have same : queue.setEntry entry (queue.entries entry) = queue := by
    unfold setEntry
    rw [Function.update_eq_self]
  refine (setEntry_inOrder_iff consistent inOrder (queue.entries entry)).mp ?_
  rw [same]
  exact inOrder

omit inOrder in
theorem Consistent.setEntry (member : entry ∈ queue.allocatedList) {mshr : MSHR}
    (service : mshr.inService = queue.isInService entry) : (queue.setEntry entry mshr).Consistent := by
  obtain ⟨count, ready⟩ := consistent.split member
  exact consistent.set member (by rw [service]; exact count) (by rw [service]; exact ready)

omit inOrder consistent in
theorem spliceReady_eq (member : entry ∈ queue.readyList) : queue.spliceReady entry = queue.readyList := by
  unfold spliceReady
  dsimp only
  rw [dropWhile_readyList member, List.dropWhile_cons_of_neg (by simp), if_pos List.head?_cons]

/-! ### Calls -/

/-- **Taking a register into service** takes it from the ready list. -/
theorem markInService_spec {pendingModifiedResp : Bool} (done : queue.markInService entry pendingModifiedResp = some next) :
    next.Consistent ∧ KeyOrdered next.readyTime next.readyList := by
  obtain ⟨mshr, marked, done⟩ := Option.bind_eq_some_iff.mp done
  obtain ⟨readyList, erased, done⟩ := Option.bind_eq_some_iff.mp done
  cases done
  obtain ⟨notSent, sent, same⟩ := MSHR.markInService_inService marked
  obtain ⟨inReady, rfl⟩ := mem_of_eraseFrom erased
  have member := (consistent.mem_ready_iff.mp inReady).1
  have waits : queue.isInService entry = false := (consistent.mem_ready_iff.mp inReady).2
  obtain ⟨count, ready⟩ := consistent.split member
  rw [waits] at count ready
  constructor
  · refine consistent.set member ?_ ?_
    · rw [sent, count]
      simp [Int.add_comm]
    · rw [sent]
      simpa using ready.erase entry
  · have kept : queue.Fits entry mshr.readyTime := same ▸ fits_self consistent inOrder entry
    exact ((setEntry_inOrder_iff consistent inOrder mshr).mpr kept).sublist (List.erase_sublist ..)

theorem addToReadyList_inOrder {mshr : MSHR} (absent : entry ∉ queue.readyList) {before after : List Nat}
    (keeps : KeyOrdered (queue.setEntry entry mshr).readyTime queue.readyList →
      KeyOrdered (queue.setEntry entry mshr).readyTime (before ++ entry :: after)) :
    KeyOrdered (queue.setEntry entry mshr).readyTime (before ++ entry :: after) :=
  keeps ((setEntry_inOrder_iff consistent inOrder mshr).mpr fun member => absurd member absent)

/-- **Taking a register out of service** puts it into the ready list. -/
theorem markPending_spec (member : entry ∈ queue.allocatedList) (done : queue.markPending entry = some next) :
    next.Consistent ∧ KeyOrdered next.readyTime next.readyList := by
  unfold markPending at done
  dsimp only at done
  split at done
  · next service =>
    have inService : queue.isInService entry = true := service
    generalize changed : ({ queue.entries entry with inService := false } : MSHR) = mshr at done
    have waits : mshr.inService = false := changed ▸ rfl
    obtain ⟨before, after, list, added, keeps⟩ := addToReadyList_spec
      { queue.setEntry entry mshr with numInService := queue.numInService - 1 } entry
    rw [added] at done
    cases done
    obtain ⟨count, ready⟩ := consistent.split member
    rw [inService] at count ready
    refine ⟨consistent.set member ?_ ?_, ?_⟩
    · rw [waits]
      show queue.numInService - 1 = _
      rw [count, Bool.toNat_true, Bool.toNat_false]
      omega
    · rw [waits]
      refine List.perm_middle.trans ((List.Perm.cons entry ?_))
      exact (List.Perm.of_eq list.symm).trans ready
    · refine addToReadyList_inOrder consistent inOrder (fun inside => ?_) keeps
      rw [(consistent.mem_ready_iff.mp inside).2] at inService
      cases inService
  · cases done

/-- **A register is freed.** -/
theorem deallocate_spec (done : queue.deallocate entry = some next) :
    next.Consistent ∧ KeyOrdered next.readyTime next.readyList := by
  obtain ⟨allocatedList, erased, done⟩ := Option.bind_eq_some_iff.mp done
  obtain ⟨member, rfl⟩ := mem_of_eraseFrom erased
  obtain ⟨queue', taken, done⟩ := Option.bind_eq_some_iff.mp done
  obtain ⟨mshr, freed, rfl⟩ := Option.map_eq_some_iff.mp done
  have absent : entry ∉ queue.allocatedList.erase entry := List.Nodup.not_mem_erase consistent.allocated_nodup
  have partition : (entry :: queue.freeList ++ queue.allocatedList.erase entry).Perm (List.range queue.numEntries) := by
    refine List.Perm.trans ?_ consistent.partition
    exact (List.perm_middle.symm).trans ((List.perm_cons_erase member).symm.append_left _)
  have length : queue.allocated - 1 = ((queue.allocatedList.erase entry).length : Int) := by
    have positive := List.length_pos_of_mem member
    rw [consistent.allocated, List.length_erase_of_mem member]
    omega
  have others := update_inService queue absent mshr
  obtain ⟨count, ready⟩ := consistent.split member
  cases service : queue.isInService entry with
  | true =>
    rw [if_pos (show (queue.entries entry).inService = true from service)] at taken
    cases taken
    rw [service] at count ready
    have outside : entry ∉ queue.readyList := by
      intro inside
      rw [(consistent.mem_ready_iff.mp inside).2] at service
      cases service
    refine ⟨⟨partition, length, ?_, ?_⟩, ?_⟩
    · show queue.numInService - 1 = (((queue.allocatedList.erase entry).filter fun other =>
        (Function.update queue.entries entry mshr other).inService).length : Int)
      rw [List.filter_congr others, count, Bool.toNat_true]
      omega
    · refine ready.trans (.of_eq (List.filter_congr fun other inside => ?_))
      rw [← others other inside]
      rfl
    · exact (setEntry_inOrder_iff consistent inOrder mshr).mpr fun inside => absurd inside outside
  | false =>
    rw [if_neg (show ¬ (queue.entries entry).inService = true from Bool.eq_false_iff.mp service)] at taken
    obtain ⟨readyList, erasedReady, rfl⟩ := Option.map_eq_some_iff.mp taken
    obtain ⟨inside, rfl⟩ := mem_of_eraseFrom erasedReady
    rw [service] at count ready
    refine ⟨⟨partition, length, ?_, ?_⟩, ?_⟩
    · show queue.numInService = (((queue.allocatedList.erase entry).filter fun other =>
        (Function.update queue.entries entry mshr other).inService).length : Int)
      rw [List.filter_congr others, count, Bool.toNat_false]
      omega
    · have taken := ready.erase entry
      simp only [Bool.false_eq_true, if_false, List.singleton_append, List.erase_cons_head] at taken
      refine taken.trans (.of_eq (List.filter_congr fun other inside => ?_))
      rw [← others other inside]
      rfl
    · have absentReady : entry ∉ queue.readyList.erase entry := List.Nodup.not_mem_erase consistent.ready_nodup
      refine (keyOrdered_congr fun other inside => ?_).mpr (inOrder.sublist (List.erase_sublist ..))
      have apart : other ≠ entry := fun same => absentReady (same ▸ inside)
      show (Function.update queue.entries entry mshr other).readyTime = _
      rw [Function.update_of_ne apart]
      rfl

/-- **A register is allocated.** -/
theorem allocate_spec {blkAddr : Addr} {blkSize : Nat} {pkt : Packet} {whenReady order : Nat} {allocOnFill : Bool}
    (done : queue.allocate curTick blkAddr blkSize pkt whenReady order allocOnFill = some (entry, next)) :
    next.Consistent ∧ KeyOrdered next.readyTime next.readyList := by
  unfold allocate at done
  split at done
  · cases done
  next first freeList free =>
  split at done
  · obtain ⟨mshr, allocated, done⟩ := Option.bind_eq_some_iff.mp done
    obtain ⟨queue', added, done⟩ := Option.bind_eq_some_iff.mp done
    cases done
    obtain ⟨before, after, list, placed, keeps⟩ := addToReadyList_spec
      { queue.setEntry entry mshr with
        freeList := freeList, allocatedList := queue.allocatedList ++ [entry] } entry
    rw [placed] at added
    cases added
    have waits := MSHR.allocate_inService allocated
    have nodup := consistent.nodup
    rw [free, List.cons_append] at nodup
    have absent : entry ∉ queue.allocatedList := fun inside =>
      (List.nodup_cons.mp nodup).1 (List.mem_append_right _ inside)
    have outside : entry ∉ queue.readyList := fun inside => absent (consistent.mem_ready_iff.mp inside).1
    have others := update_inService queue absent mshr
    have here : (Function.update queue.entries entry mshr entry).inService = false := by
      rw [Function.update_self, waits]
    refine ⟨⟨?_, ?_, ?_, ?_⟩, ?_⟩
    · refine List.Perm.trans ?_ consistent.partition
      rw [free, ← List.append_assoc]
      exact (List.perm_append_singleton ..)
    · show queue.allocated + 1 = ((queue.allocatedList ++ [entry]).length : Int)
      rw [consistent.allocated]
      simp
    · show queue.numInService = (((queue.allocatedList ++ [entry]).filter fun other =>
        (Function.update queue.entries entry mshr other).inService).length : Int)
      have none : ([entry].filter fun other => (Function.update queue.entries entry mshr other).inService) = [] :=
        List.filter_cons_of_neg (Bool.eq_false_iff.mp here)
      rw [List.filter_append, List.filter_congr others, consistent.numInService, none, List.append_nil]
    · show (before ++ entry :: after).Perm ((queue.allocatedList ++ [entry]).filter fun other =>
        !(Function.update queue.entries entry mshr other).inService)
      rw [List.filter_append, List.filter_congr fun other inside => by rw [others other inside]]
      have whole : (before ++ after).Perm (queue.allocatedList.filter fun other => !queue.isInService other) :=
        (List.Perm.of_eq list.symm).trans consistent.ready
      refine List.perm_middle.trans ((whole.cons entry).trans ?_)
      have last : ([entry].filter fun other => !(Function.update queue.entries entry mshr other).inService) = [entry] :=
        List.filter_cons_of_pos (by rw [here]; rfl)
      rw [last]
      exact (List.perm_append_singleton ..).symm
    · exact addToReadyList_inOrder consistent inOrder outside keeps
  · cases done

/-- **A register is delayed**, to a time that has to fit. -/
theorem delay_spec {delayTicks : Nat} (done : queue.delay curTick entry delayTicks = some next) :
    queue.readyTime entry ≤ curTick ∧ next.Consistent ∧
      (KeyOrdered next.readyTime next.readyList ↔ queue.Fits entry (curTick + delayTicks)) := by
  unfold delay at done
  split at done
  · next inside =>
    obtain ⟨mshr, delayed, rfl⟩ := Option.map_eq_some_iff.mp done
    unfold MSHR.delay at delayed
    split at delayed
    · next ready =>
      cases delayed
      have member := (consistent.mem_ready_iff.mp inside).1
      have place : (queue.setEntry entry { queue.entries entry with readyTime := curTick + delayTicks }).spliceReady
          entry = queue.readyList := spliceReady_eq inside
      dsimp only
      rw [place]
      exact ⟨ready, consistent.setEntry member rfl, setEntry_inOrder_iff consistent inOrder _⟩
    · cases delayed
  · cases done

/-- **The first target of a register is dropped.** Where it was the only one, the register goes on with its deferred
targets, at a time that has to fit. -/
theorem forceDeallocateTarget_spec {freed : Bool} (member : entry ∈ queue.allocatedList)
    (done : queue.forceDeallocateTarget curTick entry = some (freed, next)) :
    next.Consistent ∧ (KeyOrdered next.readyTime next.readyList ↔
      ∀ first ∈ (queue.entries entry).deferredTargets.list.head?, (queue.entries entry).targets.list.length = 1 →
        queue.Fits entry (max curTick first.readyTime)) := by
  unfold forceDeallocateTarget at done
  split at done
  · next has =>
    obtain ⟨after, rest, same⟩ := Option.map_eq_some_iff.mp done
    obtain ⟨-, rfl⟩ := Prod.mk.inj same
    have positive : 0 < (queue.entries entry).targets.list.length := by
      refine List.length_pos_of_ne_nil fun empty => ?_
      simp [MSHR.hasTargets, empty] at has
    split at rest
    · next more =>
      cases rest
      have left : (queue.entries entry).targets.list.length ≠ 1 := by
        intro one
        have empty : (queue.entries entry).targets.list.tail = [] :=
          List.eq_nil_of_length_eq_zero (by rw [List.length_tail, one])
        simp [MSHR.hasTargets, MSHR.popTarget, empty] at more
      refine ⟨consistent.setEntry member rfl, iff_of_true ?_ fun _ _ one => absurd one left⟩
      exact (setEntry_inOrder_iff consistent inOrder _).mpr (fits_self consistent inOrder entry)
    · next last =>
      obtain ⟨⟨promoted, mshr⟩, moved, rest⟩ := Option.bind_eq_some_iff.mp rest
      have empty : (queue.entries entry).popTarget.targets.list = [] := by
        simpa [MSHR.hasTargets] using last
      have one : (queue.entries entry).targets.list.length = 1 := by
        have tail : (queue.entries entry).targets.list.tail.length = 0 := congrArg List.length empty
        rw [List.length_tail] at tail
        omega
      obtain ⟨service, spec⟩ := MSHR.promoteDeferredTargets_spec empty moved
      have service : mshr.inService = queue.isInService entry := service
      have deferred : (queue.entries entry).popTarget.deferredTargets = (queue.entries entry).deferredTargets := rfl
      rw [deferred] at spec
      split at spec
      · next none =>
        obtain ⟨rfl, rfl⟩ := spec
        simp only [Bool.false_eq_true, if_false] at rest
        have kept := consistent.setEntry member service
        have ordered := (setEntry_inOrder_iff consistent inOrder (queue.entries entry).popTarget).mpr
          (fits_self consistent inOrder entry)
        obtain ⟨consistent', inOrder'⟩ := deallocate_spec kept ordered rest
        exact ⟨consistent', iff_of_true inOrder' (by rw [none]; exact fun _ => nofun)⟩
      · next first others found =>
        obtain ⟨rfl, time⟩ := spec
        simp only [if_true] at rest
        cases rest
        refine ⟨consistent.setEntry member service, (setEntry_inOrder_iff consistent inOrder mshr).trans ?_⟩
        rw [time, found]
        exact ⟨fun fits other same _ => by cases same; exact fits, fun fits => fits first rfl one⟩
  · cases done

/-- **A call of the cache on a register** keeps the order. -/
theorem own_spec {after : MSHRRun} {call : MSHR.Action} (member : entry ∈ queue.allocatedList)
    (own : call.isOwn (queue.entries entry).inService)
    (done : MSHRRun.perform ⟨queue.entries entry, []⟩ call = some after) :
    (queue.setEntry entry after.mshr).Consistent ∧
      KeyOrdered (queue.setEntry entry after.mshr).readyTime queue.readyList := by
  obtain ⟨service, time⟩ := MSHR.own_times own done
  refine ⟨consistent.setEntry member service, (setEntry_inOrder_iff consistent inOrder _).mpr fun inside => ?_⟩
  have notSent : (queue.entries entry).inService = false := (consistent.mem_ready_iff.mp inside).2
  rw [time notSent]
  exact fits_self consistent inOrder entry inside

end MSHRQueue

/-! ### Runs -/

namespace MSHRQueueRun

variable {run next : MSHRQueueRun} {action : Action}

/-- **The queue is what it says**: the lists and counters agree with the entries, the ready list is in the order of the ready
times, an entry can be added to it, and the next entry is there if one that is not in service is ready. -/
structure Represents (run : MSHRQueueRun) : Prop where
  consistent : run.queue.Consistent
  inOrder : KeyOrdered run.queue.readyTime run.queue.readyList
  added : ∀ entry, (run.queue.addToReadyList entry).isSome
  next : (run.queue.getNext run.curTick).isSome ↔
    ∃ entry ∈ run.queue.allocatedList, run.queue.isInService entry = false ∧ run.queue.readyTime entry ≤ run.curTick

/-- The time that a call gives an entry of the ready list, delaying it or promoting its deferred targets, fits. -/
def KeepsOrder (run : MSHRQueueRun) : Action → Prop
  | .delay entry delayTicks =>
    run.queue.readyTime entry ≤ run.curTick → run.queue.Fits entry (run.curTick + delayTicks)
  | .forceDeallocateTarget entry =>
    entry ∈ run.queue.allocatedList → ∀ first ∈ (run.queue.entries entry).deferredTargets.list.head?,
      (run.queue.entries entry).targets.list.length = 1 → run.queue.Fits entry (max run.curTick first.readyTime)
  | _ => True

theorem represents_of (consistent : run.queue.Consistent)
    (inOrder : KeyOrdered run.queue.readyTime run.queue.readyList) : Represents run where
  consistent := consistent
  inOrder := inOrder
  added entry := by
    obtain ⟨_, _, -, added, -⟩ := run.queue.addToReadyList_spec entry
    rw [added]
    rfl
  next := by
    have first := inOrder.exists_le_iff run.curTick
    simp only [consistent.mem_ready_iff, and_assoc] at first
    rw [first]
    unfold MSHRQueue.getNext
    cases run.queue.readyList.head? with
    | none => simp
    | some entry =>
      by_cases ready : run.queue.readyTime entry ≤ run.curTick <;> simp [Option.filter, ready]

/-- **What a call does to the queue.** -/
theorem perform_spec (consistent : run.queue.Consistent) (inOrder : KeyOrdered run.queue.readyTime run.queue.readyList)
    (done : run.perform action = some next) :
    next.queue.Consistent ∧ (KeyOrdered next.queue.readyTime next.queue.readyList ↔ run.KeepsOrder action) := by
  cases action with
  | advance ticks =>
    cases done
    exact ⟨consistent, iff_of_true inOrder trivial⟩
  | allocate blkAddr blkSize pkt whenReady order allocOnFill =>
    obtain ⟨⟨entry, queue⟩, allocated, rfl⟩ := Option.map_eq_some_iff.mp done
    exact (MSHRQueue.allocate_spec consistent inOrder allocated).imp_right fun kept => iff_of_true kept trivial
  | markInService entry pendingModifiedResp =>
    obtain ⟨queue, marked, rfl⟩ := Option.map_eq_some_iff.mp done
    exact (MSHRQueue.markInService_spec consistent inOrder marked).imp_right fun kept => iff_of_true kept trivial
  | markPending entry =>
    unfold perform at done
    dsimp only at done
    split at done
    · next member =>
      obtain ⟨queue, marked, rfl⟩ := Option.map_eq_some_iff.mp done
      exact (MSHRQueue.markPending_spec consistent inOrder member marked).imp_right fun kept => iff_of_true kept trivial
    · cases done
  | delay entry delayTicks =>
    obtain ⟨queue, delayed, rfl⟩ := Option.map_eq_some_iff.mp done
    obtain ⟨ready, consistent', kept⟩ := MSHRQueue.delay_spec consistent inOrder delayed
    exact ⟨consistent', kept.trans (imp_iff_right ready).symm⟩
  | forceDeallocateTarget entry =>
    unfold perform at done
    dsimp only at done
    split at done
    · next member =>
      obtain ⟨⟨freed, queue⟩, dropped, rfl⟩ := Option.map_eq_some_iff.mp done
      obtain ⟨consistent', kept⟩ := MSHRQueue.forceDeallocateTarget_spec consistent inOrder member dropped
      exact ⟨consistent', kept.trans (imp_iff_right member).symm⟩
    · cases done
  | deallocate entry =>
    obtain ⟨queue, freed, rfl⟩ := Option.map_eq_some_iff.mp done
    exact (MSHRQueue.deallocate_spec consistent inOrder freed).imp_right fun kept => iff_of_true kept trivial
  | own entry call =>
    unfold perform at done
    dsimp only at done
    split at done
    · next allowed =>
      obtain ⟨after, called, rfl⟩ := Option.map_eq_some_iff.mp done
      exact (MSHRQueue.own_spec consistent inOrder allowed.1 allowed.2 called).imp_right fun kept =>
        iff_of_true kept trivial
    · cases done

theorem keepsOrder_of_none (done : run.perform action = none) : run.KeepsOrder action := by
  cases action with
  | delay entry delayTicks =>
    intro ready inside
    unfold perform MSHRQueue.delay MSHR.delay at done
    have ready : (run.queue.entries entry).readyTime ≤ run.curTick := ready
    simp [inside, ready] at done
  | forceDeallocateTarget entry =>
    intro member first found one inside
    obtain ⟨target, single⟩ := List.length_eq_one_iff.mp one
    obtain ⟨others, deferred⟩ : ∃ others, (run.queue.entries entry).deferredTargets.list = first :: others :=
      List.head?_eq_some_iff.mp found
    obtain ⟨mshr, promoted⟩ : ∃ mshr, (run.queue.entries entry).popTarget.promoteDeferredTargets run.curTick =
        some (true, mshr) :=
      MSHR.promoteDeferredTargets_some (congrArg List.tail single) deferred
    have has : (run.queue.entries entry).hasTargets := by simp [MSHR.hasTargets, single]
    have last : (run.queue.entries entry).popTarget.hasTargets = false := by
      simp [MSHR.hasTargets, MSHR.popTarget, single]
    simp [perform, member, MSHRQueue.forceDeallocateTarget, has, last, promoted] at done
  | _ => trivial

theorem consistent_create (numEntries reserve : Nat) : (MSHRQueue.create numEntries reserve).Consistent where
  partition := List.Perm.of_eq (List.append_nil _)
  allocated := rfl
  numInService := rfl
  ready := .refl _

/-- **When the queue is what it says in every state of a run**: if and only if every time that `delay` or
`forceDeallocateTarget` gives an entry of the ready list fits between the entries beside it. -/
theorem represents_iff (numEntries reserve curTick : Nat) (actions : List Action) :
    (∀ passed rest final, passed ++ rest = actions →
        tryActions perform ⟨.create numEntries reserve, curTick⟩ passed = some final → Represents final) ↔
      MeetAll perform KeepsOrder ⟨.create numEntries reserve, curTick⟩ actions := by
  refine MeetAll.iff_goal
    (fun run => run.queue.Consistent ∧ KeyOrdered run.queue.readyTime run.queue.readyList) Represents
    (fun _ inv => represents_of inv.1 inv.2) ?_ ?_ (fun _ _ => keepsOrder_of_none)
    (⟨consistent_create numEntries reserve, List.Pairwise.nil⟩ :
      (MSHRQueue.create numEntries reserve).Consistent ∧ KeyOrdered (MSHRQueue.create numEntries reserve).readyTime [])
    actions
  · intro run action next done inv fits
    obtain ⟨consistent, kept⟩ := perform_spec inv.1 inv.2 done
    exact ⟨consistent, kept.mpr fits⟩
  · intro run action next done inv reached
    exact (perform_spec inv.1 inv.2 done).2.mp reached.inOrder

/-- Two misses wait, and the first is delayed beyond the time when the second is ready. -/
def delayBeyond : List Action :=
  let read (id : Nat) (addr : Addr) := Packet.ofRequest id (.make addr 8 0 0 0) .readReq []
  [.allocate 0 64 (read 1 0) 10 1 true, .allocate 64 64 (read 2 64) 20 2 true, .advance 10, .delay 0 100, .advance 10]

/-- The second miss is ready, but behind the first one it is not found. -/
theorem delayed_hides_ready :
    ∃ final, tryActions perform ⟨.create 4 1, 0⟩ delayBeyond = some final ∧ ¬ Represents final := by
  refine ⟨_, rfl, fun represents => ?_⟩
  have ready := represents.next.mpr ⟨1, by decide, by decide, by decide⟩
  exact absurd ready (by decide)

end MSHRQueueRun

end Emas.Gem5

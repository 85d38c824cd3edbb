/-
**The requests that wait for a miss are neither lost, doubled nor reordered.**

A request from above is known by everything of its target but the command of the packet, which an upgrade that came too
late has replaced, and the mark of the entry upstream. `MSHR.held` are the requests in the two lists of a register.

* `MSHR.allocateTarget_held`, `MSHR.handleSnoop_held`, `MSHR.extractServiceableTargets_held`, `MSHR.promoteIf_held`,
  `MSHR.promoteDeferredTargets_held` — what each call does to them.
* **`MSHRRun.targets_conserved`** — after any run, the requests that were extracted and those that are still held are
  those that were added, in the order in which they were.
-/

import Emas.Gem5.MSHR
import Emas.Lib.PartialRun

namespace Emas.Gem5

/-- A request from above. -/
structure CpuRequest where
  recvTime : Nat
  readyTime : Nat
  order : Nat
  packet : Nat × Request
  allocOnFill : Bool
  deriving DecidableEq

def Target.request (t : Target) : CpuRequest := ⟨t.recvTime, t.readyTime, t.order, t.pkt.identity, t.allocOnFill⟩

/-- The requests from above among some targets. -/
def requestsOf (range : List Target) : List CpuRequest := (range.filter Target.fromCPU).map Target.request

@[simp] theorem requestsOf_nil : requestsOf [] = [] := rfl

@[simp] theorem requestsOf_append (first second : List Target) :
    requestsOf (first ++ second) = requestsOf first ++ requestsOf second := by
  simp [requestsOf]

theorem requestsOf_cons (t : Target) (rest : List Target) :
    requestsOf (t :: rest) = (if t.fromCPU then [t.request] else []) ++ requestsOf rest := by
  by_cases above : t.fromCPU <;> simp [requestsOf, above]

theorem requestsOf_map (change : Target → Target) (source : ∀ t, (change t).fromCPU = t.fromCPU)
    (request : ∀ t, (change t).request = t.request) (range : List Target) :
    requestsOf (range.map change) = requestsOf range := by
  induction range with
  | nil => rfl
  | cons t rest ih => rw [List.map_cons, requestsOf_cons, requestsOf_cons, ih, source, request]

@[simp] theorem requestsOf_clearPending (range : List Target) :
    requestsOf (TargetList.clearPending range) = requestsOf range :=
  requestsOf_map (fun t => { t with markedPending := false }) (fun _ => rfl) (fun _ => rfl) range

@[simp] theorem replaceUpgrade_identity (pkt : Packet) : (replaceUpgrade pkt).identity = pkt.identity := by
  unfold replaceUpgrade
  split <;> rfl

@[simp] theorem requestsOf_replaceUpgrades (targets : TargetList) :
    requestsOf targets.replaceUpgrades.list = requestsOf targets.list := by
  unfold TargetList.replaceUpgrades
  split
  · exact requestsOf_map (fun t => { t with pkt := replaceUpgrade t.pkt }) (fun _ => rfl)
      (fun t => by simp [Target.request]) targets.list
  · rfl

theorem requestsOf_others (range : List Target) : requestsOf (range.filter fun t => !t.fromCPU) = [] := by
  simp [requestsOf, List.filter_filter]

theorem requestsOf_filter (range : List Target) : requestsOf (range.filter Target.fromCPU) = requestsOf range := by
  simp [requestsOf, List.filter_filter]

/-! ### Calls -/

namespace MSHR

variable {mshr next : MSHR} {curTick : Nat}

/-- The requests that wait in the register. -/
def held (mshr : MSHR) : List CpuRequest := requestsOf mshr.targets.list ++ requestsOf mshr.deferredTargets.list

/-- The request that a packet brings, unless it is a hardware prefetch. -/
def newRequests (curTick : Nat) (pkt : Packet) (whenReady order : Nat) (allocOnFill : Bool) : List CpuRequest :=
  if pkt.cmd = .hardPFReq then [] else [⟨curTick, whenReady, order, pkt.identity, allocOnFill⟩]

theorem allocate_held {blkAddr : Addr} {blkSize : Nat} {pkt : Packet} {whenReady order : Nat} {allocOnFill : Bool}
    (free : mshr.getNumTargets = 0)
    (done : mshr.allocate curTick blkAddr blkSize pkt whenReady order allocOnFill = some next) :
    next.held = newRequests curTick pkt whenReady order allocOnFill := by
  obtain ⟨noTargets, noDeferred⟩ : mshr.targets.list = [] ∧ mshr.deferredTargets.list = [] := by
    simpa [getNumTargets] using free
  unfold allocate at done
  split at done
  · cases done
  dsimp only at done
  split at done
  · cases done
    by_cases prefetch : pkt.cmd = .hardPFReq <;>
      simp [held, newRequests, requestsOf_cons, noTargets, noDeferred, sourceOf, prefetch, Target.fromCPU,
        Target.request]
  · cases done

theorem allocateTarget_held {pkt : Packet} {whenReady order : Nat} {allocOnFill : Bool}
    (done : mshr.allocateTarget curTick pkt whenReady order allocOnFill = some next) :
    next.held = mshr.held ++ newRequests curTick pkt whenReady order allocOnFill := by
  unfold allocateTarget at done
  split at done
  · cases done
  next fits =>
  have demand : pkt.cmd ≠ .hardPFReq := fun prefetch => fits (.inl prefetch)
  split at done
  · cases done
  split at done
  · cases done
    have same : (if (mshr.inService && mshr.postInvalidate) = true then replaceUpgrade pkt else pkt).identity =
        pkt.identity := by
      split
      · exact replaceUpgrade_identity pkt
      · rfl
    simpa [held, newRequests, demand, requestsOf_cons, Target.fromCPU, Target.request] using same
  · next front _ _ direct =>
    -- A target that is not deferred finds no deferred one.
    have none : mshr.deferredTargets.list = [] := by
      have notDeferred := Bool.eq_false_iff.mpr direct
      simp only [defers, Bool.or_eq_false_iff] at notDeferred
      exact List.isEmpty_iff.mp (by simpa using notDeferred.1.2)
    cases done
    simp [held, newRequests, demand, none, requestsOf_cons, Target.fromCPU, Target.request]

theorem recordSnoop_held (pkt : Packet) (order : Nat) : (mshr.recordSnoop curTick pkt order).held = mshr.held := by
  simp [held, recordSnoop, requestsOf_cons, Target.fromCPU]

theorem handleSnoop_held {pkt answered : Packet} {order : Nat} {handled : Bool}
    (done : mshr.handleSnoop curTick pkt order = some (handled, answered, next)) : next.held = mshr.held := by
  unfold handleSnoop at done
  split at done
  · cases done
  dsimp only at done
  split at done
  · cases done
    split
    · simp [held]
    · rfl
  · generalize changed : (if (pkt.needsWritable || pkt.req.isCacheInvalidate) = true then
        { mshr with deferredTargets := mshr.deferredTargets.replaceUpgrades } else mshr) = middle at done
    have same : middle.held = mshr.held := by
      rw [← changed]
      split
      · simp [held]
      · rfl
    split at done
    · cases done
    split at done
    · cases done
      exact same
    · obtain ⟨answer, -, done⟩ := Option.map_eq_some_iff.mp done
      have recorded : (if (middle.pendingModified || pkt.isInvalidate) = true then
          middle.recordSnoop curTick pkt order else middle).held = mshr.held := by
        split
        · exact (recordSnoop_held pkt order).trans same
        · exact same
      split at done
      · cases done
        exact recorded
      · cases done
        exact recorded

theorem extractServiceableTargets_held {pkt : Packet} {ready : TargetList}
    (done : mshr.extractServiceableTargets pkt = some (ready, next)) :
    requestsOf ready.list ++ next.held = mshr.held := by
  unfold extractServiceableTargets at done
  dsimp only at done
  split at done
  · split at done
    · cases done
    next front rest targets =>
    split at done
    · cases done
    · cases done
      have split : requestsOf mshr.targets.list = requestsOf [front] ++ requestsOf rest := by
        rw [targets, ← requestsOf_append, List.singleton_append]
      simp [held, split, requestsOf_cons front, requestsOf_others, requestsOf_filter]
  · cases done
    simp [held, TargetList.create]

theorem promoteIf_held {pred : Target → Bool} (done : mshr.promoteIf pred = some next) : next.held = mshr.held := by
  unfold promoteIf at done
  split at done
  · cases done
  obtain ⟨⟨promoted, others⟩, split, rfl⟩ := Option.map_eq_some_iff.mp done
  have whole : requestsOf mshr.deferredTargets.list = requestsOf promoted ++ requestsOf others := by
    obtain ⟨rfl, rfl, -⟩ := splitPromoted_spec split
    rw [← requestsOf_append, List.takeWhile_append_dropWhile]
  simp [held, whole]

theorem promoteReadable_held (done : mshr.promoteReadable = some next) : next.held = mshr.held := by
  unfold promoteReadable at done
  split at done
  · cases done; rfl
  split at done
  · cases done
  split at done
  · cases done; rfl
  · exact promoteIf_held done

theorem promoteWritable_held (done : mshr.promoteWritable = some next) : next.held = mshr.held := by
  unfold promoteWritable at done
  split at done
  · split at done
    · cases done
    split at done
    · cases done; rfl
    split at done
    · cases done
    split at done
    · cases done; rfl
    split at done
    · cases done
    · have moved := promoteIf_held done
      exact moved
  · cases done; rfl

theorem promoteDeferredTargets_held {promoted : Bool}
    (done : mshr.promoteDeferredTargets curTick = some (promoted, next)) : next.held = mshr.held := by
  unfold promoteDeferredTargets at done
  split at done
  · cases done; rfl
  dsimp only at done
  split at done
  · cases done
  · cases done
    have whole : requestsOf mshr.deferredTargets.list =
        requestsOf (mshr.deferredTargets.list.take mshr.promotedCount) ++
          requestsOf (mshr.deferredTargets.list.drop mshr.promotedCount) := by
      rw [← requestsOf_append, List.take_append_drop]
    simp [held, whole]

theorem markInService_held {pendingModifiedResp : Bool} (done : mshr.markInService pendingModifiedResp = some next) :
    next.held = mshr.held := by
  unfold markInService at done
  split at done
  · cases done
  · cases done
    dsimp only [held]
    split <;> simp

theorem clearDownstreamPending_held (done : mshr.clearDownstreamPending = some next) : next.held = mshr.held := by
  unfold clearDownstreamPending at done
  split at done
  · cases done
    simp [held]
  · cases done

theorem deallocate_held (done : mshr.deallocate = some next) : next.held = mshr.held := by
  unfold deallocate at done
  split at done
  · cases done; rfl
  · cases done

/-- The requests that a call adds. -/
def Action.requests : Action → List CpuRequest
  | .allocate curTick _ _ pkt whenReady order allocOnFill
  | .allocateTarget curTick pkt whenReady order allocOnFill => newRequests curTick pkt whenReady order allocOnFill
  | _ => []

end MSHR

/-! ### Runs -/

namespace MSHRRun

variable {run next final : MSHRRun} {action : MSHR.Action} {actions : List MSHR.Action}

/-- The requests that were extracted, then those that wait. -/
def requests (run : MSHRRun) : List CpuRequest := requestsOf run.extracted.flatten ++ run.mshr.held

theorem onto_requests {mshr : MSHR} (same : mshr.held = run.mshr.held) : (run.onto mshr).requests = run.requests := by
  simp [requests, same]

/-- **What a call does to the requests**: it adds its own behind all others. -/
theorem perform_requests (done : run.perform action = some next) : next.requests = run.requests ++ action.requests := by
  cases action with
  | allocate curTick blkAddr blkSize pkt whenReady order allocOnFill =>
    unfold perform at done
    dsimp only at done
    split at done
    · next free =>
      obtain ⟨mshr, allocated, rfl⟩ := Option.map_eq_some_iff.mp done
      have nothing : run.mshr.held = [] := by
        obtain ⟨noTargets, noDeferred⟩ : run.mshr.targets.list = [] ∧ run.mshr.deferredTargets.list = [] := by
          simpa [MSHR.getNumTargets] using free
        simp [MSHR.held, noTargets, noDeferred]
      simp [requests, nothing, MSHR.allocate_held free allocated, MSHR.Action.requests]
    · cases done
  | allocateTarget curTick pkt whenReady order allocOnFill =>
    obtain ⟨mshr, allocated, rfl⟩ := Option.map_eq_some_iff.mp done
    simp [requests, MSHR.allocateTarget_held allocated, MSHR.Action.requests]
  | handleSnoop curTick pkt order =>
    obtain ⟨⟨handled, answered, mshr⟩, snooped, rfl⟩ := Option.map_eq_some_iff.mp done
    exact (onto_requests (MSHR.handleSnoop_held snooped)).trans (List.append_nil _).symm
  | setForward isForward =>
    cases done
    exact (onto_requests rfl).trans (List.append_nil _).symm
  | markInService pendingModifiedResp =>
    obtain ⟨mshr, marked, rfl⟩ := Option.map_eq_some_iff.mp done
    exact (onto_requests (MSHR.markInService_held marked)).trans (List.append_nil _).symm
  | markPending =>
    unfold perform at done
    dsimp only at done
    split at done
    · cases done
      exact (onto_requests rfl).trans (List.append_nil _).symm
    · cases done
  | setDownstreamPending =>
    unfold perform at done
    dsimp only at done
    split at done
    · cases done
    · cases done
      exact (onto_requests rfl).trans (List.append_nil _).symm
  | clearDownstreamPending =>
    obtain ⟨mshr, cleared, rfl⟩ := Option.map_eq_some_iff.mp done
    exact (onto_requests (MSHR.clearDownstreamPending_held cleared)).trans (List.append_nil _).symm
  | extractServiceableTargets pkt =>
    obtain ⟨⟨ready, mshr⟩, extracted, rfl⟩ := Option.map_eq_some_iff.mp done
    have split := MSHR.extractServiceableTargets_held extracted
    simp [requests, ← split, MSHR.Action.requests]
  | promoteReadable =>
    obtain ⟨mshr, promoted, rfl⟩ := Option.map_eq_some_iff.mp done
    exact (onto_requests (MSHR.promoteReadable_held promoted)).trans (List.append_nil _).symm
  | promoteWritable =>
    obtain ⟨mshr, promoted, rfl⟩ := Option.map_eq_some_iff.mp done
    exact (onto_requests (MSHR.promoteWritable_held promoted)).trans (List.append_nil _).symm
  | promoteDeferredTargets curTick =>
    obtain ⟨⟨promoted, mshr⟩, moved, rfl⟩ := Option.map_eq_some_iff.mp done
    exact (onto_requests (MSHR.promoteDeferredTargets_held moved)).trans (List.append_nil _).symm
  | deallocate =>
    obtain ⟨mshr, freed, rfl⟩ := Option.map_eq_some_iff.mp done
    exact (onto_requests (MSHR.deallocate_held freed)).trans (List.append_nil _).symm

/-- **Requests from above are neither lost, doubled nor reordered**: those that were extracted, those in the list of
targets and those that are deferred are, in this order, all that were added. -/
theorem targets_conserved (ran : tryActions perform ⟨.create, []⟩ actions = some final) :
    requestsOf final.extracted.flatten ++ requestsOf final.mshr.targets.list ++
      requestsOf final.mshr.deferredTargets.list = actions.flatMap MSHR.Action.requests := by
  have grown := tryActions_appended requests MSHR.Action.requests (fun _ _ _ => perform_requests) ran
  rw [List.append_assoc]
  exact grown

/-- A write comes while a read of its block is in service. It is deferred, and sent as a request of its own. -/
def writeBehindRead : List MSHR.Action :=
  let read := Packet.ofRequest 1 (.make 0 8 0 0 0) .readReq []
  let write := Packet.ofRequest 2 (.make 8 8 0 0 0) .writeReq [1, 2, 3, 4, 5, 6, 7, 8]
  [.allocate 10 0 64 read 12 1 true, .markInService false, .allocateTarget 20 write 22 2 true,
    .extractServiceableTargets { read with cmd := .readResp }, .promoteDeferredTargets 30, .markPending,
    .markInService false]

theorem targets_conserved_writeBehindRead :
    ∃ final, tryActions perform ⟨.create, []⟩ writeBehindRead = some final ∧
      requestsOf final.extracted.flatten ++ requestsOf final.mshr.targets.list ++
        requestsOf final.mshr.deferredTargets.list = writeBehindRead.flatMap MSHR.Action.requests :=
  ⟨_, rfl, targets_conserved rfl⟩

end MSHRRun

end Emas.Gem5

/-
**Cache maintenance requests are serviced on their own.**

Of a target only its source and whether it is a cache maintenance request matter here: its `kind`. A list of targets is
one that maintenance requests lead if only its first target that is no snoop may be one (`Leads`); there such a request is
served before all others. It is alone if it is the only one that is no snoop (`Alone`).

* The response to a clean request promotes the reads that were deferred behind it into the list it still heads
  (`clean_before_read`), so that it is not alone there.
* **`MSHRRun.maintenance_first`** — a maintenance request leads the targets, and the list that it is extracted in, if no
  promotion that a response permits has moved one since there were no targets; and it is alone if nothing has been
  promoted behind it.
-/

import Emas.Gem5.TargetOrder

namespace Emas.Gem5

/-- What is asked of a target: where it comes from, and whether it is a cache maintenance request. -/
structure TargetKind where
  source : Source
  maintenance : Bool
  deriving DecidableEq

/-- What counts of a target here. -/
def Target.kind (t : Target) : TargetKind := ⟨t.source, t.pkt.req.isCacheMaintenance⟩

@[simp] theorem Target.kind_source (t : Target) : t.kind.source = t.source := rfl

/-- What counts of the targets of a list, in order. -/
def kindsOf (range : List Target) : List TargetKind := range.map Target.kind

@[simp] theorem kindsOf_nil : kindsOf [] = [] := rfl

@[simp] theorem kindsOf_cons (t : Target) (rest : List Target) : kindsOf (t :: rest) = t.kind :: kindsOf rest := rfl

@[simp] theorem kindsOf_append (first second : List Target) :
    kindsOf (first ++ second) = kindsOf first ++ kindsOf second := List.map_append

@[simp] theorem kindsOf_clearPending (range : List Target) :
    kindsOf (TargetList.clearPending range) = kindsOf range := List.map_map

@[simp] theorem kindsOf_replaceUpgrades (targets : TargetList) :
    kindsOf targets.replaceUpgrades.list = kindsOf targets.list := by
  have request : ∀ pkt, (replaceUpgrade pkt).req = pkt.req := fun pkt =>
    congrArg Prod.snd (replaceUpgrade_identity pkt)
  unfold TargetList.replaceUpgrades
  split
  · simp [kindsOf, Target.kind, Function.comp_def, request]
  · rfl

/-- All but the snoops. -/
def withoutSnoops (kinds : List TargetKind) : List TargetKind := kinds.filter fun kind => kind.source ≠ .fromSnoop

@[simp] theorem withoutSnoops_append (first second : List TargetKind) :
    withoutSnoops (first ++ second) = withoutSnoops first ++ withoutSnoops second := List.filter_append ..

theorem withoutSnoops_cons {kind : TargetKind} (request : kind.source ≠ .fromSnoop) (rest : List TargetKind) :
    withoutSnoops (kind :: rest) = kind :: withoutSnoops rest := List.filter_cons_of_pos (by simpa using request)

theorem withoutSnoops_kindsOf (range : List Target) :
    withoutSnoops (kindsOf range) = kindsOf (range.filter fun t => t.source ≠ .fromSnoop) := List.filter_map

/-- Only the first target that is no snoop may be a maintenance request. -/
def Leads (kinds : List TargetKind) : Prop := ∀ kind ∈ (withoutSnoops kinds).tail, ¬ kind.maintenance

/-- A maintenance request is the only target that is no snoop. -/
def Alone (kinds : List TargetKind) : Prop :=
  ∀ kind ∈ withoutSnoops kinds, kind.maintenance → withoutSnoops kinds = [kind]

instance (kinds : List TargetKind) : Decidable (Alone kinds) :=
  inferInstanceAs (Decidable (∀ kind ∈ withoutSnoops kinds, kind.maintenance → withoutSnoops kinds = [kind]))

/-! ### Lists that maintenance requests lead -/

section Lists

variable {kinds others : List TargetKind}

theorem Leads.append (leads : Leads kinds) (ordinary : ∀ kind ∈ others, ¬ kind.maintenance) :
    Leads (kinds ++ others) := by
  have rest : ∀ kind ∈ withoutSnoops others, ¬ kind.maintenance := fun kind member =>
    ordinary kind (List.mem_of_mem_filter member)
  intro kind member
  rw [withoutSnoops_append] at member
  cases front : withoutSnoops kinds with
  | nil =>
    rw [front] at member
    exact rest kind (List.mem_of_mem_tail member)
  | cons first tail =>
    rw [front, List.cons_append, List.tail_cons] at member
    rcases List.mem_append.mp member with inside | behind
    · exact leads kind (by rwa [front])
    · exact rest kind behind

theorem Leads.of_length (short : kinds.length ≤ 1) : Leads kinds := by
  intro kind member
  have few : (withoutSnoops kinds).length ≤ 1 := (List.length_filter_le ..).trans short
  have empty : (withoutSnoops kinds).tail = [] := List.eq_nil_of_length_eq_zero (by rw [List.length_tail]; omega)
  rw [empty] at member
  cases member

theorem Alone.of_ordinary (ordinary : ∀ kind ∈ withoutSnoops kinds, ¬ kind.maintenance) : Alone kinds :=
  fun kind member maintenance => absurd maintenance (ordinary kind member)

theorem Alone.of_length (short : kinds.length ≤ 1) : Alone kinds := by
  intro kind member _
  have few : (withoutSnoops kinds).length ≤ 1 := (List.length_filter_le ..).trans short
  cases found : withoutSnoops kinds with
  | nil => rw [found] at member; cases member
  | cons first rest =>
    rw [found] at member few
    obtain rfl : rest = [] := List.eq_nil_of_length_eq_zero (by simpa using few)
    rw [List.mem_singleton.mp member]

theorem leads_snoop {kind : TargetKind} (snoop : kind.source = .fromSnoop) :
    withoutSnoops (kinds ++ [kind]) = withoutSnoops kinds := by
  simp [withoutSnoops, snoop]

theorem Leads.ordinary {front : TargetKind} (leads : Leads (front :: others)) (request : front.source ≠ .fromSnoop)
    (first : ¬ front.maintenance) : ∀ kind ∈ withoutSnoops (front :: others), ¬ kind.maintenance := by
  intro kind member
  unfold Leads at leads
  rw [withoutSnoops_cons request] at leads member
  rcases List.mem_cons.mp member with rfl | behind
  · exact first
  · exact leads kind behind

end Lists

/-! ### What a call does to the kinds -/

namespace MSHR

variable {mshr next : MSHR} {curTick : Nat}

/-- The kinds of the targets that the next response serves. -/
def waiting (mshr : MSHR) : List TargetKind := kindsOf mshr.targets.list

/-- The kinds of the deferred targets. -/
def later (mshr : MSHR) : List TargetKind := kindsOf mshr.deferredTargets.list

/-- The deferred targets that a call moves to the others. -/
def promoted (mshr : MSHR) : Action → List Target
  | .promoteDeferredTargets _ => mshr.deferredTargets.list.take mshr.promotedCount
  | action => mshr.movedTargets action

theorem allocate_kinds {blkAddr : Addr} {blkSize : Nat} {pkt : Packet} {whenReady order : Nat} {allocOnFill : Bool}
    (free : mshr.getNumTargets = 0)
    (done : mshr.allocate curTick blkAddr blkSize pkt whenReady order allocOnFill = some next) :
    mshr.waiting = [] ∧ next.waiting = [⟨sourceOf pkt, pkt.req.isCacheMaintenance⟩] ∧ next.later = [] := by
  obtain ⟨noTargets, noDeferred⟩ : mshr.targets.list = [] ∧ mshr.deferredTargets.list = [] := by
    simpa [getNumTargets] using free
  unfold allocate at done
  split at done
  · cases done
  dsimp only at done
  split at done
  · cases done
    simp [waiting, later, noTargets, noDeferred, Target.kind]
  · cases done

theorem allocateTarget_kinds {pkt : Packet} {whenReady order : Nat} {allocOnFill : Bool}
    (done : mshr.allocateTarget curTick pkt whenReady order allocOnFill = some next) :
    ∃ front rest, mshr.waiting = front :: rest ∧
      ((next.waiting = mshr.waiting ∧ ∃ maintenance, next.later = mshr.later ++ [⟨.fromCPU, maintenance⟩]) ∨
        (¬ front.maintenance ∧ next.waiting = mshr.waiting ++ [⟨.fromCPU, false⟩] ∧ next.later = mshr.later)) := by
  unfold allocateTarget at done
  split at done
  · cases done
  split at done
  · cases done
  next front rest targets =>
  refine ⟨front.kind, kindsOf rest, by rw [waiting, targets, kindsOf_cons], ?_⟩
  split at done
  · cases done
    exact .inl ⟨rfl, _, by simp only [later, TargetList.add_list, kindsOf_append]; rfl⟩
  · next direct =>
    have notDeferred := Bool.eq_false_iff.mpr direct
    simp only [defers, Bool.or_eq_false_iff] at notDeferred
    obtain ⟨⟨⟨ordinary, first⟩, -⟩, -⟩ := notDeferred
    cases done
    refine .inr ⟨Bool.eq_false_iff.mp first, ?_, rfl⟩
    simp only [waiting, TargetList.add_list, kindsOf_append, kindsOf_cons, kindsOf_nil, Target.kind, ordinary]

theorem recordSnoop_kinds (mshr : MSHR) (curTick : Nat) (pkt : Packet) (order : Nat) :
    (mshr.recordSnoop curTick pkt order).later = mshr.later ∧ (mshr.recordSnoop curTick pkt order).waiting =
      mshr.waiting ++ [⟨.fromSnoop, pkt.req.isCacheMaintenance⟩] := by
  refine ⟨rfl, ?_⟩
  by_cases responds : mshr.willRespond pkt <;>
    simp [waiting, recordSnoop, responds, Target.kind, Packet.copy, Packet.forBlock]

theorem handleSnoop_kinds {pkt answered : Packet} {order : Nat} {handled : Bool}
    (done : mshr.handleSnoop curTick pkt order = some (handled, answered, next)) :
    next.later = mshr.later ∧ (next.waiting = mshr.waiting ∨
      mshr.waiting ≠ [] ∧ ∃ maintenance, next.waiting = mshr.waiting ++ [⟨.fromSnoop, maintenance⟩]) := by
  unfold handleSnoop at done
  split at done
  · cases done
  dsimp only at done
  split at done
  · cases done
    split
    · simp [later, waiting]
    · exact ⟨rfl, .inl rfl⟩
  · generalize changed : (if (pkt.needsWritable || pkt.req.isCacheInvalidate) = true then
        { mshr with deferredTargets := mshr.deferredTargets.replaceUpgrades } else mshr) = middle at done
    obtain ⟨laterSame, targetsSame⟩ : middle.later = mshr.later ∧ middle.targets = mshr.targets := by
      rw [← changed]
      split
      · simp [later]
      · exact ⟨rfl, rfl⟩
    have waitingSame : middle.waiting = mshr.waiting := congrArg (kindsOf ∘ TargetList.list) targetsSame
    split at done
    · cases done
    next front rest targets =>
    have nonempty : mshr.waiting ≠ [] := by
      rw [← waitingSame, waiting, targets]
      exact List.cons_ne_nil _ _
    split at done
    · cases done
      exact ⟨laterSame, .inl waitingSame⟩
    · obtain ⟨answer, -, done⟩ := Option.map_eq_some_iff.mp done
      generalize snooped : (if (middle.pendingModified || pkt.isInvalidate) = true then
          middle.recordSnoop curTick pkt order else middle) = after at done
      have recorded : after.later = mshr.later ∧ (after.waiting = mshr.waiting ∨
          mshr.waiting ≠ [] ∧ ∃ maintenance, after.waiting = mshr.waiting ++ [⟨.fromSnoop, maintenance⟩]) := by
        rw [← snooped]
        split
        · obtain ⟨recordedLater, recordedWaiting⟩ := recordSnoop_kinds middle curTick pkt order
          exact ⟨recordedLater.trans laterSame, .inr ⟨nonempty, _, waitingSame ▸ recordedWaiting⟩⟩
        · exact ⟨laterSame, .inl waitingSame⟩
      split at done
      · cases done
        exact recorded
      · cases done
        exact recorded

theorem extractServiceableTargets_kinds {pkt : Packet} {ready : TargetList}
    (done : mshr.extractServiceableTargets pkt = some (ready, next)) :
    next.later = mshr.later ∧ ((kindsOf ready.list = mshr.waiting ∧ next.waiting = []) ∨
      ∃ front rest, mshr.waiting = front :: rest ∧
        withoutSnoops (kindsOf ready.list) = withoutSnoops [front] ∧ next.waiting = withoutSnoops rest ∧
        ∀ kind ∈ withoutSnoops rest, kind.source = .fromCPU) := by
  unfold extractServiceableTargets at done
  dsimp only at done
  split at done
  · split at done
    · cases done
    next front rest targets =>
    split at done
    · cases done
    next expected =>
    rw [not_or] at expected
    -- Behind the first target there are requests from above and snoops only.
    have sources : ∀ t ∈ rest, t.fromCPU = decide (t.source ≠ .fromSnoop) := by
      intro t member
      have noPrefetch : t.source ≠ .fromPrefetcher := fun prefetch =>
        expected.2 (List.any_eq_true.mpr ⟨t, member, by simpa using prefetch⟩)
      cases source : t.source <;> simp_all [Target.fromCPU]
    have cpu : kindsOf (rest.filter Target.fromCPU) = withoutSnoops (kindsOf rest) := by
      rw [withoutSnoops_kindsOf, List.filter_congr sources]
    have snoops : withoutSnoops (kindsOf (rest.filter fun t => !t.fromCPU)) = [] := by
      rw [withoutSnoops_kindsOf, List.filter_filter, List.filter_eq_nil_iff.mpr, kindsOf_nil]
      intro t member
      simp [sources t member]
    cases done
    refine ⟨rfl, .inr ⟨front.kind, kindsOf rest, by rw [waiting, targets, kindsOf_cons], ?_, ?_, ?_⟩⟩
    · simp only [TargetList.populateFlags_list, kindsOf_cons]
      rw [← List.singleton_append, withoutSnoops_append, snoops, List.append_nil]
    · simpa [waiting] using cpu
    · intro kind member
      rw [← cpu] at member
      obtain ⟨t, inside, rfl⟩ := List.mem_map.mp member
      simpa [Target.fromCPU] using (List.mem_filter.mp inside).2
  · cases done
    exact ⟨rfl, .inl ⟨rfl, by simp [waiting, TargetList.create]⟩⟩

theorem promoteIf_kinds {pred : Target → Bool} (done : mshr.promoteIf pred = some next) :
    next.waiting = mshr.waiting ++ kindsOf (mshr.deferredTargets.list.takeWhile pred) ∧
      mshr.later = kindsOf (mshr.deferredTargets.list.takeWhile pred) ++ next.later := by
  unfold promoteIf at done
  split at done
  · cases done
  obtain ⟨⟨promoted, others⟩, split, rfl⟩ := Option.map_eq_some_iff.mp done
  obtain ⟨rfl, rfl, -⟩ := splitPromoted_spec split
  refine ⟨by simp [waiting], ?_⟩
  simp only [later, TargetList.populateFlags_list]
  rw [← kindsOf_append, List.takeWhile_append_dropWhile]

theorem promoteReadable_kinds (done : mshr.promoteReadable = some next) :
    next.waiting = mshr.waiting ++ kindsOf (mshr.movedTargets .promoteReadable) ∧
      mshr.later = kindsOf (mshr.movedTargets .promoteReadable) ++ next.later := by
  unfold promoteReadable at done
  split at done
  · next empty =>
    cases done
    simp [movedTargets, List.isEmpty_iff.mp empty]
  split at done
  · cases done
  split at done
  · next invalidated =>
    cases done
    simp [movedTargets, invalidated]
  · next kept => simpa [movedTargets, kept] using promoteIf_kinds done

theorem promoteWritable_kinds (done : mshr.promoteWritable = some next) :
    next.waiting = mshr.waiting ++ kindsOf (mshr.movedTargets .promoteWritable) ∧
      mshr.later = kindsOf (mshr.movedTargets .promoteWritable) ++ next.later := by
  unfold promoteWritable at done
  split at done
  · next writable =>
    split at done
    · cases done
    split at done
    · next lost =>
      cases done
      simp [movedTargets, lost]
    next kept =>
    have moves : mshr.movedTargets .promoteWritable = mshr.deferredTargets.list.takeWhile isWritable := by
      simp only [movedTargets, writable, Bool.eq_false_iff.mpr kept]
      rfl
    rw [moves]
    split at done
    · cases done
    next front rest deferred =>
    split at done
    · next invalidating =>
      cases done
      simp [deferred, isWritable, invalidating]
    split at done
    · cases done
    · have moved := promoteIf_kinds done
      exact moved
  · next readable =>
    cases done
    simp [movedTargets, readable]

theorem promotedCount_spec (mshr : MSHR) :
    (mshr.waiting = [] ∧ mshr.promotedCount ≤ 1) ∨
      ∀ kind ∈ kindsOf (mshr.deferredTargets.list.take mshr.promotedCount), ¬ kind.maintenance := by
  have isPrefix := List.takeWhile_prefix (l := mshr.deferredTargets.list)
    fun t : Target => !t.pkt.req.isCacheMaintenance
  unfold promotedCount
  split
  · split
    · next empty => exact .inl ⟨by rw [waiting, List.isEmpty_iff.mp empty, kindsOf_nil], Nat.le_refl _⟩
    · exact .inr fun _ => nofun
  · right
    intro kind member
    rw [← List.prefix_iff_eq_take.mp isPrefix] at member
    obtain ⟨t, inside, rfl⟩ := List.mem_map.mp member
    simpa [Target.kind] using List.mem_takeWhile_imp inside

theorem promoteDeferredTargets_kinds {promoted : Bool}
    (done : mshr.promoteDeferredTargets curTick = some (promoted, next)) :
    next.waiting = mshr.waiting ++ kindsOf (mshr.deferredTargets.list.take mshr.promotedCount) ∧
      mshr.later = kindsOf (mshr.deferredTargets.list.take mshr.promotedCount) ++ next.later := by
  unfold promoteDeferredTargets at done
  split at done
  · next empty =>
    cases done
    simp only [Bool.and_eq_true, List.isEmpty_iff] at empty
    simp [later, empty.2]
  dsimp only at done
  split at done
  · cases done
  · cases done
    refine ⟨by simp [waiting], ?_⟩
    simp only [later, TargetList.populateFlags_list]
    rw [← kindsOf_append, List.take_append_drop]

end MSHR

/-! ### Steps -/

namespace MSHRRun

variable {run next final : MSHRRun} {action : MSHR.Action} {actions : List MSHR.Action}

/-- What a call does to the kinds of the targets, and which targets it extracts. -/
inductive KindsMove (run : MSHRRun) (action : MSHR.Action) (next : MSHRRun) : Prop
  | kept : next.mshr.waiting = run.mshr.waiting → next.mshr.later = run.mshr.later →
      next.extracted = run.extracted → KindsMove run action next
  | started (kind : TargetKind) : kind.source ≠ .fromSnoop → next.mshr.waiting = [kind] → next.mshr.later = [] →
      next.extracted = run.extracted → KindsMove run action next
  | deferred (maintenance : Bool) : next.mshr.waiting = run.mshr.waiting →
      next.mshr.later = run.mshr.later ++ [⟨.fromCPU, maintenance⟩] → next.extracted = run.extracted →
      KindsMove run action next
  | joined (front : TargetKind) (rest : List TargetKind) : run.mshr.waiting = front :: rest → ¬ front.maintenance →
      next.mshr.waiting = run.mshr.waiting ++ [⟨.fromCPU, false⟩] → next.mshr.later = run.mshr.later →
      next.extracted = run.extracted → KindsMove run action next
  | snooped (maintenance : Bool) : run.mshr.waiting ≠ [] →
      next.mshr.waiting = run.mshr.waiting ++ [⟨.fromSnoop, maintenance⟩] → next.mshr.later = run.mshr.later →
      next.extracted = run.extracted → KindsMove run action next
  | promoted : next.mshr.waiting = run.mshr.waiting ++ kindsOf (run.mshr.promoted action) →
      run.mshr.later = kindsOf (run.mshr.promoted action) ++ next.mshr.later →
      (kindsOf (run.mshr.promoted action) = kindsOf (run.mshr.movedTargets action) ∨
        (run.mshr.waiting = [] ∧ (run.mshr.promoted action).length ≤ 1) ∨
        ∀ kind ∈ kindsOf (run.mshr.promoted action), ¬ kind.maintenance) →
      next.extracted = run.extracted → KindsMove run action next
  | served (ready : List Target) : kindsOf ready = run.mshr.waiting → next.mshr.waiting = [] →
      next.mshr.later = run.mshr.later → next.extracted = run.extracted ++ [ready] → KindsMove run action next
  | servedFirst (ready : List Target) (front : TargetKind) (rest : List TargetKind) :
      run.mshr.waiting = front :: rest → withoutSnoops (kindsOf ready) = withoutSnoops [front] →
      next.mshr.waiting = withoutSnoops rest → (∀ kind ∈ withoutSnoops rest, kind.source = .fromCPU) →
      next.mshr.later = run.mshr.later → next.extracted = run.extracted ++ [ready] → KindsMove run action next

/-- **Each call does one of it.** -/
theorem perform_moves (done : run.perform action = some next) : KindsMove run action next := by
  cases action with
  | allocate curTick blkAddr blkSize pkt whenReady order allocOnFill =>
    unfold perform at done
    dsimp only at done
    split at done
    · next free =>
      obtain ⟨mshr, allocated, rfl⟩ := Option.map_eq_some_iff.mp done
      obtain ⟨-, waiting, later⟩ := MSHR.allocate_kinds free allocated
      refine .started _ ?_ waiting later rfl
      unfold MSHR.sourceOf
      split <;> exact nofun
    · cases done
  | allocateTarget curTick pkt whenReady order allocOnFill =>
    obtain ⟨mshr, allocated, rfl⟩ := Option.map_eq_some_iff.mp done
    obtain ⟨front, rest, targets, ⟨same, maintenance, deferred⟩ | ⟨ordinary, joined, later⟩⟩ :=
      MSHR.allocateTarget_kinds allocated
    · exact .deferred maintenance same deferred rfl
    · exact .joined front rest targets ordinary joined later rfl
  | handleSnoop curTick pkt order =>
    obtain ⟨⟨handled, answered, mshr⟩, snooped, rfl⟩ := Option.map_eq_some_iff.mp done
    obtain ⟨later, same | ⟨nonempty, maintenance, recorded⟩⟩ := MSHR.handleSnoop_kinds snooped
    · exact .kept same later rfl
    · exact .snooped maintenance nonempty recorded later rfl
  | setForward isForward =>
    cases done
    exact .kept rfl rfl rfl
  | markInService pendingModifiedResp =>
    obtain ⟨mshr, marked, rfl⟩ := Option.map_eq_some_iff.mp done
    unfold MSHR.markInService at marked
    split at marked
    · cases marked
    · cases marked
      refine .kept ?_ rfl rfl
      dsimp only [onto_mshr, MSHR.waiting]
      split <;> simp
  | markPending =>
    unfold perform at done
    dsimp only at done
    split at done
    · cases done
      exact .kept rfl rfl rfl
    · cases done
  | setDownstreamPending =>
    unfold perform at done
    dsimp only at done
    split at done
    · cases done
    · cases done
      exact .kept rfl rfl rfl
  | clearDownstreamPending =>
    obtain ⟨mshr, cleared, rfl⟩ := Option.map_eq_some_iff.mp done
    unfold MSHR.clearDownstreamPending at cleared
    split at cleared
    · cases cleared
      exact .kept (by simp [MSHR.waiting]) rfl rfl
    · cases cleared
  | extractServiceableTargets pkt =>
    obtain ⟨⟨ready, mshr⟩, extracted, rfl⟩ := Option.map_eq_some_iff.mp done
    obtain ⟨later, ⟨all, none⟩ | ⟨front, rest, targets, first, left, sources⟩⟩ :=
      MSHR.extractServiceableTargets_kinds extracted
    · exact .served ready.list all none later rfl
    · exact .servedFirst ready.list front rest targets first left sources later rfl
  | promoteReadable =>
    obtain ⟨mshr, promoted, rfl⟩ := Option.map_eq_some_iff.mp done
    obtain ⟨waiting, later⟩ := MSHR.promoteReadable_kinds promoted
    exact .promoted waiting later (.inl rfl) rfl
  | promoteWritable =>
    obtain ⟨mshr, promoted, rfl⟩ := Option.map_eq_some_iff.mp done
    obtain ⟨waiting, later⟩ := MSHR.promoteWritable_kinds promoted
    exact .promoted waiting later (.inl rfl) rfl
  | promoteDeferredTargets curTick =>
    obtain ⟨⟨promoted, mshr⟩, moved, rfl⟩ := Option.map_eq_some_iff.mp done
    obtain ⟨waiting, later⟩ := MSHR.promoteDeferredTargets_kinds moved
    refine .promoted waiting later (.inr ?_) rfl
    refine run.mshr.promotedCount_spec.imp_left fun ⟨empty, count⟩ => ⟨empty, ?_⟩
    exact (List.length_take_le ..).trans count
  | deallocate =>
    obtain ⟨mshr, freed, rfl⟩ := Option.map_eq_some_iff.mp done
    unfold MSHR.deallocate at freed
    split at freed
    · cases freed
      exact .kept rfl rfl rfl
    · cases freed

/-! ### Runs -/

/-- No promotion that a response permits moves a maintenance request. -/
def PromotesOrdinary (run : MSHRRun) (action : MSHR.Action) : Prop :=
  ∀ kind ∈ kindsOf (run.mshr.movedTargets action), ¬ kind.maintenance

instance (run : MSHRRun) (action : MSHR.Action) : Decidable (PromotesOrdinary run action) :=
  inferInstanceAs (Decidable (∀ kind ∈ kindsOf (run.mshr.movedTargets action), ¬ kind.maintenance))

/-- Nothing is promoted behind a maintenance request. -/
def PromotesNoneBehind (run : MSHRRun) (action : MSHR.Action) : Prop :=
  (∃ kind ∈ withoutSnoops run.mshr.waiting, kind.maintenance) → run.mshr.promoted action = []

instance (run : MSHRRun) (action : MSHR.Action) : Decidable (PromotesNoneBehind run action) :=
  inferInstanceAs (Decidable ((∃ kind ∈ withoutSnoops run.mshr.waiting, kind.maintenance) → _ = []))

/-- The first target is no snoop, and every deferred one is a request from above. -/
structure Sourced (run : MSHRRun) : Prop where
  front : ∀ front rest, run.mshr.waiting = front :: rest → front.source ≠ .fromSnoop
  deferred : ∀ kind ∈ run.mshr.later, kind.source = .fromCPU

theorem Sourced.front_append (sourced : Sourced run) {added : List TargetKind}
    (requests : ∀ kind ∈ added, kind.source = .fromCPU) :
    ∀ front rest, run.mshr.waiting ++ added = front :: rest → front.source ≠ .fromSnoop := by
  intro front rest whole
  cases waiting : run.mshr.waiting with
  | nil =>
    rw [waiting, List.nil_append] at whole
    rw [requests front (whole ▸ List.mem_cons_self)]
    exact nofun
  | cons first others =>
    rw [waiting, List.cons_append] at whole
    obtain ⟨rfl, -⟩ := List.cons.inj whole
    exact sourced.front first others waiting

theorem Sourced.step (sourced : Sourced run) (moves : KindsMove run action next) : Sourced next := by
  cases moves with
  | kept waiting later extracted => exact ⟨waiting ▸ sourced.front, later ▸ sourced.deferred⟩
  | started kind request waiting later extracted =>
    refine ⟨fun front rest whole => ?_, by rw [later]; exact fun _ => nofun⟩
    rw [waiting] at whole
    obtain ⟨rfl, -⟩ := List.cons.inj whole
    exact request
  | deferred maintenance waiting later extracted =>
    refine ⟨waiting ▸ sourced.front, fun kind member => ?_⟩
    rw [later] at member
    rcases List.mem_append.mp member with old | new
    · exact sourced.deferred kind old
    · rw [List.mem_singleton.mp new]
  | joined front rest _ _ waiting later extracted =>
    refine ⟨waiting ▸ sourced.front_append fun kind new => ?_, later ▸ sourced.deferred⟩
    rw [List.mem_singleton.mp new]
  | snooped maintenance nonempty waiting later extracted =>
    refine ⟨fun front rest whole => ?_, later ▸ sourced.deferred⟩
    obtain ⟨first, others, split⟩ := List.exists_cons_of_ne_nil nonempty
    rw [waiting, split, List.cons_append] at whole
    obtain ⟨rfl, -⟩ := List.cons.inj whole
    exact sourced.front first others split
  | promoted waiting later _ extracted =>
    have requests : ∀ kind ∈ kindsOf (run.mshr.promoted action), kind.source = .fromCPU := fun kind member =>
      sourced.deferred kind (later ▸ List.mem_append_left _ member)
    exact ⟨waiting ▸ sourced.front_append requests, fun kind member =>
      sourced.deferred kind (later ▸ List.mem_append_right _ member)⟩
  | served ready _ waiting later extracted =>
    exact ⟨by rw [waiting]; exact fun _ _ => nofun, later ▸ sourced.deferred⟩
  | servedFirst ready front rest _ _ waiting sources later extracted =>
    refine ⟨fun first others whole => ?_, later ▸ sourced.deferred⟩
    rw [waiting] at whole
    rw [sources first (whole ▸ List.mem_cons_self)]
    exact nofun

/-- No target but a snoop is a maintenance request. -/
def Unclaimed (run : MSHRRun) : Prop := ∀ kind ∈ withoutSnoops run.mshr.waiting, ¬ kind.maintenance

instance (run : MSHRRun) : Decidable (Unclaimed run) :=
  inferInstanceAs (Decidable (∀ kind ∈ withoutSnoops run.mshr.waiting, ¬ kind.maintenance))

/-- What the targets are, and what every list is that was extracted after these. -/
structure Since (good : List TargetKind → Prop) (old : List (List Target)) (run : MSHRRun) : Prop where
  targets : good run.mshr.waiting
  extracted : ∃ more, run.extracted = old ++ more ∧ ∀ ready ∈ more, good (kindsOf ready)

namespace Since

variable {good : List TargetKind → Prop} {old : List (List Target)}

theorem start (targets : good run.mshr.waiting) : Since good run.extracted run :=
  ⟨targets, [], (List.append_nil _).symm, fun _ => nofun⟩

theorem move (since : Since good old run) (targets : good next.mshr.waiting) (same : next.extracted = run.extracted) :
    Since good old next := ⟨targets, same ▸ since.extracted⟩

theorem extract (since : Since good old run) {ready : List Target} (targets : good next.mshr.waiting)
    (fits : good (kindsOf ready)) (extracted : next.extracted = run.extracted ++ [ready]) : Since good old next := by
  obtain ⟨more, split, all⟩ := since.extracted
  refine ⟨targets, more ++ [ready], by rw [extracted, split, List.append_assoc], List.forall_mem_append.mpr ⟨all, ?_⟩⟩
  intro batch member
  rwa [List.mem_singleton.mp member]

end Since

/-- Maintenance requests lead the targets, and led every list that was extracted after these. -/
structure LeadInv (old : List (List Target)) (run : MSHRRun) : Prop extends Sourced run, Since Leads old run

variable {old : List (List Target)}

theorem LeadInv.step (inv : LeadInv old run) (ordinary : PromotesOrdinary run action)
    (moves : KindsMove run action next) : LeadInv old next := by
  have since := inv.toSince
  refine ⟨inv.toSourced.step moves, ?_⟩
  cases moves with
  | kept waiting later extracted => exact since.move (waiting ▸ inv.targets) extracted
  | started kind _ waiting later extracted => exact since.move (waiting ▸ Leads.of_length (Nat.le_refl 1)) extracted
  | deferred maintenance waiting later extracted => exact since.move (waiting ▸ inv.targets) extracted
  | joined front rest _ _ waiting later extracted =>
    refine since.move (waiting ▸ inv.targets.append fun kind new => ?_) extracted
    rw [List.mem_singleton.mp new]
    exact nofun
  | snooped maintenance _ waiting later extracted =>
    refine since.move ?_ extracted
    unfold Leads
    rw [waiting, leads_snoop rfl]
    exact inv.targets
  | promoted waiting later apart extracted =>
    refine since.move ?_ extracted
    rw [waiting]
    rcases apart with moved | ⟨empty, one⟩ | apart
    · exact inv.targets.append (moved ▸ ordinary)
    · exact Leads.of_length (by simpa [empty, kindsOf] using one)
    · exact inv.targets.append apart
  | served ready all waiting later extracted =>
    exact since.extract (waiting ▸ Leads.of_length (Nat.zero_le 1)) (all ▸ inv.targets) extracted
  | servedFirst ready front rest targets first waiting _ later extracted =>
    have behind : ∀ kind ∈ withoutSnoops rest, ¬ kind.maintenance := by
      have leads := inv.targets
      unfold Leads at leads
      rwa [targets, withoutSnoops_cons (inv.front front rest targets)] at leads
    refine since.extract ?_ ?_ extracted
    · rw [waiting]
      exact fun kind member => behind kind (List.mem_of_mem_filter (List.mem_of_mem_tail member))
    · have single : Leads [front] := Leads.of_length (Nat.le_refl 1)
      unfold Leads at single ⊢
      rwa [first]

theorem alone_step {old' : List (List Target)} (inv : Since Alone old run) (lead : LeadInv old' run)
    (ordinary : PromotesOrdinary run action) (behind : PromotesNoneBehind run action)
    (moves : KindsMove run action next) : Since Alone old next := by
  cases moves with
  | kept waiting later extracted => exact inv.move (waiting ▸ inv.targets) extracted
  | started kind _ waiting later extracted => exact inv.move (waiting ▸ Alone.of_length (Nat.le_refl 1)) extracted
  | deferred maintenance waiting later extracted => exact inv.move (waiting ▸ inv.targets) extracted
  | joined front rest targets first waiting later extracted =>
    refine inv.move (Alone.of_ordinary ?_) extracted
    rw [waiting, withoutSnoops_append, targets]
    have leads := lead.targets
    rw [targets] at leads
    refine List.forall_mem_append.mpr ⟨leads.ordinary (lead.front front rest targets) first, fun kind new => ?_⟩
    rw [List.mem_singleton.mp (List.mem_of_mem_filter new)]
    exact nofun
  | snooped maintenance _ waiting later extracted =>
    refine inv.move ?_ extracted
    unfold Alone
    rw [waiting, leads_snoop rfl]
    exact inv.targets
  | promoted waiting later apart extracted =>
    refine inv.move ?_ extracted
    rw [waiting]
    by_cases held : ∃ kind ∈ withoutSnoops run.mshr.waiting, kind.maintenance
    · rw [behind held, kindsOf_nil, List.append_nil]
      exact inv.targets
    have none : ∀ kind ∈ withoutSnoops run.mshr.waiting, ¬ kind.maintenance := fun kind member maintenance =>
      held ⟨kind, member, maintenance⟩
    have joined (apart : ∀ kind ∈ kindsOf (run.mshr.promoted action), ¬ kind.maintenance) :
        Alone (run.mshr.waiting ++ kindsOf (run.mshr.promoted action)) := by
      refine Alone.of_ordinary ?_
      rw [withoutSnoops_append]
      exact List.forall_mem_append.mpr ⟨none, fun kind member => apart kind (List.mem_of_mem_filter member)⟩
    rcases apart with moved | ⟨empty, one⟩ | apart
    · exact joined (moved ▸ ordinary)
    · exact Alone.of_length (by simpa [empty, kindsOf] using one)
    · exact joined apart
  | served ready all waiting later extracted =>
    exact inv.extract (waiting ▸ Alone.of_length (Nat.zero_le 1)) (all ▸ inv.targets) extracted
  | servedFirst ready front rest targets first waiting _ later extracted =>
    refine inv.extract (Alone.of_ordinary fun kind member => ?_) ?_ extracted
    · rw [waiting] at member
      have leads := lead.targets
      unfold Leads at leads
      rw [targets, withoutSnoops_cons (lead.front front rest targets)] at leads
      exact leads kind (List.mem_of_mem_filter member)
    · have single : Alone [front] := Alone.of_length (Nat.le_refl 1)
      unfold Alone at single ⊢
      rwa [first]

theorem Sourced.start : Sourced ⟨.create, []⟩ := ⟨fun _ _ => nofun, fun _ => nofun⟩

/-- **Maintenance requests are served first, and alone unless more was promoted behind them.** From any state of a run
in which there are no targets, a maintenance request leads the targets, and led them in every list that was extracted,
if no promotion that a response permits has moved a maintenance request since then. And from any state in which none is
among the targets, the next ones are alone, here and in every list that was extracted, if nothing has been promoted
behind them. -/
theorem maintenance_first {before since : List MSHR.Action} {middle final : MSHRRun}
    (reached : tryActions perform ⟨.create, []⟩ before = some middle) (empty : middle.mshr.targets.list = [])
    (ran : tryActions perform middle since = some final) (ordinary : MeetAll perform PromotesOrdinary middle since) :
    Since Leads middle.extracted final ∧
      ∀ early late between, since = early ++ late → tryActions perform middle early = some between →
        Unclaimed between → MeetAll perform PromotesNoneBehind between late → Since Alone between.extracted final := by
  have sourced : Sourced middle := tryActions_invariant Sourced
    (fun _ _ _ done sourced => sourced.step (perform_moves done)) reached .start
  have none : middle.mshr.waiting = [] := by rw [MSHR.waiting, empty, kindsOf_nil]
  have begins : LeadInv middle.extracted middle := ⟨sourced, .start (none ▸ Leads.of_length (Nat.zero_le 1))⟩
  have step {run next : MSHRRun} {action : MSHR.Action} (ordinary : PromotesOrdinary run action)
      (done : run.perform action = some next) (lead : LeadInv middle.extracted run) : LeadInv middle.extracted next :=
    lead.step ordinary (perform_moves done)
  refine ⟨(ordinary.invariant _ (fun _ _ _ => step) ran begins).toSince, ?_⟩
  rintro early late between rfl arrived unclaimed behind
  rw [tryActions_append, arrived, Option.bind_some] at ran
  have lead := ordinary.of_append.invariant _ (fun _ _ _ => step) arrived begins
  have alone := ((ordinary.behind arrived).and behind).invariant
    (fun run => LeadInv middle.extracted run ∧ Since Alone between.extracted run)
    (fun _ _ _ fits done inv => ⟨step fits.1 done inv.1, alone_step inv.2 inv.1 fits.1 fits.2 (perform_moves done)⟩)
    ran ⟨lead, .start (Alone.of_ordinary unclaimed)⟩
  exact alone.2

/-- A clean request of a block. -/
def cleanRequest : Packet := .ofRequest 1 (.make 0 64 Request.clean 0 0) .cleanSharedReq []

/-- A read comes while a clean request for its block is in service, and may go on with the response to it. -/
def readBehindClean : List MSHR.Action :=
  let read := Packet.ofRequest 2 (.make 8 8 0 0 0) .readReq []
  [.allocate 10 0 64 cleanRequest 12 1 true, .markInService false, .allocateTarget 20 read 22 2 true, .promoteReadable]

/-- The register is served and used for another clean request, which nothing is promoted behind. -/
def cleanAgain : List MSHR.Action :=
  let response := { cleanRequest with cmd := .cleanSharedResp }
  [.extractServiceableTargets response, .deallocate, .allocate 30 0 64 cleanRequest 32 3 true, .markInService false,
    .extractServiceableTargets response]

theorem maintenance_first_readBehindClean :
    ∃ final, tryActions perform ⟨.create, []⟩ (readBehindClean ++ cleanAgain) = some final ∧ Since Leads [] final ∧
      ∃ between, tryActions perform ⟨.create, []⟩ (readBehindClean ++ cleanAgain.take 1) = some between ∧
        Since Alone between.extracted final := by
  obtain ⟨final, ran⟩ : ∃ final, tryActions perform ⟨.create, []⟩ (readBehindClean ++ cleanAgain) = some final := ⟨_, rfl⟩
  obtain ⟨leads, alone⟩ := @maintenance_first [] _ ⟨.create, []⟩ final rfl rfl ran (by decide)
  exact ⟨final, ran, leads, _, rfl, alone (readBehindClean ++ cleanAgain.take 1) (cleanAgain.drop 1) _ rfl rfl
    (by decide) (by decide)⟩

/-- The clean request is not alone in the list that it leads. -/
theorem clean_before_read :
    ∃ final, tryActions perform ⟨.create, []⟩ readBehindClean = some final ∧
      ¬ Alone (kindsOf final.mshr.targets.list) :=
  ⟨_, rfl, by decide⟩

end MSHRRun

end Emas.Gem5

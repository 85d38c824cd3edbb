/-
**What the flags of a list of targets say.**

A list of targets keeps four flags beside it: whether some target needs a writable block, is an upgrade, asks for the fill
to be allocated, or comes from a cache. `TargetList.Reported` says that they do not fall short of what the targets in the
list set.

* The promotions move deferred targets to the others, and derive only the flags of the deferred ones again.
* The cache finds a register by its block, or asks it for its first target, before most of its calls. Both assert that
  there is a target.

**`MSHR.reported_iff`** — the flags never fall short, and no call takes the front of an empty list, in a run, if and only
if each promotion finds the flags of the targets that it moves set already, and `promoteWritable` a deferred target.
-/

import Emas.Gem5.MSHR
import Emas.Lib.PartialRun

namespace Emas.Gem5

/-! ### The flags of a list -/

variable {pkt : Packet}

namespace TargetList

variable {targets : TargetList}

/-- `needsWritable`, `hasUpgrade`, `allocOnFill` and `hasFromCache`. -/
def flags (targets : TargetList) : Bool × Bool × Bool × Bool :=
  (targets.needsWritable, targets.hasUpgrade, targets.allocOnFill, targets.hasFromCache)

/-- The flags that a target sets in `updateFlags`. -/
def raised (t : Target) : Bool × Bool × Bool × Bool :=
  (create.updateFlags t.pkt t.source t.allocOnFill).flags

/-- The flags of the list have all that its targets raise. -/
def Reported (targets : TargetList) : Prop := ∀ t ∈ targets.list, raised t ≤ targets.flags

/-- The invariant behind it: the targets are requests. -/
structure Flagged (targets : TargetList) : Prop where
  reported : targets.Reported
  requests : ∀ t ∈ targets.list, t.pkt.isRequest = true

@[simp] theorem flags_updateWriteFlags (targets : TargetList) (pkt : Packet) :
    (targets.updateWriteFlags pkt).flags = targets.flags := by
  unfold updateWriteFlags
  split <;> rfl

theorem flags_updateFlags (targets : TargetList) (pkt : Packet) (source : Source) (allocOnFill : Bool) :
    (targets.updateFlags pkt source allocOnFill).flags = targets.flags ⊔ match source with
      | .fromSnoop => ⊥
      | .fromPrefetcher => (pkt.needsWritable, pkt.isUpgrade || pkt.cmd = .storeCondReq, allocOnFill, false)
      | .fromCPU => (pkt.needsWritable, pkt.isUpgrade || pkt.cmd = .storeCondReq, allocOnFill, pkt.fromCache) := by
  cases source with
  | fromSnoop => exact (sup_bot_eq _).symm
  | fromPrefetcher => simp [updateFlags, flags, Bool.or_assoc]
  | fromCPU =>
    rw [updateFlags, if_neg (by decide), if_neg (by decide), flags_updateWriteFlags]
    simp [flags, Bool.or_assoc]

theorem raised_eq (t : Target) : raised t = match t.source with
    | .fromSnoop => ⊥
    | .fromPrefetcher => (t.pkt.needsWritable, t.pkt.isUpgrade || t.pkt.cmd = .storeCondReq, t.allocOnFill, false)
    | .fromCPU => (t.pkt.needsWritable, t.pkt.isUpgrade || t.pkt.cmd = .storeCondReq, t.allocOnFill, t.pkt.fromCache) := by
  have none : create.flags = ⊥ := rfl
  rw [raised, flags_updateFlags, none, bot_sup_eq]

theorem flags_updateFlags_raised (targets : TargetList) (t : Target) :
    (targets.updateFlags t.pkt t.source t.allocOnFill).flags = targets.flags ⊔ raised t := by
  rw [flags_updateFlags, raised_eq]

theorem raised_fst_le (t : Target) : (raised t).1 ≤ t.pkt.needsWritable := by
  rw [raised_eq]
  cases t.source with
  | fromSnoop => exact bot_le
  | fromPrefetcher => exact le_refl _
  | fromCPU => exact le_refl _

@[simp] theorem raised_clearPending (t : Target) : raised { t with markedPending := false } = raised t := rfl

theorem Flagged.of_nil (empty : targets.list = []) : targets.Flagged :=
  ⟨fun t member => by simp [empty] at member, fun t member => by simp [empty] at member⟩

theorem Flagged.populateFlags (requests : ∀ t ∈ targets.list, t.pkt.isRequest = true) : targets.populateFlags.Flagged := by
  refine ⟨fun t member => ?_, by rwa [populateFlags_list]⟩
  rw [populateFlags_list] at member
  suffices grows : ∀ (range : List Target) (start : TargetList), start.flags ≤
      (range.foldl (fun targets t => targets.updateFlags t.pkt t.source t.allocOnFill) start).flags ∧
      ∀ t ∈ range, raised t ≤
        (range.foldl (fun targets t => targets.updateFlags t.pkt t.source t.allocOnFill) start).flags from
    (grows targets.list targets.resetFlags).2 t member
  intro range
  induction range with
  | nil => exact fun start => ⟨le_refl _, fun _ => nofun⟩
  | cons first rest ih =>
    intro start
    obtain ⟨onward, behind⟩ := ih (start.updateFlags first.pkt first.source first.allocOnFill)
    have step := flags_updateFlags_raised start first
    refine ⟨le_trans (step ▸ le_sup_left) onward, List.forall_mem_cons.mpr ⟨le_trans (step ▸ le_sup_right) onward, behind⟩⟩

theorem Flagged.add (flagged : targets.Flagged) (request : pkt.isRequest = true) (curTick readyTime order : Nat)
    (source : Source) (markPending allocOnFill : Bool) :
    (targets.add curTick pkt readyTime order source markPending allocOnFill).Flagged := by
  have step := flags_updateFlags_raised targets
    ⟨curTick, readyTime, order, pkt, source, markPending && pkt.fromMshr, allocOnFill⟩
  have same : (targets.add curTick pkt readyTime order source markPending allocOnFill).flags =
      (targets.updateFlags pkt source allocOnFill).flags := rfl
  constructor
  · intro t member
    rw [same, step]
    rw [add_list, List.mem_append, List.mem_singleton] at member
    rcases member with old | rfl
    · exact le_sup_of_le_left (flagged.reported t old)
    · exact le_sup_right
  · intro t member
    rw [add_list, List.mem_append, List.mem_singleton] at member
    rcases member with old | rfl
    · exact flagged.requests t old
    · exact request

theorem Flagged.clearDownstreamPending (flagged : targets.Flagged) : targets.clearDownstreamPending.Flagged := by
  constructor
  · intro t member
    obtain ⟨old, held, rfl⟩ := List.mem_map.mp member
    exact flagged.reported old held
  · intro t member
    obtain ⟨old, held, rfl⟩ := List.mem_map.mp member
    exact flagged.requests old held

theorem isRequest_replaceUpgrade (request : pkt.isRequest = true) : (replaceUpgrade pkt).isRequest = true := by
  unfold replaceUpgrade
  split
  · rfl
  · rfl
  · rfl
  · exact request

theorem upgrade_replaceUpgrade (request : pkt.isRequest = true) :
    ((replaceUpgrade pkt).isUpgrade || (replaceUpgrade pkt).cmd = .storeCondReq) = false := by
  have upgrades (cmd : MemCmd) : cmd.test .isRequest = true → cmd.test .isUpgrade = true →
      cmd = .upgradeReq ∨ cmd = .scUpgradeReq := by
    cases cmd <;> decide
  unfold replaceUpgrade
  split
  · rfl
  · rfl
  · rfl
  · next exclusive conditional store =>
    rw [Bool.or_eq_false_iff, decide_eq_false_iff_not, Bool.eq_false_iff]
    exact ⟨fun upgrade => (upgrades pkt.cmd request upgrade).elim exclusive conditional, store⟩

theorem raised_replaceUpgrade {t : Target} (request : t.pkt.isRequest = true) :
    raised { t with pkt := replaceUpgrade t.pkt } ≤ ((raised t).1, false, (raised t).2.2) := by
  obtain ⟨recvTime, readyTime, order, pkt, source, markedPending, allocOnFill⟩ := t
  have writable : (replaceUpgrade pkt).needsWritable = pkt.needsWritable := by
    unfold replaceUpgrade
    split <;> simp_all [Packet.needsWritable] <;> decide
  have cached : (replaceUpgrade pkt).fromCache = pkt.fromCache := by
    unfold replaceUpgrade
    split <;> simp_all [Packet.fromCache] <;> decide
  rw [raised_eq, raised_eq]
  cases source with
  | fromSnoop => exact bot_le
  | fromPrefetcher => simp only [writable, upgrade_replaceUpgrade request, le_refl]
  | fromCPU => simp only [writable, upgrade_replaceUpgrade request, cached, le_refl]

theorem Flagged.replaceUpgrades (flagged : targets.Flagged) : targets.replaceUpgrades.Flagged := by
  by_cases upgrade : targets.hasUpgrade = true
  · rw [TargetList.replaceUpgrades, if_pos upgrade]
    constructor
    · intro t member
      obtain ⟨old, held, rfl⟩ := List.mem_map.mp member
      obtain ⟨writable, -, rest⟩ := flagged.reported old held
      exact (raised_replaceUpgrade (flagged.requests old held)).trans ⟨writable, le_refl _, rest⟩
    · intro t member
      obtain ⟨old, held, rfl⟩ := List.mem_map.mp member
      exact isRequest_replaceUpgrade (flagged.requests old held)
  · rwa [TargetList.replaceUpgrades, if_neg upgrade]

theorem Flagged.sublist (flagged : targets.Flagged) {list : List Target} (fewer : list.Sublist targets.list) :
    Flagged { targets with list := list } :=
  ⟨fun t member => flagged.reported t (fewer.subset member), fun t member => flagged.requests t (fewer.subset member)⟩

end TargetList

namespace MSHR

variable {mshr next : MSHR} {curTick : Nat}

/-! ### Calls -/

/-- The flags of both lists say enough. -/
structure Reported (mshr : MSHR) : Prop where
  targets : mshr.targets.Reported
  deferredTargets : mshr.deferredTargets.Reported

/-- The invariant behind it. -/
structure Flagged (mshr : MSHR) : Prop where
  targets : mshr.targets.Flagged
  deferredTargets : mshr.deferredTargets.Flagged

theorem Flagged.reported (flagged : mshr.Flagged) : mshr.Reported :=
  ⟨flagged.targets.reported, flagged.deferredTargets.reported⟩

theorem Flagged.allocate {blkAddr : Addr} {blkSize : Nat} {whenReady order : Nat} {allocOnFill : Bool}
    (free : mshr.getNumTargets = 0)
    (done : mshr.allocate curTick blkAddr blkSize pkt whenReady order allocOnFill = some next) : next.Flagged := by
  obtain ⟨noTargets, noDeferred⟩ : mshr.targets.list = [] ∧ mshr.deferredTargets.list = [] := by
    simpa [getNumTargets] using free
  unfold MSHR.allocate at done
  split at done
  · cases done
  next request =>
  dsimp only at done
  split at done
  · cases done
    have start : (mshr.targets.init blkAddr blkSize).Flagged := .of_nil noTargets
    exact ⟨start.add (not_not.mp request) .., .of_nil noDeferred⟩
  · cases done

theorem Flagged.allocateTarget (flagged : mshr.Flagged) {whenReady order : Nat} {allocOnFill : Bool}
    (done : mshr.allocateTarget curTick pkt whenReady order allocOnFill = some next) : next.Flagged := by
  unfold MSHR.allocateTarget at done
  split at done
  · cases done
  next fits =>
  have request : pkt.isRequest = true := not_not.mp fun other => fits (.inr other)
  split at done
  · cases done
  split at done
  · cases done
    refine ⟨flagged.targets, flagged.deferredTargets.add ?_ ..⟩
    split
    · exact TargetList.isRequest_replaceUpgrade request
    · exact request
  · cases done
    exact ⟨flagged.targets.add request .., flagged.deferredTargets⟩

theorem Flagged.recordSnoop (flagged : mshr.Flagged) (request : pkt.isRequest = true) (order : Nat) :
    (mshr.recordSnoop curTick pkt order).Flagged := by
  refine ⟨flagged.targets.add ?_ .., flagged.deferredTargets⟩
  split
  · exact request
  · exact request

theorem Flagged.handleSnoop (flagged : mshr.Flagged) {pkt answered : Packet} {order : Nat} {handled : Bool}
    (done : mshr.handleSnoop curTick pkt order = some (handled, answered, next)) : next.Flagged := by
  unfold MSHR.handleSnoop at done
  split at done
  · cases done
  next fits =>
  have request : pkt.isRequest = true := not_not.mp fun other => fits (.inl other)
  dsimp only at done
  split at done
  · cases done
    split
    · exact ⟨flagged.targets.replaceUpgrades, flagged.deferredTargets.replaceUpgrades⟩
    · exact flagged
  · generalize changed : (if (pkt.needsWritable || pkt.req.isCacheInvalidate) = true then
        { mshr with deferredTargets := mshr.deferredTargets.replaceUpgrades } else mshr) = middle at done
    have kept : middle.Flagged := by
      rw [← changed]
      split
      · exact ⟨flagged.targets, flagged.deferredTargets.replaceUpgrades⟩
      · exact flagged
    split at done
    · cases done
    split at done
    · cases done
      exact kept
    · obtain ⟨answer, -, done⟩ := Option.map_eq_some_iff.mp done
      have recorded : (if (middle.pendingModified || pkt.isInvalidate) = true then
          middle.recordSnoop curTick pkt order else middle).Flagged := by
        split
        · exact kept.recordSnoop request order
        · exact kept
      split at done
      · cases done
        exact ⟨recorded.targets, recorded.deferredTargets⟩
      · cases done
        exact recorded

theorem Flagged.extractServiceableTargets (flagged : mshr.Flagged) {ready : TargetList}
    (done : mshr.extractServiceableTargets pkt = some (ready, next)) : next.Flagged := by
  unfold MSHR.extractServiceableTargets at done
  dsimp only at done
  split at done
  · split at done
    · cases done
    next front rest held =>
    split at done
    · cases done
    · cases done
      refine ⟨.populateFlags fun t member => ?_, flagged.deferredTargets⟩
      exact flagged.targets.requests t (held ▸ List.mem_cons_of_mem _ (List.mem_of_mem_filter member))
  · cases done
    exact ⟨.populateFlags fun _ => nofun, flagged.deferredTargets⟩

theorem Flagged.promoteDeferredTargets (flagged : mshr.Flagged) {promoted : Bool}
    (done : mshr.promoteDeferredTargets curTick = some (promoted, next)) : next.Flagged := by
  unfold MSHR.promoteDeferredTargets at done
  split at done
  · cases done
    exact flagged
  dsimp only at done
  split at done
  · cases done
  · cases done
    refine ⟨.populateFlags fun t member => ?_, .populateFlags fun t member => ?_⟩
    · rcases List.mem_append.mp member with old | moved
      · exact flagged.targets.requests t old
      · exact flagged.deferredTargets.requests t (List.mem_of_mem_take moved)
    · exact flagged.deferredTargets.requests t (List.mem_of_mem_drop member)

/-! ### Promotions -/

/-- The flags of the targets, `needsWritable` apart, that a promotion has to find set already. -/
def Covers (mshr : MSHR) (promoted : List Target) : Prop :=
  ∀ t ∈ promoted, (TargetList.raised t).2 ≤ mshr.targets.flags.2

theorem promoteIf_spec {pred : Target → Bool} (done : mshr.promoteIf pred = some next) :
    next.targets.list = mshr.targets.list ++ TargetList.clearPending (mshr.deferredTargets.list.takeWhile pred) ∧
      next.targets.flags = mshr.targets.flags ∧ next.deferredTargets =
        { mshr.deferredTargets with list := mshr.deferredTargets.list.dropWhile pred }.populateFlags := by
  unfold promoteIf at done
  split at done
  · cases done
  obtain ⟨⟨promoted, others⟩, split, rfl⟩ := Option.map_eq_some_iff.mp done
  obtain ⟨rfl, rfl, -⟩ := splitPromoted_spec split
  exact ⟨rfl, rfl, rfl⟩

theorem Flagged.promoteIf (flagged : mshr.Flagged) {pred : Target → Bool} (done : mshr.promoteIf pred = some next) :
    (next.Reported ↔ ∀ t ∈ mshr.deferredTargets.list.takeWhile pred, TargetList.raised t ≤ mshr.targets.flags) ∧
      (next.Reported → next.Flagged) := by
  obtain ⟨list, flags, deferred⟩ := promoteIf_spec done
  have left : next.deferredTargets.Flagged := by
    rw [deferred]
    exact .populateFlags fun t member => flagged.deferredTargets.requests t (List.dropWhile_subset _ member)
  have requests (t : Target) (member : t ∈ next.targets.list) : t.pkt.isRequest = true := by
    rw [list] at member
    rcases List.mem_append.mp member with old | moved
    · exact flagged.targets.requests t old
    · obtain ⟨held, within, rfl⟩ := List.mem_map.mp moved
      exact flagged.deferredTargets.requests held (List.takeWhile_subset _ within)
  refine ⟨⟨fun reported t member => ?_, fun covered => ⟨fun t member => ?_, left.reported⟩⟩, fun reported => ?_⟩
  · have held : { t with markedPending := false } ∈ next.targets.list := by
      rw [list]
      exact List.mem_append_right _ (List.mem_map.mpr ⟨t, member, rfl⟩)
    have covered := reported.targets _ held
    rwa [flags] at covered
  · rw [flags]
    rw [list] at member
    rcases List.mem_append.mp member with old | moved
    · exact flagged.targets.reported t old
    · obtain ⟨held, within, rfl⟩ := List.mem_map.mp moved
      exact covered held within
  · exact ⟨⟨reported.targets, requests⟩, left⟩

theorem Flagged.promoteReadable (flagged : mshr.Flagged) (done : mshr.promoteReadable = some next) :
    (next.Reported ↔ mshr.Covers (mshr.movedTargets .promoteReadable)) ∧ (next.Reported → next.Flagged) := by
  have same (nothing : mshr.movedTargets .promoteReadable = []) :
      (mshr.Reported ↔ mshr.Covers (mshr.movedTargets .promoteReadable)) ∧ (mshr.Reported → mshr.Flagged) := by
    rw [nothing]
    exact ⟨⟨fun _ _ => nofun, fun _ => flagged.reported⟩, fun _ => flagged⟩
  unfold MSHR.promoteReadable at done
  split at done
  · next none =>
    cases done
    exact same (by simp [movedTargets, List.isEmpty_iff.mp none])
  split at done
  · cases done
  split at done
  · next invalidated =>
    cases done
    exact same (if_pos invalidated)
  next valid =>
  obtain ⟨reported, kept⟩ := flagged.promoteIf done
  refine ⟨reported.trans ?_, kept⟩
  rw [movedTargets, if_neg valid, Covers]
  refine forall₂_congr fun t member => ⟨fun covered => covered.2, fun covered => ⟨?_, covered⟩⟩
  -- a target that is readable needs no writable block
  have readable := List.mem_takeWhile_imp member
  rw [isReadable, Bool.and_eq_true, Bool.not_eq_true', Bool.not_eq_true'] at readable
  exact (TargetList.raised_fst_le t).trans (readable.2 ▸ Bool.false_le _)

theorem Flagged.promoteWritable (flagged : mshr.Flagged) (done : mshr.promoteWritable = some next) :
    (next.Reported ↔ mshr.Covers (mshr.movedTargets .promoteWritable)) ∧ (next.Reported → next.Flagged) := by
  have same (nothing : mshr.movedTargets .promoteWritable = []) :
      (mshr.Reported ↔ mshr.Covers (mshr.movedTargets .promoteWritable)) ∧ (mshr.Reported → mshr.Flagged) := by
    rw [nothing]
    exact ⟨⟨fun _ _ => nofun, fun _ => flagged.reported⟩, fun _ => flagged⟩
  unfold MSHR.promoteWritable at done
  split at done
  · next needed =>
    split at done
    · cases done
    split at done
    · next lost =>
      cases done
      exact same (if_neg (by rw [needed, lost]; decide))
    next valid =>
    split at done
    · cases done
    next front rest held =>
    split at done
    · next invalidates =>
      cases done
      refine same ?_
      rw [movedTargets, held, List.takeWhile_cons_of_neg (by simp [isWritable, invalidates]), ite_self]
    split at done
    · cases done
    · have asked : Flagged { mshr with targets := { mshr.targets with needsWritable := true } } := by
        refine ⟨⟨fun t member => ?_, flagged.targets.requests⟩, flagged.deferredTargets⟩
        exact ⟨Bool.le_true _, (flagged.targets.reported t member).2⟩
      obtain ⟨reported, kept⟩ := asked.promoteIf done
      refine ⟨reported.trans ?_, kept⟩
      rw [movedTargets, if_pos (by rw [needed, Bool.eq_false_iff.mpr valid]; rfl), Covers]
      exact forall₂_congr fun t member => ⟨fun covered => covered.2, fun covered => ⟨Bool.le_true _, covered⟩⟩
  · next unneeded =>
    cases done
    exact same (if_neg (by rw [Bool.eq_false_iff.mpr unneeded, Bool.false_and]; exact Bool.false_ne_true))

/-! ### Fronts -/

/-- A call, or that of the queue that drops the first target. -/
inductive Step where
  | own (action : Action)
  | popTarget
  deriving DecidableEq

/-- The cache finds the register by its block or asks it for its first target before the call, and asserts that there is
one. -/
def Step.onTarget : Step → Bool
  | .own (.allocateTarget ..) | .own (.handleSnoop ..) | .own (.extractServiceableTargets ..) | .own .promoteReadable
  | .own .promoteWritable | .popTarget => true
  | _ => false

/-- What a step leaves, where no assertion fails. -/
def act (mshr : MSHR) (step : Step) : Option MSHR :=
  if step.onTarget && !mshr.hasTargets then none
  else match step with
    | .own action => (MSHRRun.perform ⟨mshr, []⟩ action).map (·.mshr)
    | .popTarget => some mshr.popTarget

/-- The lists whose `front( )` or `*begin( )` is taken in a step. -/
def fronts (mshr : MSHR) (step : Step) : List (List Target) :=
  if step.onTarget && !mshr.hasTargets then []
  else match step with
    | .own (.allocate curTick blkAddr blkSize pkt whenReady order allocOnFill) =>
      [((mshr.targets.init blkAddr blkSize).add curTick pkt whenReady order (sourceOf pkt) true allocOnFill).list]
    | .own (.allocateTarget ..) => [mshr.targets.list]
    | .own (.handleSnoop _ pkt _) =>
      if !mshr.inService || (pkt.expressSnoop && mshr.downstreamPending) then [] else [mshr.targets.list]
    | .own (.extractServiceableTargets pkt) => if pkt.cmd = .readRespWithInvalidate then [mshr.targets.list] else []
    | .own (.promoteDeferredTargets _) =>
      if mshr.targets.list.isEmpty && mshr.deferredTargets.list.isEmpty then []
      else [mshr.targets.list ++ mshr.deferredTargets.list.take mshr.promotedCount]
    | .own .promoteWritable => [mshr.deferredTargets.list]
    | _ => []

/-- A promotion, where it has a result, finds the flags that matter set already. -/
def Settles (mshr : MSHR) (step : Step) : Prop :=
  ∀ action, step = .own action → (mshr.act step).isSome → mshr.Covers (mshr.movedTargets action)

/-- The condition on a step: this, and that `promoteWritable` finds a deferred target. -/
structure Meets (mshr : MSHR) (step : Step) : Prop where
  settles : mshr.Settles step
  deferred : step = .own .promoteWritable → mshr.hasTargets → mshr.deferredTargets.list ≠ []

theorem Flagged.act (flagged : mshr.Flagged) {step : Step} (done : mshr.act step = some next) :
    (next.Reported → ∀ action, step = .own action → mshr.Covers (mshr.movedTargets action)) ∧
      ((∀ action, step = .own action → mshr.Covers (mshr.movedTargets action)) → next.Flagged) := by
  -- what holds of a step that moves no targets
  have plain (kept : next.Flagged) (nothing : ∀ action, step = .own action → mshr.movedTargets action = []) :
      (next.Reported → ∀ action, step = .own action → mshr.Covers (mshr.movedTargets action)) ∧
        ((∀ action, step = .own action → mshr.Covers (mshr.movedTargets action)) → next.Flagged) :=
    ⟨fun _ action own => by rw [nothing action own]; exact fun _ => nofun, fun _ => kept⟩
  unfold MSHR.act at done
  split at done
  · cases done
  cases step with
  | popTarget =>
    cases done
    exact plain ⟨flagged.targets.sublist (List.tail_sublist _), flagged.deferredTargets⟩ fun _ => nofun
  | own action =>
    obtain ⟨run, performed, rfl⟩ := Option.map_eq_some_iff.mp done
    cases action with
    | allocate =>
      unfold MSHRRun.perform at performed
      dsimp only at performed
      split at performed
      · next free =>
        obtain ⟨after, allocated, rfl⟩ := Option.map_eq_some_iff.mp performed
        exact plain (Flagged.allocate free allocated) fun _ own => by cases own; rfl
      · cases performed
    | allocateTarget =>
      obtain ⟨after, added, rfl⟩ := Option.map_eq_some_iff.mp performed
      exact plain (flagged.allocateTarget added) fun _ own => by cases own; rfl
    | handleSnoop =>
      obtain ⟨⟨handled, answered, after⟩, snooped, rfl⟩ := Option.map_eq_some_iff.mp performed
      exact plain (flagged.handleSnoop snooped) fun _ own => by cases own; rfl
    | setForward =>
      cases performed
      exact plain ⟨flagged.targets, flagged.deferredTargets⟩ fun _ own => by cases own; rfl
    | markInService =>
      obtain ⟨after, marked, rfl⟩ := Option.map_eq_some_iff.mp performed
      refine plain ?_ fun _ own => by cases own; rfl
      unfold MSHR.markInService at marked
      split at marked
      · cases marked
      · cases marked
        refine ⟨?_, flagged.deferredTargets⟩
        dsimp only
        split
        · exact flagged.targets
        · exact flagged.targets.clearDownstreamPending
    | markPending =>
      unfold MSHRRun.perform at performed
      dsimp only at performed
      split at performed
      · cases performed
        exact plain ⟨flagged.targets, flagged.deferredTargets⟩ fun _ own => by cases own; rfl
      · cases performed
    | setDownstreamPending =>
      unfold MSHRRun.perform at performed
      dsimp only at performed
      split at performed
      · cases performed
      · cases performed
        exact plain ⟨flagged.targets, flagged.deferredTargets⟩ fun _ own => by cases own; rfl
    | clearDownstreamPending =>
      obtain ⟨after, cleared, rfl⟩ := Option.map_eq_some_iff.mp performed
      refine plain ?_ fun _ own => by cases own; rfl
      unfold MSHR.clearDownstreamPending at cleared
      split at cleared
      · cases cleared
        exact ⟨flagged.targets.clearDownstreamPending, flagged.deferredTargets⟩
      · cases cleared
    | extractServiceableTargets =>
      obtain ⟨⟨ready, after⟩, extracted, rfl⟩ := Option.map_eq_some_iff.mp performed
      exact plain (flagged.extractServiceableTargets extracted) fun _ own => by cases own; rfl
    | promoteReadable =>
      obtain ⟨after, promoted, rfl⟩ := Option.map_eq_some_iff.mp performed
      obtain ⟨reported, kept⟩ := flagged.promoteReadable promoted
      exact ⟨fun good action own => by cases own; exact reported.mp good, fun covers => kept (reported.mpr (covers _ rfl))⟩
    | promoteWritable =>
      obtain ⟨after, promoted, rfl⟩ := Option.map_eq_some_iff.mp performed
      obtain ⟨reported, kept⟩ := flagged.promoteWritable promoted
      exact ⟨fun good action own => by cases own; exact reported.mp good, fun covers => kept (reported.mpr (covers _ rfl))⟩
    | promoteDeferredTargets =>
      obtain ⟨⟨some, after⟩, promoted, rfl⟩ := Option.map_eq_some_iff.mp performed
      exact plain (flagged.promoteDeferredTargets promoted) fun _ own => by cases own; rfl
    | deallocate =>
      obtain ⟨after, freed, rfl⟩ := Option.map_eq_some_iff.mp performed
      refine plain ?_ fun _ own => by cases own; rfl
      unfold MSHR.deallocate at freed
      split at freed
      · next empty =>
        cases freed
        have none : mshr.targets.list = [] := List.isEmpty_iff.mp (Bool.and_eq_true_iff.mp empty).1
        exact ⟨.of_nil none, flagged.deferredTargets⟩
      · cases freed

theorem promoted_ne_nil (some : ¬ (mshr.targets.list.isEmpty && mshr.deferredTargets.list.isEmpty) = true) :
    mshr.targets.list ++ mshr.deferredTargets.list.take mshr.promotedCount ≠ [] := by
  intro none
  obtain ⟨noTargets, noneTaken⟩ := List.append_eq_nil_iff.mp none
  have deferred : mshr.deferredTargets.list ≠ [] := fun noDeferred => some (by rw [noTargets, noDeferred]; rfl)
  rcases List.take_eq_nil_iff.mp noneTaken with noCount | noDeferred
  · unfold promotedCount at noCount
    split at noCount
    · rw [noTargets] at noCount
      cases noCount
    · next before nonempty =>
      exact nonempty (List.length_eq_zero_iff.mp noCount)
  · exact deferred noDeferred

theorem fronts_iff (mshr : MSHR) (step : Step) :
    [] ∉ mshr.fronts step ↔ (step = .own .promoteWritable → mshr.hasTargets → mshr.deferredTargets.list ≠ []) := by
  unfold fronts
  split
  · next absent =>
    rw [Bool.and_eq_true, Bool.not_eq_true'] at absent
    exact ⟨fun _ _ has => (nomatch has.symm.trans absent.2), fun _ => List.not_mem_nil⟩
  next present =>
  have held (asked : step.onTarget = true) : mshr.targets.list ≠ [] := by
    rw [asked, Bool.true_and, Bool.not_eq_true', Bool.not_eq_false, hasTargets, Bool.not_eq_true',
      List.isEmpty_eq_false_iff] at present
    exact present
  have single {range : List Target} : [] ∉ [range] ↔ range ≠ [] := by
    rw [List.mem_singleton, eq_comm]
  have unaffected {ranges : List (List Target)} (other : step ≠ .own .promoteWritable) (fine : [] ∉ ranges) :
      [] ∉ ranges ↔ (step = .own .promoteWritable → mshr.hasTargets → mshr.deferredTargets.list ≠ []) :=
    ⟨fun _ same => absurd same other, fun _ => fine⟩
  split
  · exact unaffected nofun (single.mpr (by simp))
  · exact unaffected nofun (single.mpr (held rfl))
  · refine unaffected nofun ?_
    split
    · exact List.not_mem_nil
    · exact single.mpr (held rfl)
  · refine unaffected nofun ?_
    split
    · exact single.mpr (held rfl)
    · exact List.not_mem_nil
  · refine unaffected nofun ?_
    split
    · exact List.not_mem_nil
    · next some => exact single.mpr (promoted_ne_nil some)
  · rw [single]
    have has : mshr.hasTargets = true := by
      rw [hasTargets, Bool.not_eq_true', List.isEmpty_eq_false_iff]
      exact held rfl
    exact ⟨fun deferred _ _ => deferred, fun deferred => deferred rfl has⟩
  · next other =>
    exact unaffected other List.not_mem_nil

/-! ### Runs -/

/-- **The flags of both lists say enough, and no front of an empty list is taken, wherever a run stops, if and only if each
promotion finds the flags that matter set already, and `promoteWritable` a deferred target.** -/
theorem reported_iff (steps : List Step) :
    (∀ passed rest final, passed ++ rest = steps → tryActions act create passed = some final →
      final.Reported ∧ ∀ step ∈ rest.head?, [] ∉ final.fronts step) ↔ MeetAll act Meets create steps := by
  have start : create.Flagged := ⟨.of_nil rfl, .of_nil rfl⟩
  have flags : (∀ passed rest final, passed ++ rest = steps → tryActions act create passed = some final →
      final.Reported) ↔ MeetAll act Settles create steps :=
    MeetAll.iff_goal Flagged Reported (fun _ => Flagged.reported)
      (fun _ _ _ done flagged settles => (flagged.act done).2 fun action own => settles action own (done ▸ rfl))
      (fun _ _ _ done flagged reported action own _ => (flagged.act done).1 reported action own)
      (fun _ _ failed _ _ succeeds => by rw [failed] at succeeds; cases succeeds) start steps
  constructor
  · intro all
    refine MeetAll.imp (fun _ _ both => ⟨both.1, (fronts_iff ..).mp both.2⟩) (MeetAll.and
      (flags.mp fun passed rest final split run => (all passed rest final split run).1)
      (MeetAll.iff_next.mp fun passed rest final split run => (all passed rest final split run).2))
  · intro meets passed rest final split run
    exact ⟨flags.mpr (meets.imp fun _ _ both => both.settles) passed rest final split run,
      MeetAll.iff_next.mpr (meets.imp fun _ _ both => (fronts_iff ..).mpr both.deferred) passed rest final split run⟩

/-- A clean request with a read deferred behind it, whose response finds the block. -/
def cleanedRead : List Step :=
  let clean := Packet.ofRequest 1 (.make 0 64 Request.clean 0 0) .cleanSharedReq []
  let read := Packet.ofRequest 2 (.make 8 8 0 0 0) .readReq []
  [.own (.allocate 0 0 64 clean 0 0 false), .own (.allocateTarget 0 read 0 1 true), .own (.markInService false),
    .own .promoteReadable]

def servedRead : List Step :=
  [.own (.allocate 0 0 64 (.ofRequest 1 (.make 0 8 0 0 0) .readReq []) 0 0 true), .own (.markInService false)]

/-- **The flags can fall short, and the front of no deferred target be taken**: the promoted read asks for the fill to be
allocated, the flag of the targets does not say so; a response that comes with a writable block has `promoteWritable` look
at the first deferred target where there is none. -/
theorem promotion_underreports :
    (¬ ∀ final, tryActions act create cleanedRead = some final → final.Reported) ∧
      ¬ ∀ final, tryActions act create servedRead = some final → [] ∉ final.fronts (.own .promoteWritable) := by
  constructor
  · intro all
    have reported := all _ rfl
    exact absurd (reported.targets _ (List.mem_cons_of_mem _ (List.mem_singleton_self _))).2.2.1 (by decide)
  · intro all
    exact absurd (all _ rfl) (by decide)

end MSHR

end Emas.Gem5

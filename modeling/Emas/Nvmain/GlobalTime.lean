/-
**`GlobalEventQueue::Cycle` keeps all clocks and all events in step.**

`Synced` is the invariant between two calls: every queue is well-formed, no local clock is behind the
local time of the global clock, and none is past it except at the last event its queue dispatched. The
main path dispatches the queue with the least next global time, `Sync` the others up to the same time;
`Stage time` says that all dispatches of such a step are at one global time and that nothing pending is
lost. Since a multiplier is at least `1`, local order is global order (`globalTime_strictMono`), so the
next step is never earlier (`Ahead`).

* `cycle_synced` — **the whole call**: it returns, moves the global clock by exactly `steps`, dispatches
  everything due in non-decreasing global time, and leaves the clocks synced.
-/

import Emas.Nvmain.LoopTime
import Mathlib.Data.Rat.Floor
import Mathlib.Tactic.IntervalCases
import Mathlib.Tactic.Positivity

namespace Emas.Nvmain

/-! ### `GlobalEventQueue`: several event queues under one clock

Each subsystem has its own `EventQueue` and frequency; the global queue runs at a frequency at least as
high and keeps the subsystems in step. The source computes with `double`s, the model with rationals: a
cycle `when` of a queue is at the global time `floor( when * multiplier )`, and the global cycle `c` is at
the local time `floor( c / multiplier )`. `static_cast<ncycle_t>` of a value that does not fit is
undefined in the source and `none` in `toCycle`.

The queues are numbered in the iteration order of the `std::map`; `count` is its size. The recipients
of all subsystems share one state `σ`, and each acts on its own queue. `GlobalRun` records every
dispatch with the number of its queue.
-/

variable {Method Data σ : Type}

/-- `static_cast<ncycle_t>` of a non-negative value. -/
def toCycle (value : ℚ) : Option Nat := if ⌊value⌋₊ ≤ maxCycle then some ⌊value⌋₊ else none

/-- `class GlobalEventQueue`. -/
structure GlobalEventQueue (Method Data : Type) where
  currentCycle : Nat
  frequency : ℚ
  count : Nat
  eventQueues : Nat → EventQueue Method Data
  queueFrequency : Nat → ℚ

/-- A simulation of all subsystems. -/
structure GlobalRun (σ Method Data : Type) where
  state : σ
  global : GlobalEventQueue Method Data
  log : List (Nat × Dispatch σ Method Data)

/-- What can go wrong: a fault in one of the queues, a null `nextEventQueue`, or a conversion that does
not fit. -/
inductive GlobalFault where
  | queue (cause : Fault)
  | nullQueue
  | conversion
  deriving DecidableEq, Repr

namespace GlobalEventQueue

/-- `frequency / iter->second`. -/
def multiplier (global : GlobalEventQueue Method Data) (index : Nat) : ℚ :=
  global.frequency / global.queueFrequency index

/-- One iteration of `GetNextEvent`: keep the first queue with the least global time. -/
def nextOf (global : GlobalEventQueue Method Data) : List Nat → Nat × Option Nat → Option (Nat × Option Nat)
  | [], best => some best
  | index :: rest, best =>
    if (global.eventQueues index).nextEventCycle = maxCycle then global.nextOf rest best
    else
      match toCycle ((global.eventQueues index).nextEventCycle * global.multiplier index) with
      | none => none
      | some globalEventCycle =>
        global.nextOf rest (if globalEventCycle < best.1 then (globalEventCycle, some index) else best)

/-- `GetNextEvent( &eq )`: the global time of the next event and its queue. -/
def getNextEvent (global : GlobalEventQueue Method Data) : Option (Nat × Option Nat) :=
  global.nextOf (List.range global.count) (maxCycle, none)

end GlobalEventQueue

namespace GlobalRun

/-- The simulation after queue `index` ran. -/
def resume (run : GlobalRun σ Method Data) (index : Nat) (after : Run σ Method Data) : GlobalRun σ Method Data where
  state := after.state
  global := { run.global with
    eventQueues := Function.update run.global.eventQueues index after.queue }
  log := run.log ++ after.log.map fun record => (index, record)

/-- `SetCycle( c )`. -/
def setCycle (run : GlobalRun σ Method Data) (cycle : Nat) : GlobalRun σ Method Data :=
  { run with global := { run.global with currentCycle := cycle } }

end GlobalRun

section Cycle

variable (recipients : Nat → Recipients σ Method Data)

/-- `Loop( steps )` on queue `index`. -/
def loopQueue (fuel steps index : Nat) (run : GlobalRun σ Method Data) :
    Outcome GlobalFault (GlobalRun σ Method Data) :=
  (loop (recipients index) fuel steps ⟨run.state, run.global.eventQueues index, [], []⟩).map .queue (run.resume index)

/-- One iteration of `Sync( )`. -/
def syncQueue (fuel index : Nat) (run : GlobalRun σ Method Data) : Outcome GlobalFault (GlobalRun σ Method Data) :=
  match toCycle (run.global.currentCycle / run.global.multiplier index) with
  | none => .fault .conversion run
  | some setCycle =>
    let current := (run.global.eventQueues index).currentCycle
    if setCycle > current then loopQueue recipients fuel (subCycles setCycle current) index run
    else .done run

/-- `Sync( )` over some of the queues. -/
def syncFrom (fuel : Nat) : List Nat → GlobalRun σ Method Data → Outcome GlobalFault (GlobalRun σ Method Data)
  | [], run => .done run
  | index :: rest, run => (syncQueue recipients fuel index run).bind (syncFrom fuel rest)

/-- `Sync( )`. -/
def sync (fuel : Nat) (run : GlobalRun σ Method Data) : Outcome GlobalFault (GlobalRun σ Method Data) :=
  syncFrom recipients fuel (List.range run.global.count) run

/-- The `while` loop of `Cycle( steps )`. -/
def cycleWhile : Nat → Nat → Nat → GlobalRun σ Method Data → Outcome GlobalFault (GlobalRun σ Method Data)
  | 0, _, _, run => .outOfFuel run
  | fuel + 1, steps, iterationSteps, run =>
    if iterationSteps ≤ steps then
      match run.global.getNextEvent with
      | none => .fault .conversion run
      | some (nextEvent, nextEventQueue) =>
        let current := run.global.currentCycle
        let globalQueueSteps := if nextEvent > current then subCycles nextEvent current else 0
        if globalQueueSteps > subCycles steps iterationSteps then
          sync recipients fuel (run.setCycle (addCycles current (subCycles steps iterationSteps)))
        else
          match nextEventQueue with
          | none => .fault .nullQueue run
          | some index =>
            let queue := run.global.eventQueues index
            let localQueueSteps := subCycles queue.nextEventCycle queue.currentCycle
            ((loopQueue recipients fuel localQueueSteps index run).bind fun run =>
              sync recipients fuel (run.setCycle (addCycles current globalQueueSteps))).bind
                (cycleWhile fuel steps (addCycles iterationSteps globalQueueSteps))
    else .done run

/-- `Cycle( steps )`. -/
def globalCycle (fuel steps : Nat) (run : GlobalRun σ Method Data) : Outcome GlobalFault (GlobalRun σ Method Data) :=
  cycleWhile recipients fuel steps 0 run

end Cycle

/-! ### Local and global time -/

variable {global : GlobalEventQueue Method Data}

namespace GlobalEventQueue

/-- The global time of a cycle of queue `index`. -/
def globalTime (global : GlobalEventQueue Method Data) (index when : Nat) : Nat :=
  ⌊when * global.multiplier index⌋₊

/-- The cycle of queue `index` at a global time. -/
def localTime (global : GlobalEventQueue Method Data) (index cycle : Nat) : Nat :=
  ⌊cycle / global.multiplier index⌋₊

section Time

variable {global : GlobalEventQueue Method Data} {index : Nat}

theorem le_globalTime (faster : 1 ≤ global.multiplier index) (when : Nat) : when ≤ global.globalTime index when := by
  refine Nat.le_floor ?_
  have nonneg : (0 : ℚ) ≤ when := Nat.cast_nonneg when
  nlinarith

/-- **A later cycle has a later global time.** -/
theorem globalTime_strictMono (faster : 1 ≤ global.multiplier index) : StrictMono (global.globalTime index) := by
  intro when when' before
  have step : (when : ℚ) + 1 ≤ when' := by exact_mod_cast before
  have nonneg : (0 : ℚ) ≤ when := Nat.cast_nonneg when
  have floor : (global.globalTime index when : ℚ) ≤ when * global.multiplier index :=
    Nat.floor_le (by nlinarith)
  refine Nat.le_floor ?_
  rw [Nat.cast_succ]
  nlinarith

theorem le_localTime_iff (faster : 1 ≤ global.multiplier index) {when cycle : Nat} :
    when ≤ global.localTime index cycle ↔ (when : ℚ) * global.multiplier index ≤ cycle := by
  have positive : 0 < global.multiplier index := lt_of_lt_of_le one_pos faster
  rw [localTime, Nat.le_floor_iff (by positivity), le_div_iff₀ positive]

theorem globalTime_le_of_le_localTime (faster : 1 ≤ global.multiplier index) {when cycle : Nat}
    (reached : when ≤ global.localTime index cycle) : global.globalTime index when ≤ cycle :=
  Nat.floor_le_of_le ((le_localTime_iff faster).mp reached)

theorem localTime_mono (faster : 1 ≤ global.multiplier index) : Monotone (global.localTime index) := by
  intro cycle cycle' ordered
  rw [le_localTime_iff faster]
  exact le_trans ((le_localTime_iff faster).mp le_rfl) (by exact_mod_cast ordered)

theorem localTime_le (faster : 1 ≤ global.multiplier index) (cycle : Nat) : global.localTime index cycle ≤ cycle :=
  le_trans (le_globalTime faster _) (globalTime_le_of_le_localTime faster le_rfl)

theorem toCycle_eq {value : ℚ} (fits : ⌊value⌋₊ ≤ maxCycle) : toCycle value = some ⌊value⌋₊ :=
  if_pos fits

end Time

/-! ### The invariant -/

/-- What holds of every queue at any moment. -/
structure Sound (global : GlobalEventQueue Method Data) : Prop where
  faster : ∀ index < global.count, 1 ≤ global.multiplier index
  wf : ∀ index < global.count, (global.eventQueues index).WellFormed
  /-- Global times fit in a cycle. -/
  fits : ∀ index < global.count, ∀ when, ∀ event ∈ (global.eventQueues index).eventList when,
    global.globalTime index when ≤ maxCycle
  /-- No local clock is past the global one, but at the last event dispatched. -/
  high : ∀ index < global.count, (global.eventQueues index).currentCycle ≤
    max (global.localTime index global.currentCycle) (global.eventQueues index).lastEventCycle

/-- **The invariant between two calls of `Cycle`.** -/
structure Synced (global : GlobalEventQueue Method Data) : Prop extends global.Sound where
  low : ∀ index < global.count, global.localTime index global.currentCycle ≤ (global.eventQueues index).currentCycle

/-- Every next event is at the global time `time` or later. -/
def Ahead (global : GlobalEventQueue Method Data) (time : Nat) : Prop :=
  ∀ index < global.count, time ≤ global.globalTime index (global.eventQueues index).nextEventCycle

theorem Ahead.le {time index when : Nat}
    (ahead : global.Ahead time) (sound : global.Sound) (valid : index < global.count)
    {event : Event Method Data} (member : event ∈ (global.eventQueues index).eventList when) :
    time ≤ global.globalTime index when :=
  le_trans (ahead index valid) ((globalTime_strictMono (sound.faster index valid)).monotone
    ((sound.wf index valid).next.least when event member))

/-! ### GetNextEvent -/

/-- The least global time of the queues that were seen, and a queue that has it. -/
structure IsBest (global : GlobalEventQueue Method Data) (seen : Nat → Prop)
    (best : Nat × Option Nat) : Prop where
  least : ∀ index, seen index → best.1 ≤ global.globalTime index (global.eventQueues index).nextEventCycle
  queue : (best.2 = none ∧ best.1 = maxCycle) ∨ ∃ index < global.count, best.2 = some index ∧
    best.1 = global.globalTime index (global.eventQueues index).nextEventCycle

theorem nextOf_isBest (sound : global.Sound) : ∀ (indices : List Nat) (seen : Nat → Prop) (best : Nat × Option Nat),
      (∀ index ∈ indices, index < global.count) → global.IsBest seen best → best.1 ≤ maxCycle →
      ∃ result, global.nextOf indices best = some result ∧ result.1 ≤ maxCycle ∧
        global.IsBest (fun index => seen index ∨ index ∈ indices) result
  | [], seen, best, _, isBest, bounded =>
      ⟨best, rfl, bounded, fun index either => isBest.least index (by simpa using either), isBest.queue⟩
  | index :: rest, seen, best, valid, isBest, bounded => by
      have here := valid index (List.mem_cons_self ..)
      have later := fun other member => valid other (List.mem_cons_of_mem index member)
      have same : ∀ result, global.IsBest (fun other => (seen other ∨ other = index) ∨ other ∈ rest)
          result → global.IsBest (fun other => seen other ∨ other ∈ index :: rest) result :=
        fun result found => ⟨fun other either => found.least other (by
          simpa only [List.mem_cons, or_assoc] using either), found.queue⟩
      rw [nextOf]
      split_ifs with sentinel
      · have isBest' : global.IsBest (fun other => seen other ∨ other = index) best := by
          refine ⟨fun other either => ?_, isBest.queue⟩
          rcases either with old | rfl
          · exact isBest.least other old
          · rw [sentinel]
            exact le_trans bounded (le_globalTime (sound.faster other here) maxCycle)
        obtain ⟨result, found, below, final⟩ := nextOf_isBest sound rest _ best later isBest' bounded
        exact ⟨result, found, below, same result final⟩
      · obtain ⟨event, member⟩ := (sound.wf index here).next.attained.resolve_left sentinel
        have time : toCycle ((global.eventQueues index).nextEventCycle * global.multiplier index) =
            some (global.globalTime index (global.eventQueues index).nextEventCycle) :=
          toCycle_eq (sound.fits index here _ event member)
        rw [time]
        dsimp only
        split_ifs with less
        · have isBest' : global.IsBest (fun other => seen other ∨ other = index)
              (global.globalTime index (global.eventQueues index).nextEventCycle, some index) := by
            refine ⟨fun other either => ?_, Or.inr ⟨index, here, rfl, rfl⟩⟩
            rcases either with old | rfl
            · exact le_trans (le_of_lt less) (isBest.least other old)
            · exact le_rfl
          obtain ⟨result, found, below, final⟩ := nextOf_isBest sound rest _ _ later isBest'
            (le_trans (le_of_lt less) bounded)
          exact ⟨result, found, below, same result final⟩
        · have isBest' : global.IsBest (fun other => seen other ∨ other = index) best := by
            refine ⟨fun other either => ?_, isBest.queue⟩
            rcases either with old | rfl
            · exact isBest.least other old
            · exact not_lt.mp less
          obtain ⟨result, found, below, final⟩ := nextOf_isBest sound rest _ best later isBest' bounded
          exact ⟨result, found, below, same result final⟩

/-- **`GetNextEvent`** finds the least next global time, and a queue that has it. -/
theorem getNextEvent_spec (sound : global.Sound) :
    ∃ time queue, global.getNextEvent = some (time, queue) ∧ time ≤ maxCycle ∧ global.Ahead time ∧
      ((queue = none ∧ time = maxCycle) ∨ ∃ index < global.count, queue = some index ∧
        time = global.globalTime index (global.eventQueues index).nextEventCycle) := by
  obtain ⟨⟨time, queue⟩, found, bounded, best⟩ := nextOf_isBest sound (List.range global.count)
    (fun _ => False) (maxCycle, none) (fun index member => List.mem_range.mp member)
    ⟨fun _ none => none.elim, Or.inl ⟨rfl, rfl⟩⟩ le_rfl
  exact ⟨time, queue, found, bounded,
    fun index valid => best.least index (Or.inr (List.mem_range.mpr valid)), best.queue⟩

end GlobalEventQueue

/-! ### Stages -/

/-- From `before` to `after`, every dispatch is at a `permitted` global time, and nothing pending is
lost. -/
structure Stage (permitted : Nat → Prop) (before after : GlobalRun σ Method Data) : Prop where
  frequency : after.global.frequency = before.global.frequency
  count : after.global.count = before.global.count
  queueFrequency : after.global.queueFrequency = before.global.queueFrequency
  log : ∃ new, after.log = before.log ++ new ∧
    (∀ entry ∈ new, permitted (before.global.globalTime entry.1 entry.2.event.cycle) ∧
      entry.2.queue.currentCycle = entry.2.event.cycle) ∧
    ∀ index < before.global.count, ∀ when,
      ∀ event ∈ (before.global.eventQueues index).eventList when,
        event ∈ (after.global.eventQueues index).eventList when ∨ ∃ entry ∈ new, entry.1 = index ∧ entry.2.event = event
  next : ∀ index < before.global.count, (before.global.eventQueues index).nextEventCycle ≤
    (after.global.eventQueues index).nextEventCycle
  clock : ∀ index < before.global.count, (before.global.eventQueues index).currentCycle ≤
    (after.global.eventQueues index).currentCycle

namespace Stage

variable {permitted : Nat → Prop} {first second third : GlobalRun σ Method Data}

theorem multiplier (stage : Stage permitted first second) : second.global.multiplier = first.global.multiplier := by
  funext index
  rw [GlobalEventQueue.multiplier, GlobalEventQueue.multiplier, stage.frequency, stage.queueFrequency]

theorem globalTime (stage : Stage permitted first second) : second.global.globalTime = first.global.globalTime := by
  funext index when
  rw [GlobalEventQueue.globalTime, GlobalEventQueue.globalTime, stage.multiplier]

theorem localTime (stage : Stage permitted first second) : second.global.localTime = first.global.localTime := by
  funext index cycle
  rw [GlobalEventQueue.localTime, GlobalEventQueue.localTime, stage.multiplier]

theorem refl (run : GlobalRun σ Method Data) : Stage permitted run run where
  frequency := rfl
  count := rfl
  queueFrequency := rfl
  log := ⟨[], (List.append_nil _).symm, by simp, fun _ _ _ _ member => Or.inl member⟩
  next _ _ := le_rfl
  clock _ _ := le_rfl

theorem trans (one : Stage permitted first second) (two : Stage permitted second third) :
    Stage permitted first third where
  frequency := two.frequency.trans one.frequency
  count := two.count.trans one.count
  queueFrequency := two.queueFrequency.trans one.queueFrequency
  log := by
    obtain ⟨new, grown, times, pending⟩ := one.log
    obtain ⟨new', grown', times', pending'⟩ := two.log
    refine ⟨new ++ new', by rw [grown', grown, List.append_assoc], fun entry member => ?_,
      fun index valid when event member => ?_⟩
    · rcases List.mem_append.mp member with early | late
      · exact times entry early
      · rw [← one.globalTime]
        exact times' entry late
    · rcases pending index valid when event member with listed | ⟨entry, logged, found⟩
      · refine (pending' index (by rw [one.count]; exact valid) when event listed).imp_right ?_
        exact fun ⟨entry, logged, found⟩ => ⟨entry, List.mem_append_right _ logged, found⟩
      · exact Or.inr ⟨entry, List.mem_append_left _ logged, found⟩
  next index valid :=
    le_trans (one.next index valid) (two.next index (by rw [one.count]; exact valid))
  clock index valid :=
    le_trans (one.clock index valid) (two.clock index (by rw [one.count]; exact valid))

theorem setCycle (run : GlobalRun σ Method Data) (cycle : Nat) : Stage permitted run (run.setCycle cycle) where
  frequency := rfl
  count := rfl
  queueFrequency := rfl
  log := ⟨[], (List.append_nil _).symm, by simp, fun _ _ _ _ member => Or.inl member⟩
  next _ _ := le_rfl
  clock _ _ := le_rfl

theorem ahead (stage : Stage permitted first second) (sound : first.global.Sound) {bound : Nat}
    (ahead : first.global.Ahead bound) : second.global.Ahead bound := by
  intro index valid
  rw [stage.count] at valid
  rw [stage.globalTime]
  exact le_trans (ahead index valid) ((GlobalEventQueue.globalTime_strictMono
    (sound.faster index valid)).monotone (stage.next index valid))

end Stage

/-! ### Loop on one queue, and Sync -/

/-- The recipients only insert, at the current cycle or later and for global times that fit, and their
`Process` returns. -/
structure Behaved (behaviours : Nat → Behaviour σ Method Data)
    (global : GlobalEventQueue Method Data) : Prop where
  inserts : ∀ index < global.count, (behaviours index).InsertsAt fun cycle when =>
    cycle ≤ when ∧ global.globalTime index when ≤ maxCycle
  returns : ∀ index < global.count, ProcessReturns (behaviours index)

theorem Stage.behaved {permitted : Nat → Prop} {first second : GlobalRun σ Method Data}
    {behaviours : Nat → Behaviour σ Method Data} (stage : Stage permitted first second)
    (behaved : Behaved behaviours first.global) : Behaved behaviours second.global := by
  refine ⟨fun index valid => ?_, fun index valid => behaved.returns index (stage.count ▸ valid)⟩
  rw [stage.globalTime]
  exact behaved.inserts index (stage.count ▸ valid)

theorem Behaved.setCycle {behaviours : Nat → Behaviour σ Method Data}
    {run : GlobalRun σ Method Data} (behaved : Behaved behaviours run.global) (cycle : Nat) :
    Behaved behaviours (run.setCycle cycle).global :=
  ⟨behaved.inserts, behaved.returns⟩

theorem GlobalEventQueue.Sound.setCycle {run : GlobalRun σ Method Data} {cycle : Nat}
    (sound : run.global.Sound) (forward : run.global.currentCycle ≤ cycle) :
    (run.setCycle cycle).global.Sound where
  faster := sound.faster
  wf := sound.wf
  fits := sound.fits
  high index valid := le_trans (sound.high index valid) (max_le_max_right _
    (GlobalEventQueue.localTime_mono (sound.faster index valid) forward))

section Queue

variable {behaviours : Nat → Behaviour σ Method Data} {run : GlobalRun σ Method Data}
  {index steps time : Nat} {permitted : Nat → Prop}

theorem resume_self (after : Run σ Method Data) : (run.resume index after).global.eventQueues index = after.queue :=
  Function.update_self ..

theorem resume_other {other : Nat} (after : Run σ Method Data) (different : other ≠ index) :
    (run.resume index after).global.eventQueues other = run.global.eventQueues other :=
  Function.update_of_ne different ..

/-- **`Loop` on one queue** is a stage, when the cycles it may dispatch are permitted. -/
theorem loopQueue_spec (permitted : Nat → Prop) (behaved : Behaved behaviours run.global) (sound : run.global.Sound)
    (valid : index < run.global.count) (bounded : (run.global.eventQueues index).currentCycle + steps < maxCycle)
    (once : ∀ when, (run.global.eventQueues index).nextEventCycle ≤ when →
      when ≤ (run.global.eventQueues index).currentCycle + steps → permitted (run.global.globalTime index when)) :
    ∃ after, Outcome.Returns
        (loopQueue (fun index => (behaviours index).recipients) · steps index run)
        (run.resume index after) ∧
      Advanced (fun when => run.global.globalTime index when ≤ maxCycle)
        (run.global.eventQueues index) ((run.global.eventQueues index).currentCycle + steps) after ∧
      Stage permitted run (run.resume index after) := by
  obtain ⟨after, returned, advanced⟩ := loop_advanced (behaved.inserts index valid)
    (behaved.returns index valid) run.state (sound.wf index valid) (sound.fits index valid) bounded
  refine ⟨after, returned.map _ _, advanced, rfl, rfl, rfl, ⟨_, rfl, fun entry member => ?_,
    fun other valid' when event member => ?_⟩, fun other valid' => ?_, fun other valid' => ?_⟩
  · obtain ⟨record, logged, rfl⟩ := List.mem_map.mp member
    obtain ⟨onTime, first, last⟩ := advanced.onTime record logged
    exact ⟨once _ first (by rw [← advanced.clock]; exact last), onTime⟩
  · by_cases same : other = index
    · subst same
      rw [resume_self]
      refine (advanced.pending when event member).imp_right fun ⟨record, logged, found⟩ => ?_
      exact ⟨(other, record), List.mem_map_of_mem logged, rfl, found⟩
    · rw [resume_other after same]
      exact Or.inl member
  · by_cases same : other = index
    · subst same
      rw [resume_self]
      exact advanced.grows
    · rw [resume_other after same]
  · by_cases same : other = index
    · subst same
      rw [resume_self, advanced.clock]
      exact Nat.le_add_right ..
    · rw [resume_other after same]

variable {target : Nat}

theorem GlobalEventQueue.Sound.resume {after : Run σ Method Data} (sound : run.global.Sound)
    (advanced : Advanced (fun when => run.global.globalTime index when ≤ maxCycle)
      (run.global.eventQueues index) target after)
    (high : target ≤ max (run.global.localTime index run.global.currentCycle)
      after.queue.lastEventCycle) : (run.resume index after).global.Sound := by
  refine ⟨sound.faster, fun other valid => ?_, fun other valid when event member => ?_, fun other valid => ?_⟩
  · by_cases same : other = index
    · subst same
      rw [resume_self]
      exact advanced.wf
    · rw [resume_other after same]
      exact sound.wf other valid
  · by_cases same : other = index
    · subst same
      rw [resume_self] at member
      exact advanced.allowed when event member
    · rw [resume_other after same] at member
      exact sound.fits other valid when event member
  · by_cases same : other = index
    · subst same
      rw [resume_self, advanced.clock]
      exact high
    · rw [resume_other after same]
      exact sound.high other valid

/-- What `Sync` may dispatch in queue `index` is at permitted global times. -/
def SyncsAt (permitted : Nat → Prop) (global : GlobalEventQueue Method Data) (index : Nat) : Prop :=
  (global.eventQueues index).currentCycle < global.localTime index global.currentCycle →
    ∀ when, (global.eventQueues index).nextEventCycle ≤ when →
      when ≤ global.localTime index global.currentCycle → permitted (global.globalTime index when)

/-- **One queue of `Sync`.** -/
theorem syncQueue_spec (behaved : Behaved behaviours run.global) (sound : run.global.Sound)
    (valid : index < run.global.count) (bounded : run.global.currentCycle < maxCycle)
    (once : SyncsAt permitted run.global index) :
    ∃ after, Outcome.Returns (syncQueue (fun index => (behaviours index).recipients) · index run) after ∧
      Stage permitted run after ∧ after.global.Sound ∧
      after.global.currentCycle = run.global.currentCycle ∧
      run.global.localTime index run.global.currentCycle ≤ (after.global.eventQueues index).currentCycle := by
  have faster := sound.faster index valid
  have reached := GlobalEventQueue.localTime_le faster run.global.currentCycle
  have converted : toCycle (run.global.currentCycle / run.global.multiplier index) =
      some (run.global.localTime index run.global.currentCycle) :=
    GlobalEventQueue.toCycle_eq (le_trans reached (le_of_lt bounded))
  unfold syncQueue
  simp only [converted]
  by_cases behind : (run.global.eventQueues index).currentCycle < run.global.localTime index run.global.currentCycle
  · have total : (run.global.eventQueues index).currentCycle +
        (run.global.localTime index run.global.currentCycle - (run.global.eventQueues index).currentCycle) =
        run.global.localTime index run.global.currentCycle := by omega
    have room : (run.global.eventQueues index).currentCycle +
        (run.global.localTime index run.global.currentCycle -
          (run.global.eventQueues index).currentCycle) < maxCycle := by omega
    simp only [gt_iff_lt, behind, if_true, subCycles_eq (le_of_lt behind) (by omega)]
    obtain ⟨after, returned, advanced, stage⟩ := loopQueue_spec permitted behaved sound valid
      room (fun when first last => once behind when first (by rw [← total]; exact last))
    rw [total] at advanced
    refine ⟨_, returned, stage, sound.resume advanced (le_max_left ..), rfl, ?_⟩
    rw [resume_self, advanced.clock]
  · simp only [gt_iff_lt, behind, if_false]
    exact ⟨run, .pure run, .refl run, sound, rfl, not_lt.mp behind⟩

theorem Stage.syncsAt {after : GlobalRun σ Method Data} {other : Nat} (stage : Stage permitted run after)
    (clock : after.global.currentCycle = run.global.currentCycle)
    (valid : other < run.global.count) (once : SyncsAt permitted run.global other) :
    SyncsAt permitted after.global other := by
  unfold SyncsAt at once ⊢
  rw [stage.localTime, stage.globalTime, clock]
  intro behind when first last
  exact once (lt_of_le_of_lt (stage.clock other valid) behind) when (le_trans (stage.next other valid) first) last

/-- **`Sync`** brings every queue up to the global clock. -/
theorem syncFrom_spec (indices : List Nat) :
    ∀ {run : GlobalRun σ Method Data}, Behaved behaviours run.global → run.global.Sound →
      (∀ index ∈ indices, index < run.global.count) → run.global.currentCycle < maxCycle →
      (∀ index ∈ indices, SyncsAt permitted run.global index) → ∃ after, Outcome.Returns
          (syncFrom (fun index => (behaviours index).recipients) · indices run) after ∧
        Stage permitted run after ∧ after.global.Sound ∧
        after.global.currentCycle = run.global.currentCycle ∧
        ∀ index ∈ indices, run.global.localTime index run.global.currentCycle ≤
          (after.global.eventQueues index).currentCycle := by
  induction indices with
  | nil => exact fun {run} _ sound _ _ _ => ⟨run, .pure run, .refl run, sound, rfl, by simp⟩
  | cons index rest ih =>
    intro run behaved sound valid bounded once
    obtain ⟨middle, returned, stage, sound', clock, low⟩ := syncQueue_spec behaved sound
      (valid index (List.mem_cons_self ..)) bounded (once index (List.mem_cons_self ..))
    obtain ⟨after, returned', stage', sound'', clock', low'⟩ := ih (stage.behaved behaved) sound'
      (fun other member => by rw [stage.count]; exact valid other (List.mem_cons_of_mem _ member))
      (by rw [clock]; exact bounded)
      (fun other member => stage.syncsAt clock (valid other (List.mem_cons_of_mem _ member))
        (once other (List.mem_cons_of_mem _ member)))
    refine ⟨after, returned.bind returned', stage.trans stage', sound'', clock'.trans clock, fun other member => ?_⟩
    rcases List.mem_cons.mp member with rfl | later
    · exact le_trans low (stage'.clock other (by rw [stage.count]; exact valid other member))
    · rw [← stage.localTime, ← clock]
      exact low' other later

theorem sync_spec (behaved : Behaved behaviours run.global) (sound : run.global.Sound)
    (bounded : run.global.currentCycle < maxCycle)
    (once : ∀ index < run.global.count, SyncsAt permitted run.global index) :
    ∃ after, Outcome.Returns (sync (fun index => (behaviours index).recipients) · run) after ∧
      Stage permitted run after ∧ after.global.Synced ∧
      after.global.currentCycle = run.global.currentCycle := by
  obtain ⟨after, returned, stage, sound', clock, low⟩ := syncFrom_spec (List.range run.global.count)
    behaved sound (fun index member => List.mem_range.mp member) bounded
    fun index member => once index (List.mem_range.mp member)
  refine ⟨after, returned, stage, ⟨sound', fun index valid => ?_⟩, clock⟩
  rw [stage.localTime, clock]
  exact low index (List.mem_range.mpr (stage.count ▸ valid))

/-! ### One iteration of Cycle -/

/-- **The last iteration**: no event up to `target`, only clocks move. -/
theorem cycle_last {target bound : Nat} (behaved : Behaved behaviours run.global)
    (synced : run.global.Synced) (forward : run.global.currentCycle ≤ target)
    (bounded : target < maxCycle) (ahead : run.global.Ahead bound) (late : target < bound) :
    ∃ after, Outcome.Returns (sync (fun index => (behaviours index).recipients) · (run.setCycle target)) after ∧
      Stage (fun _ => False) run after ∧ after.global.Synced ∧ after.global.currentCycle = target := by
  have once : ∀ index < (run.setCycle target).global.count,
      SyncsAt (fun _ => False) (run.setCycle target).global index := by
    intro index valid _ when first last
    have faster := synced.faster index valid
    have reached : run.global.globalTime index when ≤ target :=
      GlobalEventQueue.globalTime_le_of_le_localTime faster last
    have beyond := le_trans (ahead index valid) ((GlobalEventQueue.globalTime_strictMono faster).monotone first)
    omega
  obtain ⟨after, returned, stage, synced', clock⟩ :=
    sync_spec (behaved.setCycle target) (synced.toSound.setCycle forward) bounded once
  exact ⟨after, returned, (Stage.setCycle run target).trans stage, synced', clock⟩

/-- **An iteration with an event**: its queue dispatches it, and `Sync` the others, all at one global
time. The next event of that queue moves on. -/
theorem cycle_step (behaved : Behaved behaviours run.global) (synced : run.global.Synced)
    (ahead : run.global.Ahead time) (valid : index < run.global.count)
    (least : time = run.global.globalTime index (run.global.eventQueues index).nextEventCycle)
    (bounded : time < maxCycle) (current : run.global.currentCycle < maxCycle) :
    ∃ after, Outcome.Returns (fun fuel =>
        (loopQueue (fun index => (behaviours index).recipients) fuel
          (subCycles (run.global.eventQueues index).nextEventCycle
            (run.global.eventQueues index).currentCycle) index run).bind fun middle =>
              sync (fun index => (behaviours index).recipients) fuel
                (middle.setCycle (max run.global.currentCycle time))) after ∧
      Stage (· = time) run after ∧ after.global.Synced ∧
      after.global.currentCycle = max run.global.currentCycle time ∧
      (run.global.eventQueues index).nextEventCycle < (after.global.eventQueues index).nextEventCycle := by
  have faster := synced.faster index valid
  have wf := synced.wf index valid
  have early := GlobalEventQueue.le_globalTime faster (run.global.eventQueues index).nextEventCycle
  have before := wf.current_le_next
  have target : (run.global.eventQueues index).currentCycle +
      ((run.global.eventQueues index).nextEventCycle - (run.global.eventQueues index).currentCycle) =
      (run.global.eventQueues index).nextEventCycle := by omega
  have room : (run.global.eventQueues index).currentCycle +
      ((run.global.eventQueues index).nextEventCycle -
        (run.global.eventQueues index).currentCycle) < maxCycle := by omega
  have once : ∀ when, (run.global.eventQueues index).nextEventCycle ≤ when →
      when ≤ (run.global.eventQueues index).currentCycle +
        ((run.global.eventQueues index).nextEventCycle - (run.global.eventQueues index).currentCycle) →
      run.global.globalTime index when = time := by
    intro when first last
    rw [least, show when = (run.global.eventQueues index).nextEventCycle by omega]
  obtain ⟨middle, looped, advanced, stage⟩ :=
    loopQueue_spec (· = time) behaved synced.toSound valid room once
  rw [target] at advanced
  have sound' : (run.resume index middle).global.Sound :=
    synced.toSound.resume advanced (le_trans (advanced.last le_rfl).1 (le_max_right ..))
  have syncs : ∀ other < run.global.count, SyncsAt (· = time)
      ((run.resume index middle).setCycle (max run.global.currentCycle time)).global other := by
    intro other valid' behind when first last
    have faster' := synced.faster other valid'
    have clock := le_trans (synced.low other valid') (stage.clock other valid')
    have past : run.global.currentCycle < time := by
      by_contra early
      rw [max_eq_left (not_lt.mp early)] at behind
      exact absurd behind (not_lt.mpr clock)
    rw [max_eq_right (le_of_lt past)] at last
    have reached : run.global.globalTime other when ≤ time :=
      GlobalEventQueue.globalTime_le_of_le_localTime faster' last
    have beyond := le_trans (ahead other valid')
      ((GlobalEventQueue.globalTime_strictMono faster').monotone (le_trans (stage.next other valid') first))
    exact le_antisymm reached beyond
  obtain ⟨after, returned, stage', synced', clock⟩ := sync_spec
    ((stage.behaved behaved).setCycle (max run.global.currentCycle time))
    (sound'.setCycle (le_max_left run.global.currentCycle time)) (max_lt current bounded) syncs
  refine ⟨after, ?_, (stage.trans (Stage.setCycle _ _)).trans stage', synced', clock, ?_⟩
  · rw [subCycles_eq before (by omega)]
    exact looped.bind returned
  · refine lt_of_lt_of_le ?_ (stage'.next index valid)
    show _ < ((run.resume index middle).global.eventQueues index).nextEventCycle
    rw [resume_self]
    exact advanced.later

/-! ### Cycle -/

/-- The global time of a dispatch. -/
def GlobalEventQueue.timeOf (global : GlobalEventQueue Method Data) (entry : Nat × Dispatch σ Method Data) : Nat :=
  global.globalTime entry.1 entry.2.event.cycle

/-- **What a call of `Cycle` that moves the global clock to `target` does.** -/
structure Cycled (target : Nat) (before after : GlobalRun σ Method Data) : Prop where
  clock : after.global.currentCycle = target
  synced : after.global.Synced
  /-- Nothing that is due is left. -/
  settled : ∀ index < after.global.count, ∀ when,
    ∀ event ∈ (after.global.eventQueues index).eventList when, target < after.global.globalTime index when
  /-- Dispatches are in non-decreasing global time, each at the local cycle of its event, and every
  event that was due is among them. -/
  log : ∃ new, after.log = before.log ++ new ∧
    (new.Pairwise fun first second =>
      before.global.timeOf first ≤ before.global.timeOf second) ∧
    (∀ entry ∈ new, before.global.timeOf entry ≤ target ∧ entry.2.queue.currentCycle = entry.2.event.cycle) ∧
    ∀ index < before.global.count, ∀ when,
      ∀ event ∈ (before.global.eventQueues index).eventList when,
        before.global.globalTime index when ≤ target → ∃ entry ∈ new, entry.1 = index ∧ entry.2.event = event

/-- The same with what the induction needs: dispatches are not before what is ahead. -/
structure CycledFrom (target : Nat) (before after : GlobalRun σ Method Data) : Prop where
  clock : after.global.currentCycle = target
  synced : after.global.Synced
  ahead : after.global.Ahead (target + 1)
  count : after.global.count = before.global.count
  globalTime : after.global.globalTime = before.global.globalTime
  log : ∃ new, after.log = before.log ++ new ∧
    (new.Pairwise fun first second =>
      before.global.timeOf first ≤ before.global.timeOf second) ∧
    (∀ entry ∈ new, before.global.timeOf entry ≤ target ∧ entry.2.queue.currentCycle = entry.2.event.cycle) ∧
    (∀ bound, before.global.Ahead bound → ∀ entry ∈ new, bound ≤ before.global.timeOf entry) ∧
    ∀ index < before.global.count, ∀ when,
      ∀ event ∈ (before.global.eventQueues index).eventList when,
        event ∈ (after.global.eventQueues index).eventList when ∨ ∃ entry ∈ new, entry.1 = index ∧ entry.2.event = event

theorem CycledFrom.cycled {before after : GlobalRun σ Method Data}
    (cycled : CycledFrom target before after) : Cycled target before after := by
  have settled : ∀ index < after.global.count, ∀ when,
      ∀ event ∈ (after.global.eventQueues index).eventList when,
        target < after.global.globalTime index when := fun index valid when event member =>
    cycled.ahead.le cycled.synced.toSound valid member
  obtain ⟨new, grown, sorted, times, _, pending⟩ := cycled.log
  refine ⟨cycled.clock, cycled.synced, settled, new, grown, sorted, times, fun index valid when event member due => ?_⟩
  rcases pending index valid when event member with listed | found
  · have later := settled index (by rw [cycled.count]; exact valid) when event listed
    rw [cycled.globalTime] at later
    omega
  · exact found

theorem CycledFrom.of_stage {after : GlobalRun σ Method Data}
    (stage : Stage (fun _ => False) run after) (sound : run.global.Sound)
    (synced : after.global.Synced) (clock : after.global.currentCycle = target)
    (ahead : run.global.Ahead (target + 1)) : CycledFrom target run after := by
  obtain ⟨new, grown, times, pending⟩ := stage.log
  have none : new = [] := List.eq_nil_iff_forall_not_mem.mpr fun entry member => (times entry member).1
  subst none
  exact ⟨clock, synced, stage.ahead sound ahead, stage.count, stage.globalTime, [], grown, by simp,
    by simp, by simp, pending⟩

theorem CycledFrom.cons {middle after : GlobalRun σ Method Data}
    (stage : Stage (· = time) run middle) (sound : run.global.Sound) (ahead : run.global.Ahead time)
    (least : ∃ index < run.global.count, time =
      run.global.globalTime index (run.global.eventQueues index).nextEventCycle)
    (due : time ≤ target) (rest : CycledFrom target middle after) : CycledFrom target run after := by
  obtain ⟨new, grown, times, pending⟩ := stage.log
  obtain ⟨new', grown', sorted', times', lower', pending'⟩ := rest.log
  have timeOf : middle.global.timeOf = (run.global.timeOf : Nat × Dispatch σ Method Data → Nat) := by
    funext entry
    rw [GlobalEventQueue.timeOf, GlobalEventQueue.timeOf, stage.globalTime]
  rw [timeOf] at sorted' times' lower'
  have later := lower' time (stage.ahead sound ahead)
  refine ⟨rest.clock, rest.synced, rest.ahead, rest.count.trans stage.count,
    rest.globalTime.trans stage.globalTime, new ++ new',
    by rw [grown', grown, List.append_assoc], ?_, ?_, ?_, ?_⟩
  · refine List.pairwise_append.mpr ⟨?_, sorted', fun first early second late => ?_⟩
    · refine List.pairwise_of_forall_mem_list fun first early second late => ?_
      exact le_of_eq ((times first early).1.trans (times second late).1.symm)
    · rw [show run.global.timeOf first = time from (times first early).1]
      exact later second late
  · intro entry member
    rcases List.mem_append.mp member with early | late
    · exact ⟨by rw [show run.global.timeOf entry = time from (times entry early).1]; exact due,
        (times entry early).2⟩
    · exact times' entry late
  · intro bound aheadBound entry member
    rcases List.mem_append.mp member with early | late
    · obtain ⟨index, valid, attained⟩ := least
      rw [show run.global.timeOf entry = time from (times entry early).1, attained]
      exact aheadBound index valid
    · exact lower' bound (stage.ahead sound aheadBound) entry late
  · intro index valid when event member
    rcases pending index valid when event member with listed | ⟨entry, logged, found⟩
    · refine (pending' index (by rw [stage.count]; exact valid) when event listed).imp_right ?_
      exact fun ⟨entry, logged, found⟩ => ⟨entry, List.mem_append_right _ logged, found⟩
    · exact Or.inr ⟨entry, List.mem_append_left _ logged, found⟩

end Queue

/-- The cycles up to `target` that may still have events. -/
def GlobalEventQueue.work (global : GlobalEventQueue Method Data) (target : Nat) : Nat :=
  ∑ index ∈ Finset.range global.count, (target + 1 - (global.eventQueues index).nextEventCycle)

theorem Stage.work_lt {permitted : Nat → Prop} {before after : GlobalRun σ Method Data}
    {index target : Nat} (stage : Stage permitted before after) (valid : index < before.global.count)
    (due : (before.global.eventQueues index).nextEventCycle ≤ target)
    (moved : (before.global.eventQueues index).nextEventCycle < (after.global.eventQueues index).nextEventCycle) :
    after.global.work target < before.global.work target := by
  unfold GlobalEventQueue.work
  rw [stage.count]
  refine Finset.sum_lt_sum (fun other member => ?_) ⟨index, Finset.mem_range.mpr valid, by omega⟩
  have := stage.next other (Finset.mem_range.mp member)
  omega

section Cycle

variable {behaviours : Nat → Behaviour σ Method Data}

/-- **The `while` loop of `Cycle`**, by induction on the work that is left. -/
theorem cycleWhile_cycled {steps target : Nat} (small : steps ≤ target) (bounded : target < maxCycle) :
    ∀ (work iterationSteps : Nat) (run : GlobalRun σ Method Data),
      run.global.work target = work → Behaved behaviours run.global → run.global.Synced →
      iterationSteps ≤ steps → run.global.currentCycle + (steps - iterationSteps) = target →
      ∃ after, Outcome.Returns (cycleWhile (fun index => (behaviours index).recipients) · steps
          iterationSteps run) after ∧ CycledFrom target run after := by
  intro work
  induction work using Nat.strong_induction_on with
  | _ work ih =>
    intro iterationSteps run measure behaved synced within total
    obtain ⟨time, queue, found, fits, ahead, attained⟩ :=
      GlobalEventQueue.getNextEvent_spec synced.toSound
    have left := subCycles_eq within (show steps ≤ maxCycle by omega)
    by_cases due : time ≤ target
    · obtain ⟨rfl, _⟩ | ⟨index, valid, rfl, least⟩ := attained
      · omega
      have globalSteps : (if time > run.global.currentCycle then
          subCycles time run.global.currentCycle else 0) = time - run.global.currentCycle := by
        split_ifs with past
        · exact subCycles_eq (le_of_lt past) fits
        · omega
      have clock : addCycles run.global.currentCycle (time - run.global.currentCycle)
          = max run.global.currentCycle time := by
        rw [addCycles_eq (by omega)]
        omega
      have iteration : addCycles iterationSteps (time - run.global.currentCycle)
          = iterationSteps + (time - run.global.currentCycle) := addCycles_eq (by omega)
      obtain ⟨middle, returned, stage, synced', clock', moved⟩ :=
        cycle_step behaved synced ahead valid least (by omega) (by omega)
      have early := GlobalEventQueue.le_globalTime (synced.faster index valid)
        (run.global.eventQueues index).nextEventCycle
      obtain ⟨after, returned', cycled⟩ := ih _
        (by rw [← measure]; exact stage.work_lt valid (by omega) moved)
        (iterationSteps + (time - run.global.currentCycle)) middle rfl (stage.behaved behaved)
        synced' (by omega) (by rw [clock']; omega)
      refine ⟨after, ?_, cycled.cons stage synced.toSound ahead ⟨index, valid, least⟩ due⟩
      refine Outcome.Returns.succ (fun fuel => ?_) (returned.bind returned')
      rw [cycleWhile, if_pos within, found]
      dsimp only
      rw [left, globalSteps, if_neg (by omega), clock, iteration]
    · have globalSteps : (if time > run.global.currentCycle then
          subCycles time run.global.currentCycle else 0) = time - run.global.currentCycle := by
        rw [if_pos (by omega)]
        exact subCycles_eq (by omega) fits
      obtain ⟨after, returned, stage, synced', clock⟩ :=
        cycle_last behaved synced (show run.global.currentCycle ≤ target by omega) bounded ahead (by omega)
      refine ⟨after, ?_, CycledFrom.of_stage stage synced.toSound synced' clock
        fun index valid => le_trans (by omega) (ahead index valid)⟩
      refine Outcome.Returns.succ (fun fuel => ?_) returned
      rw [cycleWhile, if_pos within, found]
      dsimp only
      rw [left, globalSteps, if_pos (by omega), addCycles_eq (by omega), total]

/-- **`Cycle( steps )`.** For any queues with multipliers of at least `1` whose clocks are in step, any
pending events, and recipients that only insert, for global times that fit, and whose `Process`
returns: as long as the global clock stays below the sentinel, `Cycle( steps )` returns, moves it by
exactly `steps`, dispatches every pending event whose global time is reached, in non-decreasing global
time, and leaves the clocks in step. -/
theorem cycle_synced (behaviours : Nat → Behaviour σ Method Data) (run : GlobalRun σ Method Data)
    (steps : Nat) (behaved : Behaved behaviours run.global) (synced : run.global.Synced)
    (bounded : run.global.currentCycle + steps < maxCycle) :
    ∃ final, Outcome.Returns (globalCycle (fun index => (behaviours index).recipients) · steps run) final ∧
      Cycled (run.global.currentCycle + steps) run final := by
  obtain ⟨final, returned, cycled⟩ := cycleWhile_cycled (Nat.le_add_left ..) bounded _ 0 run rfl
    behaved synced (Nat.zero_le steps) (by omega)
  exact ⟨final, returned, cycled.cycled⟩

end Cycle

/-! ### Where a simulation starts, and where it does not return -/

/-- **At cycle `0`, with any events inserted, the clocks are in step.** -/
theorem synced_start (now : global.currentCycle = 0)
    (faster : ∀ index < global.count, 1 ≤ global.multiplier index) (queues : ∀ index < global.count, ∃ ops,
      global.eventQueues index = EventQueue.create.applyOps ops ∧
        ∀ op ∈ ops, ∃ event when priority, op.insertion = some (event, when, priority) ∧
          global.globalTime index when ≤ maxCycle) : global.Synced := by
  have clock : ∀ index < global.count, (global.eventQueues index).currentCycle = 0 := by
    intro index valid
    obtain ⟨ops, built, _⟩ := queues index valid
    rw [built, EventQueue.applyOps_currentCycle]
    rfl
  have start : ∀ index < global.count, global.localTime index global.currentCycle = 0 := by
    intro index valid
    have := GlobalEventQueue.localTime_le (faster index valid) global.currentCycle
    omega
  refine ⟨⟨faster, fun index valid => ?_, fun index valid => ?_, fun index valid => ?_⟩, fun index valid => ?_⟩
  · obtain ⟨ops, built, inserts⟩ := queues index valid
    rw [built]
    refine EventQueue.applyOps_wellFormed EventQueue.create_wellFormed ?_
    intro op member event when priority inserted
    obtain ⟨event', when', priority', inserted', fits⟩ := inserts op member
    rw [inserted'] at inserted
    cases inserted
    exact ⟨Nat.zero_le _, le_trans (GlobalEventQueue.le_globalTime (faster index valid) _) fits⟩
  · obtain ⟨ops, built, inserts⟩ := queues index valid
    rw [built]
    exact applyOps_allowed inserts (by simp [EventQueue.create, EventQueue.eventList])
  · rw [clock index valid]
    exact Nat.zero_le _
  · rw [start index valid]
    exact Nat.zero_le _

/-- Two queues, at two thirds of the global frequency and at the global frequency, with a callback at
cycle `3`, resp. `4`. -/
def twoQueues : GlobalRun Unit Unit Unit where
  state := ()
  global :=
    { currentCycle := 0
      frequency := 3
      count := 2
      eventQueues := fun index => EventQueue.create.applyOps [.insertCallback 0 () (if index = 0 then 3 else 4) none 0]
      queueFrequency := fun index => if index = 0 then 2 else 3 }
  log := []

theorem twoQueues_synced : twoQueues.global.Synced := by
  refine synced_start rfl (fun index valid => ?_) fun index valid => ⟨_, rfl, fun op member => ?_⟩
  · have valid : index < 2 := valid
    interval_cases index <;> norm_num [GlobalEventQueue.multiplier, twoQueues]
  · have valid : index < 2 := valid
    rw [List.mem_singleton.mp member]
    refine ⟨_, _, _, rfl, Nat.floor_le_of_le ?_⟩
    interval_cases index <;> norm_num [GlobalEventQueue.multiplier, twoQueues, maxCycle]

/-- Both events are dispatched, each in its queue, at global time `4`. -/
theorem cycle_synced_twoQueues :
    ∃ final, Outcome.Returns
        (globalCycle (fun _ => (silent : Behaviour Unit Unit Unit).recipients) · 10 twoQueues) final ∧
      Cycled 10 twoQueues final :=
  cycle_synced (fun _ => silent) twoQueues 10
    ⟨fun _ _ => silent_insertsAt _, fun _ _ => Behaviour.InsertsLater.processReturns (silent_insertsAt _)⟩
    twoQueues_synced (by decide)

def oneQueue (cycle : Nat) (queue : EventQueue Unit Unit) : GlobalRun Unit Unit Unit where
  state := ()
  global :=
    { currentCycle := cycle
      frequency := 1
      count := 1
      eventQueues := fun _ => queue
      queueFrequency := fun _ => 1 }
  log := []

/-- **`Cycle` is not total.** A recipient that only inserts, at the current cycle, keeps it from
returning; and stepping an idle simulation to cycle `2^64 - 1` dereferences a null queue. -/
theorem cycle_not_total :
    ((repeating 0).OnlyInserts ∧ ∀ fuel final,
      globalCycle (fun _ => (repeating 0).recipients) fuel 10 (oneQueue 0 callbackAtFive.queue) ≠ .done final) ∧
      ∃ final, globalCycle (fun _ => (repeating 3).recipients) 1 1
        (oneQueue (maxCycle - 1) emptyBeforeSentinel.queue) = .fault .nullQueue final := by
  refine ⟨⟨repeating_insertsAt fun _ => le_rfl, fun fuel final finished => ?_⟩, ⟨_, rfl⟩⟩
  cases fuel with
  | zero => cases finished
  | succ fuel =>
    have time : toCycle ((5 : ℕ) * (oneQueue 0 callbackAtFive.queue).global.multiplier 0) = some 5 := by
      norm_num [GlobalEventQueue.multiplier, oneQueue, toCycle, maxCycle]
    have next : (oneQueue 0 callbackAtFive.queue).global.getNextEvent = some (5, some 0) := by
      show (match toCycle ((5 : ℕ) * (oneQueue 0 callbackAtFive.queue).global.multiplier 0) with
        | none => none
        | some globalEventCycle => _) = _
      rw [time]
      rfl
    rw [globalCycle, cycleWhile, if_pos (by decide), next] at finished
    obtain ⟨middle, reached, _⟩ := Outcome.bind_eq_done finished
    obtain ⟨queueRun, looped, _⟩ := Outcome.bind_eq_done reached
    obtain ⟨stopped, outcome⟩ := Outcome.map_eq_done looped
    exact loop_repeating_zero (by decide) (by decide) fuel stopped outcome

end Emas.Nvmain

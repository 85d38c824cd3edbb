/-
**Invariant rules for `Process` and `Loop`.**

A property of `Process` is proved through the list of events its iterator still has to visit:
`processFrom_rule` asks for an invariant of that list and of the run, kept by one dispatch, and gives
it at the end of the loop, together with the absence of faults. What a single dispatch does to the
list is `Running.applyOps`: operations that do not remove the dispatched event leave its node in
place, keep what waits behind it, and add only events with fresh ids.

`LoopInvariant.loop` lifts an invariant of whole `Process` calls to `Loop( steps )`, and says where the clock
stands afterwards: exactly `steps` further on, with no event left at or before it.
-/

import Emas.Nvmain.EventInvariant

namespace Emas.Nvmain

variable {Method Data σ : Type}

/-! ### The iterator while a recipient runs -/

/-- The iterator of `Process` is on `event` in the list of the current cycle, with `rest` behind. -/
structure Running (cycle : Nat) (event : Event Method Data) (rest : List (Event Method Data))
    (queue : EventQueue Method Data) : Prop where
  wf : queue.WellFormed
  now : queue.currentCycle = cycle
  listed : event ∈ queue.eventList cycle
  here : rest? event.id (queue.eventList cycle) = some rest

/-- An event the iterator has still to come to: behind it, or in the list of another cycle. -/
def Waiting (queue : EventQueue Method Data) (cycle : Nat) (todo : List (Event Method Data))
    (event : Event Method Data) : Prop :=
  event ∈ todo ∨ ∃ when, when ≠ cycle ∧ event ∈ queue.eventList when

namespace Running

variable {cycle : Nat} {event : Event Method Data} {rest : List (Event Method Data)}
  {queue : EventQueue Method Data}

theorem mem_of_rest (running : Running cycle event rest queue) {other : Event Method Data}
    (member : other ∈ rest) : other ∈ queue.eventList cycle := by
  rw [upTo_append_of_rest? running.here]
  exact List.mem_append_right _ member

variable {when : Nat} {rest' : List (Event Method Data)}

theorem waiting_of_insertEvent {new other : Event Method Data} {priority : Int}
    (behind : ∀ later ∈ rest', later ∈ rest ∨ later = queue.stored new when)
    (waiting : Waiting (queue.insertEvent new when priority) cycle rest' other) :
    Waiting queue cycle rest other ∨ other = queue.stored new when := by
  rcases waiting with member | ⟨query, different, member⟩
  · exact (behind other member).imp_left Or.inl
  · rcases EventQueue.mem_eventList_insertEvent.mp member with ⟨_, same⟩ | old
    · exact Or.inr same
    · exact Or.inl (Or.inr ⟨query, different, old⟩)

theorem waiting_insertEvent {new other : Event Method Data} {priority : Int} (behind : ∀ later ∈ rest, later ∈ rest')
    (waiting : Waiting queue cycle rest other) : Waiting (queue.insertEvent new when priority) cycle rest' other := by
  rcases waiting with member | ⟨query, different, member⟩
  · exact Or.inl (behind other member)
  · exact Or.inr ⟨query, different, EventQueue.mem_eventList_insertEvent.mpr (Or.inr member)⟩

/-- **An insertion beside the iterator.** Nothing moves across the iterator, and only the new event
is added to what waits. -/
theorem insertEvent (running : Running cycle event rest queue) (new : Event Method Data)
    (priority : Int) (future : queue.currentCycle ≤ when) (bounded : when ≤ maxCycle) :
    ∃ rest', Running cycle event rest' (queue.insertEvent new when priority) ∧ (∀ later ∈ rest, later ∈ rest') ∧
      (∀ later ∈ rest', later ∈ rest ∨ later = queue.stored new when) := by
  have wf : (queue.insertEvent new when priority).WellFormed :=
    EventQueue.insertEvent_wellFormed running.wf future bounded
  have listed : event ∈ (queue.insertEvent new when priority).eventList cycle :=
    EventQueue.mem_eventList_insertEvent.mpr (Or.inr running.listed)
  have fresh : (queue.stored new when).id ≠ event.id :=
    Nat.ne_of_gt (running.wf.drawn cycle event running.listed)
  have list := queue.eventList_insertEvent new when cycle priority
  by_cases same : cycle = when
  · rw [if_pos same, ← same] at list
    by_cases behind : ∀ earlier ∈ upTo event.id (queue.eventList cycle), earlier.priority ≤ priority
    · have here := (rest?_insertByPriority_of_le (same ▸ fresh) running.here behind).1
      refine ⟨_, ⟨wf, running.now, listed, by rw [← same, list]; exact here⟩, ?_, ?_⟩
      · exact fun later member => mem_insertByPriority.mpr (Or.inr member)
      · exact fun later member => (mem_insertByPriority.mp member).symm.imp_right (same ▸ ·)
    · push Not at behind
      have here := rest?_insertByPriority_of_lt (same ▸ fresh) running.here behind
      exact ⟨rest, ⟨wf, running.now, listed, by rw [← same, list]; exact here⟩,
        fun later member => member, fun later member => Or.inl member⟩
  · rw [if_neg same] at list
    exact ⟨rest, ⟨wf, running.now, listed, by rw [list]; exact running.here⟩,
      fun later member => member, fun later member => Or.inl member⟩

/-- **An insertion behind the iterator**: when no event up to the iterator has a greater priority,
the new event waits, and the visited part of the list does not change. -/
theorem insertEvent_behind (running : Running cycle event rest queue) (new : Event Method Data)
    {priority : Int} (behind : when = cycle → ∀ earlier ∈ upTo event.id (queue.eventList cycle),
      earlier.priority ≤ priority)
    (running' : Running cycle event rest' (queue.insertEvent new when priority)) :
    Waiting (queue.insertEvent new when priority) cycle rest' (queue.stored new when) ∧
      upTo event.id ((queue.insertEvent new when priority).eventList cycle)
        = upTo event.id (queue.eventList cycle) := by
  have fresh : (queue.stored new when).id ≠ event.id :=
    Nat.ne_of_gt (running.wf.drawn cycle event running.listed)
  have list := queue.eventList_insertEvent new when cycle priority
  have here' := running'.here
  by_cases same : cycle = when
  · rw [if_pos same, ← same] at list
    obtain ⟨here, before⟩ :=
      rest?_insertByPriority_of_le (same ▸ fresh) running.here (behind same.symm)
    rw [← same, list, here] at here'
    rw [← same, list]
    refine ⟨Or.inl ?_, before⟩
    rw [← Option.some.inj here']
    exact mem_insertByPriority.mpr (Or.inl rfl)
  · rw [if_neg same] at list
    refine ⟨Or.inr ⟨when, Ne.symm same, ?_⟩, by rw [list]⟩
    exact EventQueue.mem_eventList_insertEvent.mpr (Or.inl ⟨rfl, rfl⟩)

/-- **A removal beside the iterator**: any event but the running one goes, and nothing moves. -/
theorem removeEvent (running : Running cycle event rest queue) {id : Nat} (when : Nat) (other : id ≠ event.id) :
    ∃ rest', Running cycle event rest' (queue.removeEvent id when).1 ∧ (∀ later ∈ rest', later ∈ rest) ∧
      (∀ later ∈ rest, later.id ≠ id → later ∈ rest') ∧
      (∀ earlier ∈ upTo event.id ((queue.removeEvent id when).1.eventList cycle),
        earlier ∈ upTo event.id (queue.eventList cycle)) := by
  have wf : (queue.removeEvent id when).1.WellFormed := EventQueue.removeEvent_wellFormed running.wf
  have now : (queue.removeEvent id when).1.currentCycle = cycle := by
    rw [EventQueue.removeEvent_currentCycle, running.now]
  have listed : event ∈ (queue.removeEvent id when).1.eventList cycle :=
    EventQueue.mem_removeEvent_of_ne running.listed (Ne.symm other)
  have list := queue.eventList_removeEvent id when cycle
  by_cases same : cycle = when
  · rw [if_pos same, ← same] at list
    obtain ⟨here, before⟩ := rest?_eraseP other (running.wf.distinct cycle) running.here
    rw [← same] at wf now listed ⊢
    refine ⟨_, ⟨wf, now, listed, by rw [list]; exact here⟩, ?_, ?_, by rw [list]; exact before⟩
    · exact fun later member => List.mem_of_mem_eraseP member
    · exact fun later member different =>
        (List.mem_eraseP_of_neg (by simpa using different)).mpr member
  · rw [if_neg same] at list
    exact ⟨rest, ⟨wf, now, listed, by rw [list]; exact running.here⟩, fun later member => member,
      fun later member _ => member, fun earlier member => by rwa [list] at member⟩

/-- **One operation beside the iterator**, in the future and not on the running event itself. -/
theorem apply (running : Running cycle event rest queue) {op : QueueOp Method Data}
    (timely : queue.TimelyOp op) (keeps : ∀ when, op ≠ .remove event.id when) :
    ∃ rest', Running cycle event rest' (op.apply queue) ∧ (∀ other, Waiting (op.apply queue) cycle rest' other →
        Waiting queue cycle rest other ∨ queue.nextId ≤ other.id) ∧ (∀ other, Waiting queue cycle rest other →
        Waiting (op.apply queue) cycle rest' other ∨ ∃ when, op = .remove other.id when) ∧
      queue.nextId ≤ (op.apply queue).nextId := by
  cases inserts : op.insertion with
  | some insertion =>
    obtain ⟨new, when, priority⟩ := insertion
    obtain ⟨future, bounded⟩ := timely new when priority inserts
    rw [EventQueue.apply_of_insertion inserts]
    obtain ⟨rest', running', kept, origin⟩ := running.insertEvent new priority future bounded
    refine ⟨rest', running', fun other waiting => ?_,
      fun other waiting => Or.inl (waiting_insertEvent kept waiting), Nat.le_succ _⟩
    rcases waiting_of_insertEvent origin waiting with old | rfl
    · exact Or.inl old
    · exact Or.inr le_rfl
  | none =>
    cases op with
    | insert _ _ _ | insertFor _ _ _ _ _ _ | insertCallback _ _ _ _ _ => cases inserts
    | remove id when =>
      have other : id ≠ event.id := fun same => keeps when (by rw [same])
      obtain ⟨rest', running', origin, kept, _⟩ := running.removeEvent when other
      refine ⟨rest', running', ?_, ?_, (EventQueue.removeEvent_nextId queue id when).ge⟩
      · rintro later (member | ⟨query, different, member⟩)
        · exact Or.inl (Or.inl (origin later member))
        · exact Or.inl (Or.inr ⟨query, different, EventQueue.mem_of_mem_removeEvent member⟩)
      · intro later waiting
        by_cases gone : later.id = id
        · exact Or.inr ⟨when, by rw [gone]⟩
        · rcases waiting with member | ⟨query, different, member⟩
          · exact Or.inl (Or.inl (kept later member gone))
          · exact Or.inl (Or.inr ⟨query, different, EventQueue.mem_removeEvent_of_ne member gone⟩)

/-- **Any operations beside the iterator.** What waited still waits unless it was removed; what waits
waited before or is new. -/
theorem applyOps (running : Running cycle event rest queue) {ops : List (QueueOp Method Data)}
    (timely : ∀ op ∈ ops, queue.TimelyOp op) (keeps : ∀ op ∈ ops, ∀ when, op ≠ .remove event.id when) :
    ∃ rest', Running cycle event rest' (queue.applyOps ops) ∧ (∀ other, Waiting (queue.applyOps ops) cycle rest' other →
        Waiting queue cycle rest other ∨ queue.nextId ≤ other.id) ∧ (∀ other, Waiting queue cycle rest other →
        Waiting (queue.applyOps ops) cycle rest' other ∨ ∃ when, .remove other.id when ∈ ops) ∧
      queue.nextId ≤ (queue.applyOps ops).nextId := by
  induction ops generalizing queue rest with
  | nil => exact ⟨rest, running, fun _ => Or.inl, fun _ => Or.inl, le_rfl⟩
  | cons op tail ih =>
    obtain ⟨middle, runningMiddle, originMiddle, keptMiddle, growsMiddle⟩ :=
      running.apply (timely op (List.mem_cons_self ..)) (keeps op (List.mem_cons_self ..))
    obtain ⟨rest', running', origin, kept, grows⟩ := ih runningMiddle
      (fun later member => (timely later (List.mem_cons_of_mem _ member)).apply op)
      (fun later member => keeps later (List.mem_cons_of_mem _ member))
    refine ⟨rest', running', fun other waiting => ?_, fun other waiting => ?_, le_trans growsMiddle grows⟩
    · rcases origin other waiting with old | new
      · exact originMiddle other old
      · exact Or.inr (le_trans growsMiddle new)
    · rcases keptMiddle other waiting with still | ⟨when, removed⟩
      · rcases kept other still with later | ⟨when, removed⟩
        · exact Or.inl later
        · exact Or.inr ⟨when, List.mem_cons_of_mem _ removed⟩
      · exact Or.inr ⟨when, by rw [← removed]; exact List.mem_cons_self ..⟩

end Running

/-! ### The loop of Process -/

/-- The operations a dispatch performs. -/
def Dispatch.ops (behaviour : Behaviour σ Method Data) (record : Dispatch σ Method Data) : List (QueueOp Method Data) :=
  match callOf record.queue record.event with
  | none => []
  | some call => (behaviour record.event.recipient call record.state record.queue).2

/-- A dispatch that inserts no event in the past and does not remove the event it is for. -/
structure Dispatch.Regular (behaviour : Behaviour σ Method Data)
    (record : Dispatch σ Method Data) : Prop where
  timely : ∀ op ∈ record.ops behaviour, record.queue.TimelyOp op
  keeps : ∀ op ∈ record.ops behaviour, ∀ when, op ≠ .remove record.event.id when

/-- The event an operation removes. -/
def QueueOp.removal : QueueOp Method Data → Option Nat
  | .remove id _ => some id
  | _ => none

instance (behaviour : Behaviour σ Method Data) (record : Dispatch σ Method Data) :
    Decidable (record.Regular behaviour) :=
  decidable_of_iff
    ((∀ op ∈ record.ops behaviour, record.queue.TimelyOp op) ∧
      ∀ op ∈ record.ops behaviour, op.removal ≠ some record.event.id)
    ⟨fun both => ⟨both.1, fun op member when same => both.2 op member (by rw [same]; rfl)⟩,
      fun regular => ⟨regular.timely, fun op member removes => by
        cases op with
        | remove id when => exact regular.keeps _ member when (by rw [Option.some.inj removes])
        | insert _ _ _ | insertFor _ _ _ _ _ _ | insertCallback _ _ _ _ _ => cases removes⟩⟩

def dispatchedIds (log : List (Dispatch σ Method Data)) : List Nat := log.map (·.event.id)

/-- The entry of the log for a dispatch. -/
def Run.record (run : Run σ Method Data) (event : Event Method Data) : Dispatch σ Method Data :=
  ⟨event, run.state, run.queue⟩

theorem dispatch_queue (behaviour : Behaviour σ Method Data) (event : Event Method Data) (run : Run σ Method Data) :
    (dispatch behaviour.recipients event run).queue = run.queue.applyOps ((run.record event).ops behaviour) := by
  unfold dispatch Dispatch.ops Run.record
  cases callOf run.queue event <;> rfl

@[simp] theorem dispatch_log (recipients : Recipients σ Method Data) (event : Event Method Data)
    (run : Run σ Method Data) : (dispatch recipients event run).log = run.log ++ [run.record event] := rfl

theorem processFrom_log (recipients : Recipients σ Method Data) (cycle fuel : Nat)
    (here : Option (Event Method Data)) (run : Run σ Method Data) :
    run.log <+: (processFrom recipients cycle fuel here run).run.log := by
  induction fuel generalizing here run with
  | zero => cases here <;> exact List.prefix_refl _
  | succ fuel ih =>
    cases here with
    | none => exact List.prefix_refl _
    | some event =>
      have grown : run.log <+: (dispatch recipients event run).log := List.prefix_append _ _
      rw [processFrom]
      cases rest? event.id ((dispatch recipients event run).queue.eventList cycle) with
      | none => exact grown
      | some rest => exact grown.trans (ih _ _)

/-- **The rule of the `for` loop.** `invariant todo run` holds when the iterator is in front of
`todo`; one dispatch keeps it. Then the loop runs into no fault, the invariant holds whenever it is
interrupted, and at the end it holds with nothing left to visit. -/
theorem processFrom_rule (recipients : Recipients σ Method Data) (cycle : Nat) (good : Dispatch σ Method Data → Prop)
    (invariant : List (Event Method Data) → Run σ Method Data → Prop)
    (step : ∀ event rest run, invariant (event :: rest) run → good (run.record event) →
      ∃ rest', rest? event.id ((dispatch recipients event run).queue.eventList cycle) = some rest' ∧
        invariant rest' (dispatch recipients event run))
    (fuel : Nat) (todo : List (Event Method Data)) (run : Run σ Method Data) (start : invariant todo run)
    (all : ∀ record ∈ (processFrom recipients cycle fuel todo.head? run).run.log, good record) :
    (processFrom recipients cycle fuel todo.head? run).Meets (invariant []) fun run => ∃ todo, invariant todo run := by
  induction fuel generalizing todo run with
  | zero =>
    cases todo with
    | nil => exact start
    | cons event rest => exact ⟨event :: rest, start⟩
  | succ fuel ih =>
    cases todo with
    | nil => exact start
    | cons event rest =>
      have logged : run.record event ∈ (processFrom recipients cycle (fuel + 1) (event :: rest).head? run).run.log := by
        rw [List.head?_cons, processFrom]
        cases rest? event.id ((dispatch recipients event run).queue.eventList cycle) with
        | none => simp [Outcome.run]
        | some rest' => exact (processFrom_log ..).subset (by simp)
      obtain ⟨rest', here, next⟩ := step event rest run start (all _ logged)
      rw [List.head?_cons, processFrom, here] at all ⊢
      exact ih rest' _ next all

/-! ### Process -/

/-- The iterator is in front of `todo` in the list of the current cycle. -/
structure Iterating (cycle : Nat) (todo : List (Event Method Data))
    (queue : EventQueue Method Data) : Prop where
  wf : queue.WellFormed
  now : queue.currentCycle = cycle
  next : queue.nextEventCycle = cycle
  split : ∃ front, queue.eventList cycle = front ++ todo

variable {cycle : Nat} {event : Event Method Data} {rest : List (Event Method Data)} {queue : EventQueue Method Data}

theorem Running.next (running : Running cycle event rest queue) : queue.nextEventCycle = cycle := by
  have below := running.wf.next.least cycle event running.listed
  rcases running.wf.next.attained with sentinel | ⟨first, member⟩
  · have := (running.wf.timely cycle event running.listed).2
    omega
  · have := (running.wf.timely _ first member).1
    have := running.now
    omega

theorem Running.iterating (running : Running cycle event rest queue) : Iterating cycle rest queue :=
  ⟨running.wf, running.now, running.next, _, upTo_append_of_rest? running.here⟩

theorem Iterating.running (iterating : Iterating cycle (event :: rest) queue) : Running cycle event rest queue := by
  obtain ⟨front, split⟩ := iterating.split
  have listed : event ∈ queue.eventList cycle := by
    rw [split]
    simp
  have distinct := iterating.wf.distinct cycle
  rw [split, List.map_append, List.nodup_append] at distinct
  refine ⟨iterating.wf, iterating.now, listed, ?_⟩
  rw [split]
  exact rest?_of_split fun other member =>
    distinct.2.2 other.id (List.mem_map_of_mem member) event.id (by simp)

variable {run : Run σ Method Data} {behaviour : Behaviour σ Method Data}

/-- **One dispatch.** The iterator moves on to what is behind the event after its recipient ran. -/
theorem Iterating.dispatch (iterating : Iterating cycle (event :: rest) run.queue)
    (regular : (run.record event).Regular behaviour) :
    ∃ rest', Running cycle event rest' (dispatch behaviour.recipients event run).queue ∧
      (∀ other, Waiting (Nvmain.dispatch behaviour.recipients event run).queue cycle rest' other →
        Waiting run.queue cycle rest other ∨ run.queue.nextId ≤ other.id) ∧
      (∀ other, Waiting run.queue cycle rest other →
        Waiting (Nvmain.dispatch behaviour.recipients event run).queue cycle rest' other ∨
          ∃ when, .remove other.id when ∈ (run.record event).ops behaviour) ∧
      run.queue.nextId ≤ (Nvmain.dispatch behaviour.recipients event run).queue.nextId := by
  rw [dispatch_queue]
  exact iterating.running.applyOps regular.timely regular.keeps

theorem Iterating.eventList_finishCycle {todo : List (Event Method Data)}
    (iterating : Iterating cycle todo run.queue) (query : Nat) : (finishCycle run).queue.eventList query =
      if query = cycle then [] else run.queue.eventList query := by
  unfold EventQueue.eventList finishCycle
  simp only [iterating.next, SortedMap.find?_erase]
  split_ifs <;> rfl

theorem Iterating.mem_finishCycle {todo : List (Event Method Data)}
    (iterating : Iterating cycle todo run.queue) {query : Nat} : event ∈ (finishCycle run).queue.eventList query ↔
      query ≠ cycle ∧ event ∈ run.queue.eventList query := by
  rw [iterating.eventList_finishCycle]
  split_ifs with same <;> simp [same]

theorem finishCycle_wellFormed (iterating : Iterating cycle [] run.queue) (bounded : cycle < maxCycle) :
    (finishCycle run).queue.WellFormed ∧ cycle < (finishCycle run).queue.nextEventCycle := by
  have wf := iterating.wf
  have old : ∀ {query : Nat} {event : Event Method Data},
      event ∈ (finishCycle run).queue.eventList query →
        query ≠ cycle ∧ event ∈ run.queue.eventList query := iterating.mem_finishCycle.mp
  have listed : ∀ query, (finishCycle run).queue.eventMap.find? query ≠ some [] := by
    intro query
    simp only [finishCycle, SortedMap.find?_erase]
    split_ifs
    · simp
    · exact wf.listed query
  have next : (finishCycle run).queue.IsNext (finishCycle run).queue.nextEventCycle :=
    EventQueue.isNext_firstCycle listed
  refine ⟨⟨listed, fun query event member => wf.keyed query event (old member).2,
    fun query event member => wf.drawn query event (old member).2, fun query => ?_,
    fun query event member query' event' member' =>
      wf.apart query event (old member).2 query' event' (old member').2,
    wf.clock, fun query event member => wf.timely query event (old member).2, next⟩, ?_⟩
  · rw [iterating.eventList_finishCycle]
    split_ifs
    · simp
    · exact wf.distinct query
  · rcases next.attained with sentinel | ⟨event, member⟩
    · rw [sentinel]
      exact bounded
    · obtain ⟨different, before⟩ := old member
      have := (wf.timely _ event before).1
      have := iterating.now
      omega

theorem iterating_start (wf : queue.WellFormed) (due : queue.nextEventCycle = queue.currentCycle) :
    Iterating queue.currentCycle (queue.eventList queue.currentCycle) queue :=
  ⟨wf, rfl, due, [], rfl⟩

theorem exists_mem_of_due (wf : queue.WellFormed)
    (due : queue.nextEventCycle = queue.currentCycle) (bounded : queue.currentCycle < maxCycle) :
    ∃ event, event ∈ queue.eventList queue.currentCycle := by
  rcases wf.next.attained with sentinel | present
  · omega
  · rwa [due] at present

theorem process_eq {recipients : Recipients σ Method Data} {fuel : Nat}
    (wf : run.queue.WellFormed) (due : run.queue.nextEventCycle = run.queue.currentCycle)
    (bounded : run.queue.currentCycle < maxCycle) :
    process recipients fuel run =
      (processFrom recipients run.queue.currentCycle fuel
        (run.queue.eventList run.queue.currentCycle).head? run).bind fun run =>
          .done (finishCycle run) := by
  obtain ⟨event, member⟩ := exists_mem_of_due wf due bounded
  rw [process, due, EventQueue.find?_of_mem member]

/-! ### Loop -/

theorem bind_log {first : Outcome Fault (Run σ Method Data)}
    {next : Run σ Method Data → Outcome Fault (Run σ Method Data)}
    (grows : ∀ run, run.log <+: (next run).run.log) : first.run.log <+: (first.bind next).run.log := by
  cases first with
  | done run => exact grows run
  | fault cause run => exact List.prefix_refl _
  | outOfFuel run => exact List.prefix_refl _

theorem process_log (recipients : Recipients σ Method Data) (fuel : Nat) (run : Run σ Method Data) :
    run.log <+: (process recipients fuel run).run.log := by
  unfold process
  split
  · exact List.prefix_refl _
  · exact (processFrom_log ..).trans (bind_log fun run => List.prefix_refl _)

theorem loopWhile_log (recipients : Recipients σ Method Data) (fuel steps : Nat)
    (run : Run σ Method Data) : run.log <+: (loopWhile recipients fuel steps run).run.log := by
  induction fuel generalizing steps run with
  | zero => cases steps <;> exact List.prefix_refl _
  | succ fuel ih =>
    cases steps with
    | zero => exact List.prefix_refl _
    | succ steps =>
      rw [loopWhile]
      dsimp only
      split_ifs
      · exact List.prefix_refl _
      · refine List.IsPrefix.trans ?_ (bind_log fun run => ih _ run)
        exact process_log recipients fuel (run.setCycle (addCycles _ _))

theorem setCycle_wellFormed (wf : run.queue.WellFormed)
    (before : cycle ≤ run.queue.nextEventCycle) : (run.setCycle cycle).queue.WellFormed where
  listed := wf.listed
  keyed := wf.keyed
  drawn := wf.drawn
  distinct := wf.distinct
  apart := wf.apart
  clock := le_trans before wf.next_le_maxCycle
  timely query event member :=
    ⟨le_trans before (wf.next.least query event member), (wf.timely query event member).2⟩
  next := ⟨wf.next.least, wf.next.attained⟩

theorem EventQueue.WellFormed.current_le_next (wf : queue.WellFormed) : queue.currentCycle ≤ queue.nextEventCycle := by
  rcases wf.next.attained with sentinel | ⟨event, member⟩
  · rw [sentinel]
    exact wf.clock
  · exact (wf.timely _ event member).1

theorem advance_eq {current next : Nat} (after : current ≤ next) (bounded : next < maxCycle) :
    addCycles current (subCycles next current) = next := by
  rw [subCycles_eq after (by omega), addCycles_eq (by omega)]
  omega

/-- **The proof rule of the queue.** `idle` is an invariant of the run between dispatching cycles,
`busy cycle todo` one of the loop of `Process` in front of `todo`; `good` may be assumed of every
dispatch. -/
structure LoopInvariant (recipients : Recipients σ Method Data)
    (good : Dispatch σ Method Data → Prop) (idle : Run σ Method Data → Prop)
    (busy : Nat → List (Event Method Data) → Run σ Method Data → Prop) : Prop where
  wf : ∀ {run}, idle run → run.queue.WellFormed
  tick : ∀ {run cycle}, idle run → run.queue.currentCycle ≤ cycle →
    cycle ≤ run.queue.nextEventCycle → idle (run.setCycle cycle)
  enter : ∀ {run}, idle run → run.queue.nextEventCycle = run.queue.currentCycle →
    busy run.queue.currentCycle (run.queue.eventList run.queue.currentCycle) run
  iterating : ∀ {cycle todo run}, busy cycle todo run → Iterating cycle todo run.queue
  step : ∀ cycle event rest run, busy cycle (event :: rest) run → good (run.record event) →
    ∃ rest', rest? event.id ((dispatch recipients event run).queue.eventList cycle) = some rest' ∧
      busy cycle rest' (dispatch recipients event run)
  leave : ∀ {cycle run}, cycle < maxCycle → busy cycle [] run → idle (finishCycle run)

namespace LoopInvariant

variable {recipients : Recipients σ Method Data} {good : Dispatch σ Method Data → Prop}
  {idle : Run σ Method Data → Prop}
  {busy : Nat → List (Event Method Data) → Run σ Method Data → Prop}

/-- What a call leaves behind: the invariant, the clock at `cycle`, and no event up to it. -/
def Settled (idle : Run σ Method Data → Prop) (cycle : Nat) (final : Run σ Method Data) : Prop :=
  idle final ∧ final.queue.currentCycle = cycle ∧ cycle < final.queue.nextEventCycle

/-- What holds of a run in the middle of a call. -/
def During (idle : Run σ Method Data → Prop)
    (busy : Nat → List (Event Method Data) → Run σ Method Data → Prop) (run : Run σ Method Data) :
    Prop :=
  idle run ∨ ∃ cycle todo, busy cycle todo run

/-- **`Process`** keeps the invariant and the clock, and leaves no event at the current cycle. -/
theorem process (rule : LoopInvariant recipients good idle busy) {fuel : Nat}
    (start : idle run) (due : run.queue.nextEventCycle = run.queue.currentCycle)
    (bounded : run.queue.currentCycle < maxCycle)
    (all : ∀ record ∈ (process recipients fuel run).run.log, good record) :
    (process recipients fuel run).Meets (Settled idle run.queue.currentCycle) (During idle busy) := by
  rw [process_eq (rule.wf start) due bounded] at all ⊢
  have loopMeets := processFrom_rule recipients run.queue.currentCycle good
    (busy run.queue.currentCycle) (rule.step _) fuel _ run (rule.enter start due)
    fun record member => all record ((bind_log fun run => List.prefix_refl _).subset member)
  refine Outcome.Meets.bind (loopMeets.imp (fun _ finished => finished)
      fun run ⟨todo, state⟩ => Or.inr ⟨_, todo, state⟩)
    fun middle _ finished => ?_
  obtain ⟨wf, later⟩ := finishCycle_wellFormed (rule.iterating finished) bounded
  exact ⟨rule.leave bounded finished, (rule.iterating finished).now, later⟩

theorem loopWhile (rule : LoopInvariant recipients good idle busy) {fuel steps : Nat}
    (start : idle run) (settled : steps = 0 → run.queue.currentCycle < run.queue.nextEventCycle)
    (bounded : run.queue.currentCycle + steps < maxCycle)
    (all : ∀ record ∈ (loopWhile recipients fuel steps run).run.log, good record) :
    (loopWhile recipients fuel steps run).Meets (Settled idle (run.queue.currentCycle + steps)) (During idle busy) := by
  induction fuel generalizing steps run with
  | zero =>
    cases steps with
    | zero => exact ⟨start, rfl, settled rfl⟩
    | succ steps => exact Or.inl start
  | succ fuel ih =>
    cases steps with
    | zero => exact ⟨start, rfl, settled rfl⟩
    | succ steps =>
      have wf := rule.wf start
      have sum := addCycles_eq bounded
      rw [Nvmain.loopWhile] at all ⊢
      dsimp only at all ⊢
      rw [sum] at all ⊢
      by_cases far : run.queue.nextEventCycle > run.queue.currentCycle + (steps + 1)
      · rw [if_pos far]
        exact ⟨rule.tick start (Nat.le_add_right _ _) (le_of_lt far), rfl, far⟩
      · rw [if_neg far] at all ⊢
        have after : run.queue.currentCycle ≤ run.queue.nextEventCycle := wf.current_le_next
        rw [advance_eq after (by omega), subCycles_eq after (by omega), subCycles_eq (by omega) (by omega)] at all ⊢
        have processMeets := rule.process (rule.tick start after le_rfl) rfl
          (show run.queue.nextEventCycle < maxCycle by omega) fun record member =>
            all record ((bind_log fun run => loopWhile_log ..).subset member)
        refine Outcome.Meets.bind processMeets fun middle outcome ⟨idleMiddle, clock, later⟩ => ?_
        rw [outcome, Outcome.bind_done] at all
        have clock' : middle.queue.currentCycle = run.queue.nextEventCycle := clock
        have total : middle.queue.currentCycle +
            (steps + 1 - (run.queue.nextEventCycle - run.queue.currentCycle))
              = run.queue.currentCycle + (steps + 1) := by omega
        rw [← total]
        exact ih idleMiddle (fun _ => by rw [clock]; exact later) (by omega) all

/-- **`Loop( steps )`** keeps the invariant, moves the clock by exactly `steps`, leaves no event at
or before the new time, and runs into no fault. -/
theorem loop (rule : LoopInvariant recipients good idle busy) {fuel steps : Nat}
    (start : idle run) (bounded : run.queue.currentCycle + steps < maxCycle)
    (all : ∀ record ∈ (loop recipients fuel steps run).run.log, good record) :
    (loop recipients fuel steps run).Meets (Settled idle (run.queue.currentCycle + steps)) (During idle busy) := by
  rw [Nvmain.loop] at all ⊢
  by_cases special : steps = 0 ∧ run.queue.nextEventCycle = run.queue.currentCycle
  · rw [if_pos special] at all ⊢
    rw [special.1, Nat.add_zero]
    exact rule.process start special.2 (by omega) all
  · rw [if_neg special] at all ⊢
    have after : run.queue.currentCycle ≤ run.queue.nextEventCycle := (rule.wf start).current_le_next
    exact rule.loopWhile start (fun zero => by omega) bounded all

end LoopInvariant

/-! ### Recipients that only insert -/

/-- The operations insert events for cycles that are `allowed`, given the current one, and do nothing
else. -/
def Behaviour.InsertsAt (behaviour : Behaviour σ Method Data) (allowed : Nat → Nat → Prop) : Prop :=
  ∀ recipient call state queue, ∀ op ∈ (behaviour recipient call state queue).2,
    ∃ event when priority, op.insertion = some (event, when, priority) ∧
      allowed queue.currentCycle when ∧ when ≤ maxCycle

/-- **Only insertions, at the current cycle or later.** -/
abbrev Behaviour.OnlyInserts (behaviour : Behaviour σ Method Data) : Prop :=
  behaviour.InsertsAt (· ≤ ·)

/-- The recipient inserts for later cycles only. -/
abbrev Behaviour.InsertsLater (behaviour : Behaviour σ Method Data) : Prop :=
  behaviour.InsertsAt (· < ·)

theorem Behaviour.InsertsLater.onlyInserts (later : behaviour.InsertsLater) : behaviour.OnlyInserts :=
  fun recipient call state queue op member => by
    obtain ⟨event, when, priority, inserts, after, bounded⟩ :=
      later recipient call state queue op member
    exact ⟨event, when, priority, inserts, le_of_lt after, bounded⟩

theorem Behaviour.InsertsAt.ops {allowed : Nat → Nat → Prop}
    (inserts : behaviour.InsertsAt allowed) (record : Dispatch σ Method Data) :
    ∀ op ∈ record.ops behaviour, ∃ event when priority,
      op.insertion = some (event, when, priority) ∧ allowed record.queue.currentCycle when ∧ when ≤ maxCycle := by
  intro op member
  unfold Dispatch.ops at member
  split at member
  · simp at member
  · exact inserts _ _ _ _ op member

theorem Behaviour.InsertsAt.not_removes {allowed : Nat → Nat → Prop} (inserts : behaviour.InsertsAt allowed)
    (record : Dispatch σ Method Data) (id when : Nat) : .remove id when ∉ record.ops behaviour := by
  intro member
  obtain ⟨_, _, _, inserted, _⟩ := inserts.ops record _ member
  cases inserted

theorem Behaviour.OnlyInserts.regular (inserts : behaviour.OnlyInserts) (record : Dispatch σ Method Data) :
    record.Regular behaviour where
  timely op member event when priority inserted := by
    obtain ⟨event', when', priority', inserted', future, bounded⟩ := inserts.ops record op member
    rw [inserted'] at inserted
    cases inserted
    exact ⟨future, bounded⟩
  keeps op member when removes := inserts.not_removes record _ when (removes ▸ member)

theorem applyOps_eventList {ops : List (QueueOp Method Data)}
    (elsewhere : ∀ op ∈ ops, ∃ event when priority, op.insertion = some (event, when, priority) ∧ cycle < when) :
    (queue.applyOps ops).eventList cycle = queue.eventList cycle := by
  induction ops generalizing queue with
  | nil => rfl
  | cons op rest ih =>
    obtain ⟨event, when, priority, inserts, after⟩ := elsewhere op (List.mem_cons_self ..)
    refine (ih fun other member => elsewhere other (List.mem_cons_of_mem _ member)).trans ?_
    rw [EventQueue.apply_of_insertion inserts, EventQueue.eventList_insertEvent, if_neg (Nat.ne_of_lt after)]

/-- **The loop of `Process` terminates** when the recipients insert for later cycles only: it
dispatches the list as it is. -/
theorem processFrom_later (later : behaviour.InsertsLater) (todo : List (Event Method Data)) :
    ∀ run : Run σ Method Data, Iterating cycle todo run.queue →
      ∃ final, processFrom behaviour.recipients cycle todo.length todo.head? run = .done final ∧
        final.log.map Dispatch.event = run.log.map Dispatch.event ++ todo := by
  induction todo with
  | nil => exact fun run _ => ⟨run, rfl, by simp⟩
  | cons event rest ih =>
    intro run iterating
    obtain ⟨rest', running', _⟩ := iterating.dispatch (later.onlyInserts.regular (run.record event))
    have list : (dispatch behaviour.recipients event run).queue.eventList cycle = run.queue.eventList cycle := by
      rw [dispatch_queue]
      refine applyOps_eventList fun op member => ?_
      obtain ⟨event', when, priority, inserts, after, _⟩ := later.ops (run.record event) op member
      exact ⟨event', when, priority, inserts, iterating.now ▸ after⟩
    have same : rest' = rest := by
      have here := running'.here
      rw [list, iterating.running.here] at here
      exact (Option.some.inj here).symm
    subst same
    obtain ⟨final, finished, events⟩ := ih (dispatch behaviour.recipients event run) running'.iterating
    refine ⟨final, ?_, ?_⟩
    · rw [List.length_cons, List.head?_cons, processFrom, running'.here]
      exact finished
    · rw [events]
      simp [Run.record]

theorem process_later (later : behaviour.InsertsLater)
    (run : Run σ Method Data) (wf : run.queue.WellFormed) (due : run.queue.nextEventCycle = run.queue.currentCycle)
    (bounded : run.queue.currentCycle < maxCycle) :
    ∃ final, process behaviour.recipients (run.queue.eventList run.queue.currentCycle).length run = .done final ∧
      final.log.map Dispatch.event = run.log.map Dispatch.event ++ run.queue.eventList run.queue.currentCycle := by
  obtain ⟨final, finished, events⟩ := processFrom_later later
    (run.queue.eventList run.queue.currentCycle) run (iterating_start wf due)
  exact ⟨finishCycle final, by rw [process_eq wf due bounded, finished]; rfl, events⟩

/-- Recipients that do nothing. -/
def silent : Behaviour Unit Method Data := fun _ _ _ _ => ((), [])

theorem silent_insertsAt (allowed : Nat → Nat → Prop) : (silent : Behaviour Unit Method Data).InsertsAt allowed :=
  fun _ _ _ _ op member => by simp [silent] at member

end Emas.Nvmain

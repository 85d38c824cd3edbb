/-
**The event queue keeps its accounts.**

A run is traced: `History` records every event as it was inserted and the id of every event that
`RemoveEvent` found. A run is `Reachable` when it comes about by operations from outside and calls of
`Loop`, in which no insertion is for a past cycle, the clock stays below the sentinel, and every
dispatch is `Safe`: the recipient does not remove the event it is running for, and when it inserts an
event for the cycle being processed, the running event is the first of the list and its stored
priority is not greater than the argument of the insertion. An event in front of the running one has
been dispatched and freed, and the scan of `InsertEvent` would read it; `processFrom` keeps its fields.
-/

import Emas.Nvmain.ProcessRule

namespace Emas.Nvmain

variable {Method Data σ : Type}

/-! ### The history of a run -/

/-- The events inserted, as they were stored, and the ids of the events removed. -/
structure History (Method Data : Type) where
  inserted : List (Event Method Data)
  removed : List Nat

/-- Record one operation. -/
def History.note (history : History Method Data) (queue : EventQueue Method Data) :
    QueueOp Method Data → History Method Data
  | .insert event when _ => { history with inserted := history.inserted ++ [queue.stored event when] }
  | .insertFor type recipient request when data _ =>
      { history with
        inserted := history.inserted ++ [queue.stored (.create type recipient request data) when] }
  | .insertCallback recipient method when data priority =>
      let event : Event Method Data := .create .callback recipient none data
      { history with
        inserted := history.inserted ++ [queue.stored { event with priority := priority, method := some method } when] }
  | .remove id when =>
      if (queue.removeEvent id when).2 then { history with removed := history.removed ++ [id] }
      else history

/-- Record several operations. -/
def History.noteAll (history : History Method Data) :
    EventQueue Method Data → List (QueueOp Method Data) → History Method Data
  | _, [] => history
  | queue, op :: ops => (history.note queue op).noteAll (op.apply queue) ops

/-- The same behaviour, with its operations recorded. -/
def Behaviour.traced (behaviour : Behaviour σ Method Data) : Behaviour (σ × History Method Data) Method Data :=
  fun recipient call state queue =>
    let (next, ops) := behaviour recipient call state.1 queue
    ((next, state.2.noteAll queue ops), ops)

/-- A run with its history. -/
abbrev TracedRun (σ Method Data : Type) := Run (σ × History Method Data) Method Data

/-- An operation from outside, between two calls of `Loop`. -/
def TracedRun.operate (run : TracedRun σ Method Data) (op : QueueOp Method Data) : TracedRun σ Method Data :=
  { run with state := (run.state.1, run.state.2.note run.queue op), queue := op.apply run.queue }

/-- The clock readings at which an event was dispatched. -/
def dispatchCycles (log : List (Dispatch σ Method Data)) (id : Nat) : List Nat :=
  (log.filter (·.event.id = id)).map (·.queue.currentCycle)

/-! ### The condition, and the runs that meet it -/

/-- Every insertion for the cycle being processed reads no freed event, as none is in front of the
running event, and goes behind it. -/
def BehindOps (cycle : Nat) (event : Event Method Data) : EventQueue Method Data → List (QueueOp Method Data) → Prop
  | _, [] => True
  | queue, op :: ops =>
    (∀ new when priority, op.insertion = some (new, when, priority) → when = cycle →
      ∀ earlier ∈ upTo event.id (queue.eventList cycle), earlier.id = event.id ∧ earlier.priority ≤ priority) ∧
      BehindOps cycle event (op.apply queue) ops

instance decidableBehindOps (cycle : Nat) (event : Event Method Data) :
    (queue : EventQueue Method Data) → (ops : List (QueueOp Method Data)) → Decidable (BehindOps cycle event queue ops)
  | _, [] => isTrue trivial
  | queue, op :: ops =>
    have := decidableBehindOps cycle event (op.apply queue) ops
    decidable_of_iff
      ((∀ insertion ∈ op.insertion, insertion.2.1 = cycle → ∀ earlier ∈ upTo event.id (queue.eventList cycle),
          earlier.id = event.id ∧ earlier.priority ≤ insertion.2.2) ∧ BehindOps cycle event (op.apply queue) ops)
      ⟨fun both => ⟨fun new when priority inserts => both.1 (new, when, priority) inserts, both.2⟩,
        fun behind => ⟨fun insertion inserts =>
          behind.1 insertion.1 insertion.2.1 insertion.2.2 inserts, behind.2⟩⟩

/-- **The condition on a dispatch.** -/
structure Dispatch.Safe (behaviour : Behaviour σ Method Data)
    (record : Dispatch σ Method Data) : Prop extends record.Regular behaviour where
  behind : BehindOps record.queue.currentCycle record.event record.queue (record.ops behaviour)

instance (behaviour : Behaviour σ Method Data) (record : Dispatch σ Method Data) : Decidable (record.Safe behaviour) :=
  decidable_of_iff
    (record.Regular behaviour ∧ BehindOps record.queue.currentCycle record.event record.queue (record.ops behaviour))
    ⟨fun both => ⟨both.1, both.2⟩, fun safe => ⟨safe.toRegular, safe.behind⟩⟩

/-- **The runs whose steps all meet the condition.** -/
inductive Reachable (behaviour : Behaviour σ Method Data) (state : σ) : TracedRun σ Method Data → Prop
  | start : Reachable behaviour state ⟨(state, ⟨[], []⟩), .create, [], []⟩
  | operate {run} (op : QueueOp Method Data) (reached : Reachable behaviour state run)
      (timely : run.queue.TimelyOp op) : Reachable behaviour state (run.operate op)
  | loop {run final} (fuel steps : Nat) (reached : Reachable behaviour state run)
      (bounded : run.queue.currentCycle + steps < maxCycle)
      (finished : loop behaviour.traced.recipients fuel steps run = .done final)
      (safe : ∀ record ∈ final.log, record.Safe behaviour.traced) :
      Reachable behaviour state final

/-- **Conservation of events.** -/
structure Conserved (run : TracedRun σ Method Data) : Prop where
  /-- Dispatched exactly once, at its cycle, or still to come. -/
  accounted : ∀ event ∈ run.state.2.inserted, event.id ∉ run.state.2.removed →
    dispatchCycles run.log event.id = [event.cycle] ∨
      (dispatchCycles run.log event.id = [] ∧ event ∈ run.queue.eventList event.cycle ∧
        run.queue.currentCycle ≤ event.cycle)
  /-- No list is erased with an undispatched event in it. -/
  erased : ∀ event ∈ run.erased, event.id ∈ dispatchedIds run.log

/-! ### The account -/

/-- The account of a run, over whatever `waiting` says is still to be dispatched. -/
structure Account (history : History Method Data) (log : List (Dispatch σ Method Data))
    (erased : List (Event Method Data)) (nextId : Nat) (waiting : Event Method Data → Prop) :
    Prop where
  once : (dispatchedIds log).Nodup
  onTime : ∀ record ∈ log, record.queue.currentCycle = record.event.cycle
  known : ∀ record ∈ log, record.event ∈ history.inserted
  drawn : ∀ event ∈ history.inserted, event.id < nextId
  unique : ∀ event ∈ history.inserted, ∀ other ∈ history.inserted, event.id = other.id → event = other
  inserted : ∀ event, waiting event → event ∈ history.inserted
  fresh : ∀ event, waiting event → event.id ∉ dispatchedIds log
  accounted : ∀ event ∈ history.inserted, event.id ∈ history.removed ∨ event.id ∈ dispatchedIds log ∨ waiting event
  erased : ∀ event ∈ erased, event.id ∈ dispatchedIds log

namespace Account

variable {history : History Method Data} {log : List (Dispatch σ Method Data)}
  {erased : List (Event Method Data)} {nextId : Nat} {waiting waiting' : Event Method Data → Prop}

theorem congr (account : Account history log erased nextId waiting) (same : ∀ event, waiting' event ↔ waiting event) :
    Account history log erased nextId waiting' := by
  have equal : waiting' = waiting := funext fun event => propext (same event)
  rw [equal]
  exact account

theorem insert (account : Account history log erased nextId waiting) {new : Event Method Data}
    (fresh : new.id = nextId) (added : ∀ event, waiting' event ↔ waiting event ∨ event = new) :
    Account ⟨history.inserted ++ [new], history.removed⟩ log erased (nextId + 1) waiting' where
  once := account.once
  onTime := account.onTime
  known record member := List.mem_append_left _ (account.known record member)
  drawn event member := by
    rcases List.mem_append.mp member with old | new
    · exact Nat.lt_succ_of_lt (account.drawn event old)
    · rw [List.mem_singleton.mp new, fresh]
      exact Nat.lt_succ_self _
  unique event member other member' same := by
    rcases List.mem_append.mp member with old | new <;>
      rcases List.mem_append.mp member' with old' | new'
    · exact account.unique event old other old' same
    · rw [List.mem_singleton.mp new', fresh] at same
      exact absurd same (Nat.ne_of_lt (account.drawn event old))
    · rw [List.mem_singleton.mp new, fresh] at same
      exact absurd same.symm (Nat.ne_of_lt (account.drawn other old'))
    · rw [List.mem_singleton.mp new, List.mem_singleton.mp new']
  inserted event waits := by
    rcases (added event).mp waits with old | rfl
    · exact List.mem_append_left _ (account.inserted event old)
    · exact List.mem_append_right _ (List.mem_singleton_self _)
  fresh event waits := by
    rcases (added event).mp waits with old | rfl
    · exact account.fresh event old
    · intro dispatched
      obtain ⟨record, member, same⟩ := List.mem_map.mp dispatched
      have := account.drawn _ (account.known record member)
      rw [same, fresh] at this
      exact lt_irrefl _ this
  accounted event member := by
    rcases List.mem_append.mp member with old | new
    · rcases account.accounted event old with removed | dispatched | waits
      · exact Or.inl removed
      · exact Or.inr (Or.inl dispatched)
      · exact Or.inr (Or.inr ((added event).mpr (Or.inl waits)))
    · exact Or.inr (Or.inr ((added event).mpr (Or.inr (List.mem_singleton.mp new))))
  erased := account.erased

theorem remove (account : Account history log erased nextId waiting) {removed : List Nat}
    (still : ∀ event, waiting' event → waiting event) (grows : ∀ id ∈ history.removed, id ∈ removed)
    (gone : ∀ event, waiting event → waiting' event ∨ event.id ∈ removed) :
    Account ⟨history.inserted, removed⟩ log erased nextId waiting' where
  once := account.once
  onTime := account.onTime
  known := account.known
  drawn := account.drawn
  unique := account.unique
  inserted event waits := account.inserted event (still event waits)
  fresh event waits := account.fresh event (still event waits)
  accounted event member := by
    rcases account.accounted event member with before | dispatched | waits
    · exact Or.inl (grows _ before)
    · exact Or.inr (Or.inl dispatched)
    · rcases gone event waits with later | out
      · exact Or.inr (Or.inr later)
      · exact Or.inl out
  erased := account.erased

theorem erase (account : Account history log erased nextId waiting) {list : List (Event Method Data)}
    (visited : ∀ event ∈ list, event.id ∈ dispatchedIds log) : Account history log (erased ++ list) nextId waiting :=
  { account with
    erased := fun event member =>
      (List.mem_append.mp member).elim (account.erased event) (visited event) }

theorem dispatch (account : Account history log erased nextId waiting)
    {record : Dispatch σ Method Data} (waits : waiting record.event)
    (onTime : record.queue.currentCycle = record.event.cycle)
    (left : ∀ event, waiting event ↔ waiting' event ∨ event = record.event)
    (gone : ∀ event, waiting' event → event.id ≠ record.event.id) :
    Account history (log ++ [record]) erased nextId waiting' := by
  have ids : dispatchedIds (log ++ [record]) = dispatchedIds log ++ [record.event.id] := by
    simp [dispatchedIds]
  refine ⟨?_, ?_, ?_, account.drawn, account.unique, ?_, ?_, ?_, ?_⟩
  · rw [ids, List.nodup_append]
    refine ⟨account.once, by simp, fun id member other last => ?_⟩
    rw [List.mem_singleton.mp last]
    rintro rfl
    exact account.fresh _ waits member
  · intro entry member
    rcases List.mem_append.mp member with old | new
    · exact account.onTime entry old
    · rw [List.mem_singleton.mp new]
      exact onTime
  · intro entry member
    rcases List.mem_append.mp member with old | new
    · exact account.known entry old
    · rw [List.mem_singleton.mp new]
      exact account.inserted _ waits
  · exact fun event later => account.inserted event ((left event).mpr (Or.inl later))
  · intro event later
    rw [ids]
    intro member
    rcases List.mem_append.mp member with old | new
    · exact account.fresh event ((left event).mpr (Or.inl later)) old
    · exact gone event later (List.mem_singleton.mp new)
  · intro event member
    rw [ids]
    rcases account.accounted event member with removed | dispatched | waiting
    · exact Or.inl removed
    · exact Or.inr (Or.inl (List.mem_append_left _ dispatched))
    · rcases (left event).mp waiting with later | rfl
      · exact Or.inr (Or.inr later)
      · exact Or.inr (Or.inl (List.mem_append_right _ (List.mem_singleton_self _)))
  · intro event member
    rw [ids]
    exact List.mem_append_left _ (account.erased event member)

end Account

/-! ### One operation -/

variable {event : Event Method Data}

variable {history : History Method Data} {queue : EventQueue Method Data} {op : QueueOp Method Data}

theorem History.note_of_insertion
    {when : Nat} {priority : Int} (inserts : op.insertion = some (event, when, priority)) :
    history.note queue op = ⟨history.inserted ++ [queue.stored event when], history.removed⟩ := by
  cases op with
  | remove id when => cases inserts
  | insert _ _ _ | insertFor _ _ _ _ _ _ | insertCallback _ _ _ _ _ =>
    cases inserts
    rfl

theorem eventList_removeEvent_of_not_found {id when : Nat}
    (absent : (queue.removeEvent id when).2 ≠ true) (query : Nat) :
    (queue.removeEvent id when).1.eventList query = queue.eventList query := by
  rw [EventQueue.eventList_removeEvent]
  split_ifs with same
  · subst same
    refine List.eraseP_of_forall_not fun event member => ?_
    simp only [decide_eq_true_eq]
    exact fun named => absent ((EventQueue.removeEvent_found _ _ _).mpr ⟨event, member, named⟩)
  · rfl

variable {log : List (Dispatch σ Method Data)}

theorem Account.removeEvent {erased : List (Event Method Data)} {id when : Nat}
    {waiting waiting' : Event Method Data → Prop} (account : Account history log erased queue.nextId waiting)
    (still : ∀ event, waiting' event → waiting event) (kept : ∀ event, waiting event → event.id ≠ id → waiting' event)
    (same : (queue.removeEvent id when).2 ≠ true → ∀ event, waiting event → waiting' event) :
    Account (history.note queue (.remove id when)) log erased (queue.removeEvent id when).1.nextId waiting' := by
  rw [EventQueue.removeEvent_nextId]
  by_cases found : (queue.removeEvent id when).2 = true
  · rw [History.note, if_pos found]
    refine account.remove still (fun id member => List.mem_append_left _ member) fun event waits => ?_
    by_cases named : event.id = id
    · exact Or.inr (by rw [named]; exact List.mem_append_right _ (List.mem_singleton_self _))
    · exact Or.inl (kept event waits named)
  · rw [History.note, if_neg found]
    exact account.remove still (fun _ member => member) fun event waits =>
      Or.inl (same found event waits)

/-- The account while a recipient runs: everything up to the iterator is dispatched. -/
structure RunningAccount (cycle : Nat) (event : Event Method Data) (rest : List (Event Method Data))
    (queue : EventQueue Method Data) (history : History Method Data)
    (log : List (Dispatch σ Method Data)) (erased : List (Event Method Data)) : Prop where
  running : Running cycle event rest queue
  account : Account history log erased queue.nextId (Waiting queue cycle rest)
  visited : ∀ earlier ∈ upTo event.id (queue.eventList cycle), earlier.id ∈ dispatchedIds log

namespace RunningAccount

variable {cycle : Nat} {event : Event Method Data} {rest : List (Event Method Data)}
  {queue : EventQueue Method Data} {history : History Method Data}
  {log : List (Dispatch σ Method Data)} {erased : List (Event Method Data)}

theorem apply (state : RunningAccount cycle event rest queue history log erased)
    (timely : queue.TimelyOp op) (keeps : ∀ when, op ≠ .remove event.id when)
    (behind : ∀ new when priority, op.insertion = some (new, when, priority) → when = cycle →
      ∀ earlier ∈ upTo event.id (queue.eventList cycle), earlier.priority ≤ priority) :
    ∃ rest', RunningAccount cycle event rest' (op.apply queue) (history.note queue op) log erased := by
  cases inserts : op.insertion with
  | some insertion =>
    obtain ⟨new, when, priority⟩ := insertion
    obtain ⟨future, bounded⟩ := timely new when priority inserts
    rw [EventQueue.apply_of_insertion inserts, History.note_of_insertion inserts]
    obtain ⟨rest', running', kept, origin⟩ := state.running.insertEvent new priority future bounded
    obtain ⟨waits, front⟩ := state.running.insertEvent_behind new (behind new when priority inserts) running'
    refine ⟨rest', running', ?_, by rw [front]; exact state.visited⟩
    refine state.account.insert rfl fun other => ⟨Running.waiting_of_insertEvent origin, ?_⟩
    rintro (old | rfl)
    · exact Running.waiting_insertEvent kept old
    · exact waits
  | none =>
    cases op with
    | insert _ _ _ | insertFor _ _ _ _ _ _ | insertCallback _ _ _ _ _ => cases inserts
    | remove id when =>
      have other : id ≠ event.id := fun same => keeps when (by rw [same])
      obtain ⟨rest', running', origin, kept, front⟩ := state.running.removeEvent when other
      refine ⟨rest', running', state.account.removeEvent ?_ ?_ ?_,
        fun earlier member => state.visited earlier (front earlier member)⟩
      · rintro later (member | ⟨query, different, member⟩)
        · exact Or.inl (origin later member)
        · exact Or.inr ⟨query, different, EventQueue.mem_of_mem_removeEvent member⟩
      · rintro later (member | ⟨query, different, member⟩) named
        · exact Or.inl (kept later member named)
        · exact Or.inr ⟨query, different, EventQueue.mem_removeEvent_of_ne member named⟩
      · intro absent later waits
        have lists := eventList_removeEvent_of_not_found absent
        have here := running'.here
        rw [show (QueueOp.remove id when).apply queue = (queue.removeEvent id when).1 from rfl]
        rw [lists, state.running.here] at here
        cases here
        rcases waits with member | ⟨query, different, member⟩
        · exact Or.inl member
        · exact Or.inr ⟨query, different, by rw [lists]; exact member⟩

theorem applyOps (state : RunningAccount cycle event rest queue history log erased)
    {ops : List (QueueOp Method Data)} (timely : ∀ op ∈ ops, queue.TimelyOp op)
    (keeps : ∀ op ∈ ops, ∀ when, op ≠ .remove event.id when) (behind : BehindOps cycle event queue ops) :
    ∃ rest', RunningAccount cycle event rest' (queue.applyOps ops) (history.noteAll queue ops) log erased := by
  induction ops generalizing queue rest history with
  | nil => exact ⟨rest, state⟩
  | cons op tail ih =>
    obtain ⟨middle, next⟩ := state.apply (timely op (List.mem_cons_self ..))
      (keeps op (List.mem_cons_self ..)) fun new when priority inserts now earlier member =>
        (behind.1 new when priority inserts now earlier member).2
    exact ih next (fun later member => (timely later (List.mem_cons_of_mem _ member)).apply op)
      (fun later member => keeps later (List.mem_cons_of_mem _ member)) behind.2

end RunningAccount

/-! ### Process and Loop keep the account -/

/-- The account between two calls: everything in the map waits. -/
structure IdleAccount (run : TracedRun σ Method Data) : Prop where
  wf : run.queue.WellFormed
  account : Account run.state.2 run.log run.erased run.queue.nextId
    fun event => ∃ when, event ∈ run.queue.eventList when

/-- The account inside `Process`: everything in front of the iterator is dispatched. -/
structure BusyAccount (cycle : Nat) (todo : List (Event Method Data))
    (run : TracedRun σ Method Data) : Prop where
  iterating : Iterating cycle todo run.queue
  account : Account run.state.2 run.log run.erased run.queue.nextId (Waiting run.queue cycle todo)
  visited : ∀ event ∈ run.queue.eventList cycle, event ∈ todo ∨ event.id ∈ dispatchedIds run.log

theorem dispatch_traced (behaviour : Behaviour σ Method Data) (event : Event Method Data)
    (run : TracedRun σ Method Data) :
    (dispatch behaviour.traced.recipients event run).state.2 =
      run.state.2.noteAll run.queue ((run.record event).ops behaviour.traced) := by
  unfold dispatch Dispatch.ops Run.record
  cases callOf run.queue event <;> rfl

variable {run : TracedRun σ Method Data}

theorem BusyAccount.start {cycle : Nat}
    {rest : List (Event Method Data)} (state : BusyAccount cycle (event :: rest) run) :
    RunningAccount cycle event rest run.queue run.state.2 (run.log ++ [run.record event]) run.erased := by
  have running := state.iterating.running
  have distinct := running.wf.distinct cycle
  have split := upTo_append_of_rest? running.here
  have behind : ∀ later ∈ rest, later.id ≠ event.id := by
    obtain ⟨front, whole⟩ := state.iterating.split
    rw [whole, List.map_append, List.nodup_append, List.map_cons, List.nodup_cons] at distinct
    intro later member same
    exact distinct.2.1.1 (same ▸ List.mem_map_of_mem member)
  refine ⟨running, state.account.dispatch (Or.inl (List.mem_cons_self ..)) ?_ ?_ ?_, ?_⟩
  · show run.queue.currentCycle = event.cycle
    rw [running.wf.keyed cycle event running.listed]
    exact running.now
  · intro other
    simp only [Waiting, List.mem_cons]
    constructor
    · rintro ((same | member) | elsewhere)
      · exact Or.inr same
      · exact Or.inl (Or.inl member)
      · exact Or.inl (Or.inr elsewhere)
    · rintro ((member | elsewhere) | same)
      · exact Or.inl (Or.inr member)
      · exact Or.inr elsewhere
      · exact Or.inl (Or.inl same)
  · rintro other (member | ⟨when, different, member⟩) same
    · exact behind other member same
    · exact different (running.wf.apart when other member cycle event running.listed same)
  · intro earlier member
    have inList : earlier ∈ run.queue.eventList cycle := by
      rw [split]
      exact List.mem_append_left _ member
    rcases state.visited earlier inList with later | dispatched
    · rcases List.mem_cons.mp later with rfl | later
      · exact List.mem_map.mpr ⟨run.record earlier, List.mem_append_right _ (List.mem_singleton_self _), rfl⟩
      · exfalso
        rw [split, List.map_append, List.nodup_append] at distinct
        exact distinct.2.2 _ (List.mem_map_of_mem member) _ (List.mem_map_of_mem later) rfl
    · rw [dispatchedIds, List.map_append]
      exact List.mem_append_left _ dispatched

theorem RunningAccount.busy {cycle : Nat} {rest : List (Event Method Data)}
    (state : RunningAccount cycle event rest run.queue run.state.2 run.log run.erased) :
    BusyAccount cycle rest run := by
  refine ⟨state.running.iterating, state.account, fun other member => ?_⟩
  rw [upTo_append_of_rest? state.running.here] at member
  rcases List.mem_append.mp member with front | behind
  · exact Or.inr (state.visited other front)
  · exact Or.inl behind

/-- **The account is an invariant of `Process` and `Loop`**, over safe dispatches. -/
theorem account_loopInvariant (behaviour : Behaviour σ Method Data) :
    LoopInvariant behaviour.traced.recipients (Dispatch.Safe behaviour.traced) IdleAccount BusyAccount where
  wf state := state.wf
  tick state _ before := ⟨setCycle_wellFormed state.wf before, state.account⟩
  enter {run} state due := by
    refine ⟨iterating_start state.wf due, state.account.congr fun event => ?_, fun event member => Or.inl member⟩
    constructor
    · rintro (member | ⟨when, _, member⟩)
      · exact ⟨_, member⟩
      · exact ⟨when, member⟩
    · rintro ⟨when, member⟩
      by_cases same : when = run.queue.currentCycle
      · subst same
        exact Or.inl member
      · exact Or.inr ⟨when, same, member⟩
  iterating state := state.iterating
  step cycle event rest run state safe := by
    have now : (run.record event).queue.currentCycle = cycle := state.iterating.now
    obtain ⟨rest', after⟩ := state.start.applyOps safe.timely safe.keeps (now ▸ safe.behind)
    have ran : RunningAccount cycle event rest'
        (dispatch behaviour.traced.recipients event run).queue
        (dispatch behaviour.traced.recipients event run).state.2
        (dispatch behaviour.traced.recipients event run).log
        (dispatch behaviour.traced.recipients event run).erased := by
      rw [dispatch_queue, dispatch_traced]
      exact after
    exact ⟨rest', ran.running.here, ran.busy⟩
  leave {cycle run} bounded state := by
    have visited : ∀ event ∈ run.queue.eventList run.queue.nextEventCycle, event.id ∈ dispatchedIds run.log := by
      intro event member
      rw [state.iterating.next] at member
      exact (state.visited event member).resolve_left (List.not_mem_nil)
    refine ⟨(finishCycle_wellFormed state.iterating bounded).1, (state.account.congr ?_).erase visited⟩
    intro event
    simp only [state.iterating.mem_finishCycle, Waiting, List.not_mem_nil, false_or]

/-! ### What the account says -/

theorem dispatchCycles_of_not_mem {id : Nat} (absent : id ∉ dispatchedIds log) : dispatchCycles log id = [] := by
  have none : log.filter (·.event.id = id) = [] := by
    refine List.filter_eq_nil_iff.mpr fun record member => ?_
    simp only [decide_eq_true_eq]
    exact fun same => absent (List.mem_map.mpr ⟨record, member, same⟩)
  rw [dispatchCycles, none, List.map_nil]

theorem Account.dispatchCycles_eq {erased : List (Event Method Data)} {nextId : Nat}
    {waiting : Event Method Data → Prop} (account : Account history log erased nextId waiting)
    (inserted : event ∈ history.inserted) (dispatched : event.id ∈ dispatchedIds log) :
    dispatchCycles log event.id = [event.cycle] := by
  obtain ⟨record, member, same⟩ := List.mem_map.mp dispatched
  have the := account.unique _ (account.known record member) event inserted same
  obtain ⟨front, back, split⟩ := List.append_of_mem member
  have once := account.once
  rw [dispatchedIds, split, List.map_append, List.map_cons, List.nodup_append, List.nodup_cons] at once
  have before : event.id ∉ dispatchedIds front := fun earlier =>
    once.2.2 _ earlier _ (List.mem_cons_self ..) same.symm
  have behind : event.id ∉ dispatchedIds back := fun later => once.2.1.1 (same ▸ later)
  have alone : dispatchCycles log event.id =
      dispatchCycles front event.id ++ (record.queue.currentCycle :: dispatchCycles back event.id) := by
    rw [split, dispatchCycles, List.filter_append, List.filter_cons_of_pos (by simpa using same),
      List.map_append, List.map_cons]
    rfl
  rw [alone, dispatchCycles_of_not_mem before, dispatchCycles_of_not_mem behind, account.onTime record member, the]
  rfl

theorem Account.conserved {waiting : Event Method Data → Prop}
    (account : Account run.state.2 run.log run.erased run.queue.nextId waiting) (wf : run.queue.WellFormed)
    (listed : ∀ event, waiting event → ∃ when, event ∈ run.queue.eventList when) :
    Conserved run where
  accounted event inserted kept := by
    by_cases dispatched : event.id ∈ dispatchedIds run.log
    · exact Or.inl (account.dispatchCycles_eq inserted dispatched)
    · right
      have waits := ((account.accounted event inserted).resolve_left kept).resolve_left dispatched
      obtain ⟨when, member⟩ := listed event waits
      have cycle := wf.keyed when event member
      rw [cycle]
      exact ⟨dispatchCycles_of_not_mem dispatched, member, (wf.timely when event member).1⟩
  erased := account.erased

theorem IdleAccount.conserved (state : IdleAccount run) : Conserved run :=
  state.account.conserved state.wf fun _ waits => waits

theorem BusyAccount.conserved {cycle : Nat} {todo : List (Event Method Data)}
    (state : BusyAccount cycle todo run) : Conserved run := by
  refine state.account.conserved state.iterating.wf fun event waits => ?_
  rcases waits with member | ⟨when, _, member⟩
  · obtain ⟨front, split⟩ := state.iterating.split
    exact ⟨cycle, by rw [split]; exact List.mem_append_right _ member⟩
  · exact ⟨when, member⟩

/-! ### Whole runs -/

theorem IdleAccount.operate (state : IdleAccount run)
    (timely : run.queue.TimelyOp op) : IdleAccount (run.operate op) := by
  refine ⟨EventQueue.apply_wellFormed state.wf timely, ?_⟩
  show Account (run.state.2.note run.queue op) run.log run.erased (op.apply run.queue).nextId
    fun event => ∃ when, event ∈ (op.apply run.queue).eventList when
  cases inserts : op.insertion with
  | some insertion =>
    obtain ⟨new, when, priority⟩ := insertion
    rw [EventQueue.apply_of_insertion inserts, History.note_of_insertion inserts]
    refine state.account.insert rfl fun event => ?_
    simp only [EventQueue.mem_eventList_insertEvent]
    constructor
    · rintro ⟨query, ⟨_, same⟩ | old⟩
      · exact Or.inr same
      · exact Or.inl ⟨query, old⟩
    · rintro (⟨query, old⟩ | same)
      · exact ⟨query, Or.inr old⟩
      · exact ⟨when, Or.inl ⟨rfl, same⟩⟩
  | none =>
    cases op with
    | insert _ _ _ | insertFor _ _ _ _ _ _ | insertCallback _ _ _ _ _ => cases inserts
    | remove id when =>
      refine state.account.removeEvent ?_ ?_ ?_
      · rintro event ⟨query, member⟩
        exact ⟨query, EventQueue.mem_of_mem_removeEvent member⟩
      · rintro event ⟨query, member⟩ named
        exact ⟨query, EventQueue.mem_removeEvent_of_ne member named⟩
      · rintro absent event ⟨query, member⟩
        exact ⟨query, by rw [QueueOp.apply, eventList_removeEvent_of_not_found absent]; exact member⟩

theorem Reachable.idleAccount {behaviour : Behaviour σ Method Data} {state : σ}
    (reached : Reachable behaviour state run) : IdleAccount run := by
  induction reached with
  | start =>
    refine ⟨EventQueue.create_wellFormed, ?_⟩
    constructor <;> simp [dispatchedIds, EventQueue.create, EventQueue.eventList]
  | operate op _ timely account => exact account.operate timely
  | loop fuel steps _ bounded finished safe account =>
    have meets := (account_loopInvariant behaviour).loop account bounded (by rw [finished]; exact safe)
    exact (meets.done_post finished).1

/-- **No event is lost or dispatched twice.** In every run whose steps meet the condition the events
are conserved. The next call of `Loop` runs into no fault and conserves them in every state it passes
through; when it returns, the clock has moved on by `steps`, and every event up to it that was not
removed has been dispatched exactly once, at its cycle. -/
theorem reachable_conserved (behaviour : Behaviour σ Method Data) (state : σ)
    (run : TracedRun σ Method Data) (reached : Reachable behaviour state run) :
    Conserved run ∧ ∀ fuel steps, run.queue.currentCycle + steps < maxCycle →
      (∀ record ∈ (loop behaviour.traced.recipients fuel steps run).run.log, record.Safe behaviour.traced) →
      (loop behaviour.traced.recipients fuel steps run).Meets
        (fun final => Conserved final ∧
          final.queue.currentCycle = run.queue.currentCycle + steps ∧
          ∀ event ∈ final.state.2.inserted, event.id ∉ final.state.2.removed →
            event.cycle ≤ final.queue.currentCycle → dispatchCycles final.log event.id = [event.cycle])
        Conserved := by
  refine ⟨reached.idleAccount.conserved, fun fuel steps bounded safe => ?_⟩
  have meets := (account_loopInvariant behaviour).loop reached.idleAccount bounded safe
  refine Outcome.Meets.imp meets (fun final ⟨idle, clock, later⟩ => ?_) fun middle during => ?_
  · refine ⟨idle.conserved, clock, fun event inserted kept due => ?_⟩
    rcases idle.conserved.accounted event inserted kept with dispatched | ⟨_, member, _⟩
    · exact dispatched
    · have := idle.wf.next.least _ event member
      omega
  · rcases during with idle | ⟨cycle, todo, busy⟩
    · exact idle.conserved
    · exact busy.conserved

/-! ### Both sides of the condition, on one run -/

/-- A recipient `0` that, when called, inserts a callback of recipient `1` for the same cycle. -/
def reentrant (priority : Int) : Behaviour Unit Unit Unit :=
  fun recipient _ _ queue =>
    ((), if recipient = 0 then [.insertCallback 1 () queue.currentCycle none priority] else [])

/-- A queue with one callback of recipient `0`, with priority `40`, at cycle `5`. -/
def oneCallback : TracedRun Unit Unit Unit :=
  TracedRun.operate ⟨((), ⟨[], []⟩), .create, [], []⟩ (.insertCallback 0 () 5 none 40)

/-- `Loop( 10 )` on it. -/
def reentrantLoop (priority : Int) : Outcome Fault (TracedRun Unit Unit Unit) :=
  loop (reentrant priority).traced.recipients 4 10 oneCallback

/-- With priority `50` the new event goes behind the iterator: the run meets the condition. -/
theorem reachable_conserved_reentrant :
    reentrantLoop 50 = .done (reentrantLoop 50).run ∧ Conserved (reentrantLoop 50).run ∧
      dispatchedIds (reentrantLoop 50).run.log = [0, 1] := by
  have finished : reentrantLoop 50 = .done (reentrantLoop 50).run := rfl
  have inserted : Reachable (reentrant 50) () oneCallback :=
    .operate _ .start (by decide)
  have reached : Reachable (reentrant 50) () (reentrantLoop 50).run :=
    .loop 4 10 inserted (by decide) finished (by decide +kernel)
  exact ⟨finished, (reachable_conserved _ _ _ reached).1, by decide +kernel⟩

/-- **An event is lost.** With priority `30` every insertion is still for the current cycle or later,
but the new event goes in front of the iterator: it is erased with the list of its cycle, was never
dispatched and is in no list any more. -/
theorem lost_event :
    reentrantLoop 30 = .done (reentrantLoop 30).run ∧
      (∀ record ∈ (reentrantLoop 30).run.log, record.Regular (reentrant 30).traced) ∧
      ∃ event ∈ (reentrantLoop 30).run.state.2.inserted,
        event.id ∉ (reentrantLoop 30).run.state.2.removed ∧ event.cycle = 5 ∧
        dispatchCycles (reentrantLoop 30).run.log event.id = [] ∧ event ∈ (reentrantLoop 30).run.erased ∧
        (reentrantLoop 30).run.queue.eventMap.minKey? = none := by
  refine ⟨rfl, by decide +kernel, ?_⟩
  decide +kernel

end Emas.Nvmain

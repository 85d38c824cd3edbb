/-
**The order in which `Process` dispatches the events of a cycle.**

`Filled cycle queue seq` says that the list of `cycle` came about by the insertions `seq`, in this
order, each through `InsertEvent` on an event of the caller's, through the overload that builds the
event, or through `InsertCallback`; any other steps in between are for other cycles. An `Insertion`
has the event as stored and the priority argument. They disagree when `InsertEvent` was used: only
`InsertCallback` stores the priority, the overload leaves `0`, and an event of the caller's keeps
what it had.
-/

import Emas.Nvmain.EventConservation
import Emas.Lib.PriorityScan

namespace Emas.Nvmain

variable {Method Data σ : Type}

/-! ### The insertions for a cycle -/

/-- An event as it was stored, and the priority that was given with it. -/
structure Insertion (Method Data : Type) where
  event : Event Method Data
  priority : Int
  deriving DecidableEq

namespace Insertion

/-- The priority the scan sees. -/
def stored (insertion : Insertion Method Data) : Int := insertion.event.priority

/-- The place in the order of insertion: ids are drawn in this order. -/
def index (insertion : Insertion Method Data) : Nat := insertion.event.id

end Insertion

/-- The list of `cycle` was filled by these insertions. -/
inductive Filled (cycle : Nat) : EventQueue Method Data → List (Insertion Method Data) → Prop
  | empty {queue} (none : queue.eventList cycle = []) : Filled cycle queue []
  | insert {queue seq event priority} {op : QueueOp Method Data} (filled : Filled cycle queue seq)
      (inserts : op.insertion = some (event, cycle, priority)) :
      Filled cycle (op.apply queue) (seq ++ [⟨queue.stored event cycle, priority⟩])
  | other {queue queue' seq} (filled : Filled cycle queue seq)
      (same : queue'.eventList cycle = queue.eventList cycle) (drawn : queue.nextId ≤ queue'.nextId) :
      Filled cycle queue' seq

/-- The insertions for a cycle among some operations. -/
def insertionsFor (cycle : Nat) : EventQueue Method Data → List (QueueOp Method Data) → List (Insertion Method Data)
  | _, [] => []
  | queue, op :: ops =>
    match op.insertion with
    | some (event, when, priority) =>
      if when = cycle then
        ⟨queue.stored event when, priority⟩ :: insertionsFor cycle (op.apply queue) ops
      else insertionsFor cycle (op.apply queue) ops
    | none => insertionsFor cycle (op.apply queue) ops

/-- The condition: every insertion fits those before it. -/
abbrev Orderly (seq : List (Insertion Method Data)) : Prop :=
  PriorityScan.Orderly Insertion.priority Insertion.stored Insertion.index seq

/-- The order asked for: by priority argument, then by insertion. -/
abbrev Insertion.Before (first second : Insertion Method Data) : Prop :=
  PriorityScan.Before Insertion.priority Insertion.index first second

theorem map_place (new : Insertion Method Data) : ∀ list : List (Insertion Method Data),
    (PriorityScan.place Insertion.priority Insertion.stored new list).map Insertion.event =
      insertByPriority new.event new.priority (list.map Insertion.event)
  | [] => rfl
  | head :: rest => by
      rw [PriorityScan.place, List.map_cons, insertByPriority]
      show _ = if head.stored > new.priority then _ else _
      split_ifs
      · rfl
      · rw [List.map_cons, map_place new rest]

variable {queue : EventQueue Method Data}

variable {cycle : Nat} {seq : List (Insertion Method Data)}

/-- **The list is the arrangement of the insertions.** -/
theorem filled_eventList (filled : Filled cycle queue seq) :
    queue.eventList cycle = (PriorityScan.arrange Insertion.priority Insertion.stored seq).map Insertion.event := by
  induction filled with
  | empty none => exact none
  | insert filled inserts ih =>
    rw [EventQueue.apply_of_insertion inserts, EventQueue.eventList_insertEvent, if_pos rfl, ih,
      PriorityScan.arrange_append, map_place]
  | other filled same _ ih => rw [same, ih]

theorem filled_increasing (filled : Filled cycle queue seq) :
    (seq.Pairwise fun first second => first.index < second.index) ∧
      ∀ insertion ∈ seq, insertion.index < queue.nextId := by
  induction filled with
  | empty => exact ⟨List.Pairwise.nil, by simp⟩
  | @insert queue seq event priority op filled inserts ih =>
    rw [EventQueue.apply_of_insertion inserts, EventQueue.insertEvent_nextId, List.pairwise_append]
    refine ⟨⟨ih.1, List.pairwise_singleton _ _, fun first member second last => ?_⟩, fun insertion member => ?_⟩
    · rw [List.mem_singleton.mp last]
      exact ih.2 first member
    · rcases List.mem_append.mp member with old | new
      · exact Nat.lt_succ_of_lt (ih.2 insertion old)
      · rw [List.mem_singleton.mp new]
        exact Nat.lt_succ_self queue.nextId
  | other filled _ drawn ih =>
    exact ⟨ih.1, fun insertion member => lt_of_lt_of_le (ih.2 insertion member) drawn⟩

theorem apply_nextId_le (queue : EventQueue Method Data) (op : QueueOp Method Data) :
    queue.nextId ≤ (op.apply queue).nextId := by
  cases op with
  | remove id when => exact (EventQueue.removeEvent_nextId queue id when).ge
  | insert _ _ _ | insertFor _ _ _ _ _ _ | insertCallback _ _ _ _ _ => exact Nat.le_succ _

theorem filled_applyOps {ops : List (QueueOp Method Data)}
    (filled : Filled cycle queue seq) (inserts : ∀ op ∈ ops, op.insertion.isSome) :
    Filled cycle (queue.applyOps ops) (seq ++ insertionsFor cycle queue ops) := by
  induction ops generalizing queue seq with
  | nil =>
    rw [insertionsFor, List.append_nil]
    exact filled
  | cons op rest ih =>
    obtain ⟨⟨event, when, priority⟩, inserted⟩ :=
      Option.isSome_iff_exists.mp (inserts op (List.mem_cons_self ..))
    have later := fun other member => inserts other (List.mem_cons_of_mem op member)
    show Filled cycle ((op.apply queue).applyOps rest) _
    rw [insertionsFor, inserted]
    dsimp only
    split_ifs with same
    · subst same
      rw [List.append_cons]
      exact ih (filled.insert inserted) later
    · refine ih (filled.other ?_ (apply_nextId_le queue op)) later
      rw [EventQueue.apply_of_insertion inserted, EventQueue.eventList_insertEvent, if_neg (Ne.symm same)]

/-! ### Recipients do not reorder the list -/

variable {event : Event Method Data}

theorem filter_insertByPriority {priority : Int} {keep : Event Method Data → Bool} (dropped : keep event = false) :
    ∀ list : List (Event Method Data), (insertByPriority event priority list).filter keep = list.filter keep
  | [] => by simp [insertByPriority, dropped]
  | head :: rest => by
      rw [insertByPriority]
      split_ifs
      · rw [List.filter_cons_of_neg (by simp [dropped])]
      · rw [List.filter_cons, List.filter_cons, filter_insertByPriority dropped rest]

theorem applyOps_filter_sublist (cycle bound : Nat) (ops : List (QueueOp Method Data)) :
    ∀ {queue : EventQueue Method Data}, bound ≤ queue.nextId →
      (((queue.applyOps ops).eventList cycle).filter (·.id < bound)).Sublist
        ((queue.eventList cycle).filter (·.id < bound)) := by
  induction ops with
  | nil => exact fun _ => List.Sublist.refl _
  | cons op rest ih =>
    intro queue below
    refine (ih (le_trans below (apply_nextId_le queue op))).trans ?_
    cases inserts : op.insertion with
    | some insertion =>
      obtain ⟨new, when, priority⟩ := insertion
      rw [EventQueue.apply_of_insertion inserts, EventQueue.eventList_insertEvent]
      split_ifs with same
      · subst same
        rw [filter_insertByPriority]
        exact decide_eq_false (not_lt.mpr below)
      · exact List.Sublist.refl _
    | none =>
      cases op with
      | insert _ _ _ | insertFor _ _ _ _ _ _ | insertCallback _ _ _ _ _ => cases inserts
      | remove id when =>
        rw [QueueOp.apply, EventQueue.eventList_removeEvent]
        split_ifs with same
        · subst same
          exact List.eraseP_sublist.filter _
        · exact List.Sublist.refl _

theorem rest?_filter {id : Nat} {keep : Event Method Data → Bool} :
    ∀ {list rest : List (Event Method Data)}, (∀ event ∈ list, event.id = id → keep event = true) →
      rest? id list = some rest → rest? id (list.filter keep) = some (rest.filter keep)
  | head :: tail, rest, kept, found => by
      rw [rest?] at found
      split_ifs at found with here
      · cases found
        rw [List.filter_cons_of_pos (kept head (List.mem_cons_self ..) here), rest?, if_pos here]
      · have later := rest?_filter (fun event member => kept event (List.mem_cons_of_mem _ member)) found
        rw [List.filter_cons]
        split_ifs
        · rw [rest?, if_neg here, later]
        · exact later

theorem exists_id_of_rest? {id : Nat} : ∀ {list rest : List (Event Method Data)},
    rest? id list = some rest → id ∈ list.map Event.id
  | head :: tail, rest, found => by
      rw [rest?] at found
      split_ifs at found with here
      · rw [← here]
        exact List.mem_cons_self ..
      · exact List.mem_cons_of_mem _ (exists_id_of_rest? found)

theorem rest?_sublist {id : Nat} {list list' : List (Event Method Data)} (sub : list'.Sublist list) :
    ∀ {rest rest' : List (Event Method Data)}, (list.map Event.id).Nodup →
      rest? id list = some rest → rest? id list' = some rest' → rest'.Sublist rest := by
  induction sub with
  | slnil => exact fun _ found _ => (nomatch found)
  | @cons list' list head sub ih =>
    intro rest rest' distinct found found'
    rw [List.map_cons, List.nodup_cons] at distinct
    rw [rest?] at found
    split_ifs at found with here
    · rw [here] at distinct
      exact absurd ((sub.map Event.id).subset (exists_id_of_rest? found')) distinct.1
    · exact ih distinct.2 found found'
  | @cons_cons list' list head sub ih =>
    intro rest rest' distinct found found'
    rw [List.map_cons, List.nodup_cons] at distinct
    rw [rest?] at found found'
    split_ifs at found found' with here
    · cases found
      cases found'
      exact sub
    · exact ih distinct.2 found found'

/-- **What is behind the iterator after a recipient ran**: among the events that were there before,
what was behind it, in the same order. -/
theorem Running.rest_sublist {rest rest' : List (Event Method Data)}
    {ops : List (QueueOp Method Data)} (running : Running cycle event rest queue)
    (running' : Running cycle event rest' (queue.applyOps ops)) :
    (rest'.filter (·.id < queue.nextId)).Sublist rest := by
  have drawn : ∀ other ∈ queue.eventList cycle, other.id < queue.nextId := running.wf.drawn cycle
  have old : (queue.eventList cycle).filter (·.id < queue.nextId) = queue.eventList cycle :=
    List.filter_eq_self.mpr (by simpa using drawn)
  have sub := applyOps_filter_sublist cycle queue.nextId ops le_rfl
  rw [old] at sub
  refine rest?_sublist sub (running.wf.distinct cycle) running.here (rest?_filter ?_ running'.here)
  intro other member same
  simpa [same] using drawn event running.listed

/-! ### Process goes through the list in order -/

/-- Inside `Process`: of the events with an id below `bound`, those dispatched and those still to
come are in the order of `ids`, and each is dispatched, to come, or was removed. -/
structure InOrder (behaviour : Behaviour σ Method Data) (ids : List Nat) (bound cycle : Nat)
    (todo : List (Event Method Data)) (run : Run σ Method Data) : Prop where
  iterating : Iterating cycle todo run.queue
  drawn : bound ≤ run.queue.nextId
  sublist : ((dispatchedIds run.log ++ todo.map Event.id).filter (· < bound)).Sublist ids
  complete : ∀ id ∈ ids, id ∈ dispatchedIds run.log ∨ id ∈ todo.map Event.id ∨
    ∃ record ∈ run.log, ∃ when, .remove id when ∈ record.ops behaviour

theorem InOrder.step {behaviour : Behaviour σ Method Data} {ids : List Nat} {bound cycle : Nat}
    {rest : List (Event Method Data)} {run : Run σ Method Data}
    (state : InOrder behaviour ids bound cycle (event :: rest) run) (regular : (run.record event).Regular behaviour) :
    ∃ rest', rest? event.id ((dispatch behaviour.recipients event run).queue.eventList cycle) = some rest' ∧
      InOrder behaviour ids bound cycle rest' (dispatch behaviour.recipients event run) := by
  obtain ⟨rest', running', _, kept, grows⟩ := state.iterating.dispatch regular
  have running := state.iterating.running
  have behind : (rest'.filter (·.id < run.queue.nextId)).Sublist rest :=
    running.rest_sublist (by rw [← dispatch_queue]; exact running')
  have ids' : dispatchedIds (dispatch behaviour.recipients event run).log = dispatchedIds run.log ++ [event.id] := by
    simp [dispatchedIds, Run.record]
  refine ⟨rest', running'.here, running'.iterating, le_trans state.drawn grows, ?_, ?_⟩
  · have old : (rest'.map Event.id).filter (· < bound) =
        (((rest'.filter (·.id < run.queue.nextId)).map Event.id)).filter (· < bound) := by
      rw [List.filter_map, List.filter_map, List.filter_filter]
      refine congrArg _ (List.filter_congr fun other _ => ?_)
      have := state.drawn
      simp only [Function.comp]
      by_cases below : other.id < bound
      · simp [below, lt_of_lt_of_le below this]
      · simp [below]
    have shape : (dispatchedIds run.log ++ [event.id] ++ rest'.map Event.id).filter (· < bound) =
        (dispatchedIds run.log ++
          event.id :: (rest'.filter (·.id < run.queue.nextId)).map Event.id).filter (· < bound) := by
      rw [List.append_assoc, List.singleton_append, List.filter_append, List.filter_append,
        List.filter_cons, List.filter_cons, old]
    rw [ids', shape]
    exact ((((behind.map Event.id).cons_cons event.id).append_left _).filter _).trans state.sublist
  · intro id member
    rw [ids']
    rcases state.complete id member with dispatched | todo | ⟨record, logged, when, removes⟩
    · exact Or.inl (List.mem_append_left _ dispatched)
    · rw [List.map_cons] at todo
      rcases List.mem_cons.mp todo with rfl | later
      · exact Or.inl (List.mem_append_right _ (List.mem_singleton_self _))
      · obtain ⟨other, inRest, rfl⟩ := List.mem_map.mp later
        rcases kept other (Or.inl inRest) with waits | ⟨when, removes⟩
        · rcases waits with inRest' | ⟨elsewhere, different, listed⟩
          · exact Or.inr (Or.inl (List.mem_map_of_mem inRest'))
          · have before := running.wf.keyed cycle other (running.mem_of_rest inRest)
            have after := running'.wf.keyed elsewhere other listed
            exact absurd (after.symm.trans before) different
        · exact Or.inr (Or.inr ⟨_, List.mem_append_right _ (List.mem_singleton_self _), when, removes⟩)
    · exact Or.inr (Or.inr ⟨record, List.mem_append_left _ logged, when, removes⟩)

/-- Where one is dispatched before another, it is to come before it. -/
def DispatchedInOrder (seq : List (Insertion Method Data)) (log : List (Dispatch σ Method Data)) :
    Prop :=
  ∀ first ∈ seq, ∀ second ∈ seq, [first.event.id, second.event.id].Sublist (dispatchedIds log) → first.Before second

/-- What was inserted is dispatched, or removed by a recipient. -/
def Dispatched (behaviour : Behaviour σ Method Data) (seq : List (Insertion Method Data))
    (log : List (Dispatch σ Method Data)) : Prop :=
  ∀ insertion ∈ seq, insertion.event.id ∈ dispatchedIds log ∨
    ∃ record ∈ log, ∃ when, .remove insertion.event.id when ∈ record.ops behaviour

section Filled

variable {cycle : Nat} {queue : EventQueue Method Data} {seq : List (Insertion Method Data)}

/-- **`Process` goes through the list in order**, whatever the recipients do. -/
theorem process_ordered (filled : Filled cycle queue seq) (wf : queue.WellFormed)
    (now : queue.currentCycle = cycle) (due : queue.nextEventCycle = cycle)
    (bounded : cycle < maxCycle) (behaviour : Behaviour σ Method Data) (state : σ) (fuel : Nat)
    (all : ∀ record ∈ (process behaviour.recipients fuel ⟨state, queue, [], []⟩).run.log, record.Regular behaviour) :
    (process behaviour.recipients fuel ⟨state, queue, [], []⟩).Meets
      (fun final => ((dispatchedIds final.log).filter (· < queue.nextId)).Sublist
        ((queue.eventList cycle).map Event.id) ∧ Dispatched behaviour seq final.log)
      fun run => ((dispatchedIds run.log).filter (· < queue.nextId)).Sublist
        ((queue.eventList cycle).map Event.id) := by
  subst now
  rw [process_eq wf due bounded] at all ⊢
  have start : InOrder behaviour ((queue.eventList queue.currentCycle).map Event.id) queue.nextId
      queue.currentCycle (queue.eventList queue.currentCycle) ⟨state, queue, [], []⟩ := by
    refine ⟨iterating_start wf due, le_rfl, List.filter_sublist, fun id member => ?_⟩
    exact Or.inr (Or.inl member)
  have loopMeets := processFrom_rule behaviour.recipients queue.currentCycle
    (fun record => record.Regular behaviour)
    (InOrder behaviour ((queue.eventList queue.currentCycle).map Event.id) queue.nextId
      queue.currentCycle) (fun event rest run => InOrder.step) fuel _ _ start
    fun record member => all record ((bind_log fun run => List.prefix_refl _).subset member)
  refine Outcome.Meets.bind (loopMeets.imp (fun _ finished => finished) fun run ⟨todo, order⟩ => ?_)
    fun middle _ finished => ⟨?_, fun insertion member => ?_⟩
  · refine List.Sublist.trans ?_ order.sublist
    rw [List.filter_append]
    exact List.sublist_append_left ..
  · have sublist := finished.sublist
    rw [List.map_nil, List.append_nil] at sublist
    exact sublist
  · have listed : insertion.event.id ∈ (queue.eventList queue.currentCycle).map Event.id := by
      rw [filled_eventList filled]
      exact List.mem_map_of_mem (List.mem_map_of_mem ((PriorityScan.arrange_perm seq).mem_iff.mpr member))
    rcases finished.complete _ listed with dispatched | todo | removed
    · exact Or.inl dispatched
    · simp at todo
    · exact Or.inr removed

theorem dispatchedInOrder_of_orderly (filled : Filled cycle queue seq) (orderly : Orderly seq)
    {log : List (Dispatch σ Method Data)} (sublist : ((dispatchedIds log).filter (· < queue.nextId)).Sublist
      ((queue.eventList cycle).map Event.id)) : DispatchedInOrder seq log := by
  obtain ⟨increasing, drawn⟩ := filled_increasing filled
  have sorted := (PriorityScan.arrange_pairwise_iff increasing).mpr orderly
  have distinct : (seq.map Insertion.index).Nodup :=
    (List.pairwise_map.mpr increasing).imp Nat.ne_of_lt
  intro first member second member' order
  have old : [first.event.id, second.event.id].filter (· < queue.nextId) = [first.event.id, second.event.id] :=
    List.filter_eq_self.mpr (by simpa using ⟨drawn first member, drawn second member'⟩)
  have inList := (old ▸ order.filter (· < queue.nextId)).trans sublist
  rw [filled_eventList filled, List.map_map] at inList
  obtain ⟨pair, inArrangement, ids⟩ := List.sublist_map_iff.mp inList
  obtain ⟨one, two, rfl⟩ : ∃ one two, pair = [one, two] :=
    List.length_eq_two.mp (by simpa using (congrArg List.length ids).symm)
  have inSeq : ∀ insertion ∈ [one, two], insertion ∈ seq := fun insertion inPair =>
    (PriorityScan.arrange_perm seq).mem_iff.mp (inArrangement.subset inPair)
  have sameFirst : one = first := List.inj_on_of_nodup_map distinct (inSeq one (by simp)) member
    (List.cons.inj ids).1.symm
  have sameSecond : two = second := List.inj_on_of_nodup_map distinct (inSeq two (by simp)) member'
    (List.cons.inj (List.cons.inj ids).2).1.symm
  have before := sorted.sublist inArrangement
  rw [sameFirst, sameSecond] at before
  exact List.rel_of_pairwise_cons before (List.mem_singleton_self _)

/-- **The order of dispatch.** The events inserted for a cycle are dispatched, whatever the recipients
do, in the order of their priority arguments and in insertion order among equals, if and only if every
insertion fits those before it. -/
theorem dispatch_order_iff (filled : Filled cycle queue seq) (wf : queue.WellFormed)
    (now : queue.currentCycle = cycle) (due : queue.nextEventCycle = cycle) (bounded : cycle < maxCycle) :
    (∀ (σ : Type) (behaviour : Behaviour σ Method Data) (state : σ) (fuel : Nat),
      (∀ record ∈ (process behaviour.recipients fuel ⟨state, queue, [], []⟩).run.log, record.Regular behaviour) →
      (process behaviour.recipients fuel ⟨state, queue, [], []⟩).Meets
        (fun final => DispatchedInOrder seq final.log ∧ Dispatched behaviour seq final.log)
        (fun run => DispatchedInOrder seq run.log)) ↔ Orderly seq := by
  constructor
  · intro property
    subst now
    refine (PriorityScan.arrange_pairwise_iff (filled_increasing filled).1).mp ?_
    obtain ⟨final, finished, events⟩ := process_later (silent_insertsAt (· < ·)) ⟨(), queue, [], []⟩ wf due bounded
    have meets := property Unit silent () (queue.eventList queue.currentCycle).length fun record _ =>
      Behaviour.OnlyInserts.regular (silent_insertsAt _) record
    have ordered := (meets.done_post finished).1
    rw [List.pairwise_iff_forall_sublist]
    intro first second pair
    have inSeq : ∀ insertion ∈ [first, second], insertion ∈ seq := fun insertion inPair =>
      (PriorityScan.arrange_perm seq).mem_iff.mp (pair.subset inPair)
    refine ordered first (inSeq first (by simp)) second (inSeq second (by simp)) ?_
    have ids : dispatchedIds final.log = (queue.eventList queue.currentCycle).map Event.id :=
      List.map_map.symm.trans (congrArg (List.map Event.id) events)
    rw [ids, filled_eventList filled]
    exact (pair.map Insertion.event).map Event.id
  · intro orderly σ behaviour state fuel all
    exact (process_ordered filled wf now due bounded behaviour state fuel all).imp
      (fun final ⟨sublist, dispatched⟩ =>
        ⟨dispatchedInOrder_of_orderly filled orderly sublist, dispatched⟩)
      fun run sublist => dispatchedInOrder_of_orderly filled orderly sublist

end Filled

/-! ### Callbacks only, and a request among callbacks -/

/-- Two callbacks for cycle `0`. -/
def twoCallbacks : List (QueueOp Unit Unit) :=
  [.insertCallback 0 () 0 none 40, .insertCallback 0 () 0 none 20]

/-- Callbacks alone are dispatched in order. -/
theorem dispatch_order_twoCallbacks :
    (insertionsFor 0 .create twoCallbacks).map Insertion.priority = [40, 20] ∧
      (process silent.recipients 2 ⟨(), EventQueue.create.applyOps twoCallbacks, [], []⟩).Meets
        (fun final => DispatchedInOrder (insertionsFor 0 .create twoCallbacks) final.log ∧
          Dispatched silent (insertionsFor 0 .create twoCallbacks) final.log)
        (fun run => DispatchedInOrder (insertionsFor 0 .create twoCallbacks) run.log) := by
  have filled : Filled 0 (EventQueue.create.applyOps twoCallbacks)
      (insertionsFor 0 .create twoCallbacks) := filled_applyOps (.empty rfl) (by decide)
  have wf : (EventQueue.create.applyOps twoCallbacks).WellFormed :=
    EventQueue.applyOps_wellFormed EventQueue.create_wellFormed (by decide)
  have orderly : Orderly (insertionsFor 0 .create twoCallbacks) :=
    PriorityScan.orderly_of_stored_eq (by decide)
  exact ⟨by decide, (dispatch_order_iff filled wf rfl rfl (by decide)).mpr orderly Unit silent () 2 (by decide +kernel)⟩

/-- A callback, a response through the overload of `InsertEvent`, and a callback, for cycle `5`. -/
def requestAmongCallbacks : List (QueueOp Unit Unit) :=
  [.insertCallback 0 () 5 none 40, .insertFor .response 0 none 5 none 30, .insertCallback 0 () 5 none 20]

/-- `Loop( 10 )` over them. -/
def requestAmongCallbacksLoop : Outcome Fault (Run Unit Unit Unit) :=
  loop silent.recipients 4 10 ⟨(), EventQueue.create.applyOps requestAmongCallbacks, [], []⟩

/-- **The request is not in its place.** The response given priority `30` is stored with priority `0`,
so the callback with priority `20` goes behind it. -/
theorem misplaced_request :
    Filled 5 (EventQueue.create.applyOps requestAmongCallbacks) (insertionsFor 5 .create requestAmongCallbacks) ∧
      (insertionsFor 5 .create requestAmongCallbacks).map Insertion.priority = [40, 30, 20] ∧
      requestAmongCallbacksLoop = .done requestAmongCallbacksLoop.run ∧
      dispatchedIds requestAmongCallbacksLoop.run.log = [1, 2, 0] ∧
      ¬ DispatchedInOrder (insertionsFor 5 .create requestAmongCallbacks) requestAmongCallbacksLoop.run.log := by
  refine ⟨filled_applyOps (.empty rfl) (by decide), by decide, rfl, by decide +kernel, ?_⟩
  unfold DispatchedInOrder
  decide +kernel

end Emas.Nvmain

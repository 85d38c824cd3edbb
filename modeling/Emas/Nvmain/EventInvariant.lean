/-
**The invariant of the event queue.**

`EventQueue.WellFormed`: no event lies before the clock, every event is in the list of its own cycle
under an id of its own, and `nextEventCycle` is the first cycle with an event (the sentinel when
there is none). `InsertEvent` keeps it for a cycle that is not in the past
(`insertEvent_wellFormed`), `RemoveEvent` keeps it always (`removeEvent_wellFormed`), and so does any
sequence of operations that inserts no event in the past (`applyOps_wellFormed`).
-/

import Emas.Nvmain.EventQueue
import Mathlib.Data.List.Perm.Basic
import Mathlib.Data.List.Nodup

namespace Emas.Nvmain

/-! ### One cycle's event list: the priority scan, the iterator, and removal

`Process` holds an iterator on a node of the list while callbacks insert into and remove from the
same list. The lemmas here say what such a change does on either side of the node: `upTo id` is the
list up to and including the node of event `id`, `rest? id` (from the model of `Process`) the part
behind it.

* `rest?_insertByPriority_of_le`, `rest?_insertByPriority_of_lt` — a new event lands behind the node
  exactly when no event up to the node has a greater stored priority.
* `rest?_eraseP` — removing another event leaves the node in place.
-/

variable {Method Data : Type}

/-- The list up to and including the node of event `id`. -/
def upTo (id : Nat) : List (Event Method Data) → List (Event Method Data)
  | [] => []
  | head :: rest => if head.id = id then [head] else head :: upTo id rest

/-! ### The priority scan -/

theorem insertByPriority_perm (event : Event Method Data) (priority : Int) :
    ∀ list : List (Event Method Data), (insertByPriority event priority list).Perm (event :: list)
  | [] => .refl _
  | head :: rest => by
      rw [insertByPriority]
      split_ifs with greater
      · exact .refl _
      · exact ((insertByPriority_perm event priority rest).cons head).trans (.swap event head rest)

@[simp] theorem mem_insertByPriority {event other : Event Method Data} {priority : Int}
    {list : List (Event Method Data)} :
    other ∈ insertByPriority event priority list ↔ other = event ∨ other ∈ list := by
  rw [(insertByPriority_perm event priority list).mem_iff, List.mem_cons]

/-! ### The iterator -/

theorem upTo_append_of_rest? {id : Nat} : ∀ {list rest : List (Event Method Data)},
    rest? id list = some rest → list = upTo id list ++ rest
  | head :: tail, rest, found => by
      rw [rest?] at found
      rw [upTo]
      split_ifs at found ⊢ with here
      · cases found
        rfl
      · rw [List.cons_append, ← upTo_append_of_rest? found]

variable {event : Event Method Data}

theorem rest?_of_split {front back : List (Event Method Data)}
    (absent : ∀ other ∈ front, other.id ≠ event.id) : rest? event.id (front ++ event :: back) = some back := by
  induction front with
  | nil => simp [rest?]
  | cons head tail ih =>
    rw [List.cons_append, rest?, if_neg (absent head (List.mem_cons_self ..))]
    exact ih fun other member => absent other (List.mem_cons_of_mem _ member)

/-! ### Insertion and removal beside the iterator -/

section Insertion

variable {event : Event Method Data} {priority : Int} {id : Nat}

/-- **Behind the node**: no event up to the node has a greater priority. -/
theorem rest?_insertByPriority_of_le (other : event.id ≠ id) :
    ∀ {list rest : List (Event Method Data)}, rest? id list = some rest →
      (∀ earlier ∈ upTo id list, earlier.priority ≤ priority) →
      rest? id (insertByPriority event priority list) = some (insertByPriority event priority rest) ∧
        upTo id (insertByPriority event priority list) = upTo id list
  | head :: tail, rest, found, bound => by
      rw [rest?] at found
      rw [upTo] at bound ⊢
      split_ifs at found bound ⊢ with here
      · cases found
        rw [insertByPriority, if_neg (not_lt.mpr (bound head (by simp))), rest?, if_pos here, upTo, if_pos here]
        exact ⟨rfl, rfl⟩
      · rw [insertByPriority, if_neg (not_lt.mpr (bound head (by simp))), rest?, if_neg here, upTo, if_neg here]
        obtain ⟨behind, before⟩ := rest?_insertByPriority_of_le other found
          fun earlier member => bound earlier (List.mem_cons_of_mem _ member)
        exact ⟨behind, by rw [before]⟩

/-- **In front of the node**: some event up to the node has a greater priority. -/
theorem rest?_insertByPriority_of_lt (other : event.id ≠ id) :
    ∀ {list rest : List (Event Method Data)}, rest? id list = some rest →
      (∃ earlier ∈ upTo id list, priority < earlier.priority) →
      rest? id (insertByPriority event priority list) = some rest
  | head :: tail, rest, found, ⟨earlier, member, greater⟩ => by
      by_cases above : head.priority > priority
      · rw [insertByPriority, if_pos above, rest?, if_neg other]
        exact found
      · rw [insertByPriority, if_neg above]
        rw [rest?] at found ⊢
        rw [upTo] at member
        split_ifs at found member ⊢ with here
        · rw [List.mem_singleton] at member
          rw [member] at greater
          exact absurd greater above
        · rcases List.mem_cons.mp member with rfl | later
          · exact absurd greater above
          · exact rest?_insertByPriority_of_lt other found ⟨earlier, later, greater⟩

end Insertion

/-- **Removing another event** leaves the node in place. -/
theorem rest?_eraseP {id removed : Nat} (other : removed ≠ id) :
    ∀ {list rest : List (Event Method Data)}, (list.map Event.id).Nodup → rest? id list = some rest →
      rest? id (list.eraseP (·.id = removed)) = some (rest.eraseP (·.id = removed)) ∧
        ∀ event ∈ upTo id (list.eraseP (·.id = removed)), event ∈ upTo id list
  | head :: tail, rest, distinct, found => by
      rw [List.map_cons, List.nodup_cons] at distinct
      rw [rest?] at found
      by_cases same : head.id = removed
      · rw [List.eraseP_cons_of_pos (by simpa using same)]
        have notHere : head.id ≠ id := fun here => other (same.symm.trans here)
        rw [if_neg notHere] at found
        have absent : ∀ event ∈ rest, ¬ event.id = removed := by
          intro event member equal
          have inTail : event ∈ tail := by
            rw [upTo_append_of_rest? found]
            exact List.mem_append_right _ member
          exact distinct.1 (same.trans equal.symm ▸ List.mem_map_of_mem inTail)
        rw [List.eraseP_of_forall_not (by simpa using absent), upTo, if_neg notHere]
        exact ⟨found, fun event member => List.mem_cons_of_mem _ member⟩
      · rw [List.eraseP_cons_of_neg (by simpa using same), rest?, upTo, upTo]
        split_ifs at found ⊢ with here
        · cases found
          exact ⟨rfl, fun event member => member⟩
        · obtain ⟨behind, before⟩ := rest?_eraseP other distinct.2 found
          refine ⟨behind, fun event member => ?_⟩
          rcases List.mem_cons.mp member with rfl | later
          · exact List.mem_cons_self ..
          · exact List.mem_cons_of_mem _ (before event later)

/-! ### The lists after one operation -/

namespace EventQueue

/-- The event as it is put into a list. -/
def stored (queue : EventQueue Method Data) (event : Event Method Data) (when : Nat) : Event Method Data :=
  { event with id := queue.nextId, cycle := when }

theorem eventList_insertEvent (queue : EventQueue Method Data) (event : Event Method Data)
    (when query : Nat) (priority : Int) :
    (queue.insertEvent event when priority).eventList query =
      if query = when then
        insertByPriority (queue.stored event when) priority (queue.eventList when)
      else queue.eventList query := by
  unfold eventList insertEvent
  cases found : queue.eventMap.find? when with
  | none =>
    simp only [SortedMap.find?_insert]
    split_ifs <;> rfl
  | some list =>
    simp only [SortedMap.find?_insert]
    split_ifs <;> rfl

theorem eventList_removeEvent (queue : EventQueue Method Data) (id when query : Nat) :
    (queue.removeEvent id when).1.eventList query =
      if query = when then (queue.eventList when).eraseP (·.id = id) else queue.eventList query := by
  unfold eventList removeEvent
  cases found : queue.eventMap.find? when with
  | none =>
    split_ifs with same
    · subst same
      simp [found]
    · rfl
  | some list =>
    by_cases present : list.any (·.id = id)
    · simp only [present, if_true]
      split_ifs with empty same same
      · simp only [SortedMap.find?_erase, same, if_true, Option.getD_none, Option.getD_some]
        exact (List.isEmpty_iff.mp empty).symm
      · simp [SortedMap.find?_erase, same]
      · subst same
        simp
      · simp [SortedMap.find?_insert, same]
    · have untouched : list.eraseP (·.id = id) = list :=
        List.eraseP_of_forall_not (by simpa using present)
      simp only [present, Bool.false_eq_true, if_false, Option.getD_some]
      split_ifs with same
      · subst same
        simp [found, untouched]
      · rfl

theorem removeEvent_found (queue : EventQueue Method Data) (id when : Nat) :
    (queue.removeEvent id when).2 = true ↔ ∃ event ∈ queue.eventList when, event.id = id := by
  unfold eventList removeEvent
  cases found : queue.eventMap.find? when with
  | none => simp
  | some list => simp

@[simp] theorem insertEvent_currentCycle (queue : EventQueue Method Data)
    (event : Event Method Data) (when : Nat) (priority : Int) :
    (queue.insertEvent event when priority).currentCycle = queue.currentCycle := rfl

@[simp] theorem insertEvent_nextId (queue : EventQueue Method Data) (event : Event Method Data)
    (when : Nat) (priority : Int) : (queue.insertEvent event when priority).nextId = queue.nextId + 1 := rfl

@[simp] theorem removeEvent_currentCycle (queue : EventQueue Method Data) (id when : Nat) :
    (queue.removeEvent id when).1.currentCycle = queue.currentCycle := by
  unfold removeEvent
  split <;> rfl

@[simp] theorem removeEvent_nextId (queue : EventQueue Method Data) (id when : Nat) :
    (queue.removeEvent id when).1.nextId = queue.nextId := by
  unfold removeEvent
  split <;> rfl

/-! ### The invariant -/

/-- `next` is the first cycle with an event, or the sentinel. -/
structure IsNext (queue : EventQueue Method Data) (next : Nat) : Prop where
  least : ∀ when, ∀ event ∈ queue.eventList when, next ≤ when
  attained : next = maxCycle ∨ ∃ event, event ∈ queue.eventList next

/-- **The invariant of the queue.** -/
structure WellFormed (queue : EventQueue Method Data) : Prop where
  /-- No list of the map is empty. -/
  listed : ∀ when, queue.eventMap.find? when ≠ some []
  /-- An event is in the list of its cycle. -/
  keyed : ∀ when, ∀ event ∈ queue.eventList when, event.cycle = when
  /-- Ids have been drawn. -/
  drawn : ∀ when, ∀ event ∈ queue.eventList when, event.id < queue.nextId
  /-- Ids are distinct within a list. -/
  distinct : ∀ when, ((queue.eventList when).map Event.id).Nodup
  /-- Ids are distinct across lists. -/
  apart : ∀ when, ∀ event ∈ queue.eventList when, ∀ when', ∀ event' ∈ queue.eventList when',
    event.id = event'.id → when = when'
  /-- The clock fits. -/
  clock : queue.currentCycle ≤ maxCycle
  /-- No event is in the past, or past the last cycle. -/
  timely : ∀ when, ∀ event ∈ queue.eventList when, queue.currentCycle ≤ when ∧ when ≤ maxCycle
  next : queue.IsNext queue.nextEventCycle

variable {queue : EventQueue Method Data}

theorem find?_of_mem {when : Nat}
    (member : event ∈ queue.eventList when) : queue.eventMap.find? when = some (queue.eventList when) := by
  unfold eventList at member ⊢
  cases found : queue.eventMap.find? when with
  | none => simp [found] at member
  | some list => rfl

theorem isNext_firstCycle (listed : ∀ when, queue.eventMap.find? when ≠ some []) :
    queue.IsNext (firstCycle queue.eventMap) := by
  unfold firstCycle
  cases least : queue.eventMap.minKey? with
  | none =>
    have absent := (SortedMap.minKey?_eq_none_iff _).mp least
    refine ⟨fun when event member => ?_, Or.inl rfl⟩
    rw [eventList, absent when] at member
    simp at member
  | some key =>
    obtain ⟨found, below⟩ := (SortedMap.minKey?_eq_some_iff _ _).mp least
    refine ⟨fun when event member => below when (by rw [find?_of_mem member]; simp), Or.inr ?_⟩
    obtain ⟨list, stored⟩ := Option.ne_none_iff_exists'.mp found
    have some : list ≠ [] := fun empty => listed key (by rw [stored, empty])
    rw [Option.getD_some, eventList, stored, Option.getD_some]
    exact List.exists_mem_of_ne_nil list some

theorem WellFormed.next_le_maxCycle (wf : queue.WellFormed) : queue.nextEventCycle ≤ maxCycle := by
  rcases wf.next.attained with sentinel | ⟨event, member⟩
  · exact le_of_eq sentinel
  · exact (wf.timely _ event member).2

theorem create_wellFormed : (create : EventQueue Method Data).WellFormed where
  listed := by simp [create]
  keyed := by simp [create, eventList]
  drawn := by simp [create, eventList]
  distinct := by simp [create, eventList]
  apart := by simp [create, eventList]
  clock := Nat.zero_le _
  timely := by simp [create, eventList]
  next := ⟨by simp [create, eventList], Or.inl rfl⟩

/-! ### InsertEvent and RemoveEvent keep it -/

variable {other : Event Method Data}

section Insert

variable {queue : EventQueue Method Data} {event : Event Method Data} {when : Nat} {priority : Int}

theorem mem_eventList_insertEvent {query : Nat} : other ∈ (queue.insertEvent event when priority).eventList query ↔
      (query = when ∧ other = queue.stored event when) ∨ other ∈ queue.eventList query := by
  rw [eventList_insertEvent]
  split_ifs with same
  · subst same
    simp
  · simp [same]

theorem insertEvent_isNext (next : queue.IsNext queue.nextEventCycle) :
    (queue.insertEvent event when priority).IsNext (queue.insertEvent event when priority).nextEventCycle := by
  have atWhen : queue.stored event when ∈ (queue.insertEvent event when priority).eventList when :=
    mem_eventList_insertEvent.mpr (Or.inl ⟨rfl, rfl⟩)
  show (queue.insertEvent event when priority).IsNext
    (if when < queue.nextEventCycle then when else queue.nextEventCycle)
  refine ⟨fun query other member => ?_, ?_⟩
  · rcases mem_eventList_insertEvent.mp member with ⟨rfl, _⟩ | old
    · split_ifs <;> omega
    · have := next.least query other old
      split_ifs <;> omega
  · split_ifs with earlier
    · exact Or.inr ⟨_, atWhen⟩
    · rcases next.attained with sentinel | ⟨other, old⟩
      · exact Or.inl sentinel
      · exact Or.inr ⟨other, mem_eventList_insertEvent.mpr (Or.inr old)⟩

/-- **`InsertEvent` keeps the invariant**, for a cycle that is not in the past. -/
theorem insertEvent_wellFormed (wf : queue.WellFormed) (future : queue.currentCycle ≤ when)
    (bounded : when ≤ maxCycle) : (queue.insertEvent event when priority).WellFormed where
  listed query := by
    unfold insertEvent
    cases found : queue.eventMap.find? when with
    | none =>
      simp only [SortedMap.find?_insert]
      split_ifs
      · simp
      · exact wf.listed query
    | some list =>
      simp only [SortedMap.find?_insert]
      split_ifs
      · have member : queue.stored event when ∈
            insertByPriority (queue.stored event when) priority list :=
          mem_insertByPriority.mpr (Or.inl rfl)
        intro empty
        rw [stored, Option.some.inj empty] at member
        simp at member
      · exact wf.listed query
  keyed query other member := by
    rcases mem_eventList_insertEvent.mp member with ⟨rfl, rfl⟩ | old
    · rfl
    · exact wf.keyed query other old
  drawn query other member := by
    rw [insertEvent_nextId]
    rcases mem_eventList_insertEvent.mp member with ⟨rfl, rfl⟩ | old
    · exact Nat.lt_succ_self _
    · exact Nat.lt_succ_of_lt (wf.drawn query other old)
  distinct query := by
    rw [eventList_insertEvent]
    split_ifs with same
    · subst same
      rw [((insertByPriority_perm _ priority _).map Event.id).nodup_iff, List.map_cons, List.nodup_cons]
      refine ⟨fun member => ?_, wf.distinct query⟩
      obtain ⟨other, old, sameId⟩ := List.mem_map.mp member
      exact absurd sameId (Nat.ne_of_lt (wf.drawn query other old))
    · exact wf.distinct query
  apart query other member query' other' member' same := by
    rcases mem_eventList_insertEvent.mp member with ⟨rfl, rfl⟩ | old <;>
      rcases mem_eventList_insertEvent.mp member' with ⟨rfl, rfl⟩ | old'
    · rfl
    · exact absurd same (Nat.ne_of_gt (wf.drawn query' other' old'))
    · exact absurd same (Nat.ne_of_lt (wf.drawn query other old))
    · exact wf.apart query other old query' other' old' same
  clock := wf.clock
  timely query other member := by
    rw [insertEvent_currentCycle]
    rcases mem_eventList_insertEvent.mp member with ⟨rfl, _⟩ | old
    · exact ⟨future, bounded⟩
    · exact wf.timely query other old
  next := insertEvent_isNext wf.next

end Insert

section Remove

variable {queue : EventQueue Method Data} {id when : Nat}

theorem mem_of_mem_removeEvent {query : Nat}
    (member : other ∈ (queue.removeEvent id when).1.eventList query) : other ∈ queue.eventList query := by
  rw [eventList_removeEvent] at member
  split_ifs at member with same
  · subst same
    exact List.mem_of_mem_eraseP member
  · exact member

theorem mem_removeEvent_of_ne {query : Nat} (member : other ∈ queue.eventList query) (different : other.id ≠ id) :
    other ∈ (queue.removeEvent id when).1.eventList query := by
  rw [eventList_removeEvent]
  split_ifs with same
  · subst same
    exact (List.mem_eraseP_of_neg (by simpa using different)).mpr member
  · exact member

theorem removeEvent_listed (listed : ∀ query, queue.eventMap.find? query ≠ some []) (query : Nat) :
    (queue.removeEvent id when).1.eventMap.find? query ≠ some [] := by
  unfold removeEvent
  cases found : queue.eventMap.find? when with
  | none => exact listed query
  | some list =>
    simp only
    split_ifs with present empty
    · rw [SortedMap.find?_erase]
      split_ifs
      · simp
      · exact listed query
    · rw [SortedMap.find?_insert]
      split_ifs
      · exact fun same => empty (List.isEmpty_iff.mpr (Option.some.inj same))
      · exact listed query
    · exact listed query

theorem removeEvent_isNext (wf : queue.WellFormed) :
    (queue.removeEvent id when).1.IsNext (queue.removeEvent id when).1.nextEventCycle := by
  cases found : queue.eventMap.find? when with
  | none =>
    have same : (queue.removeEvent id when).1 = queue := by
      unfold removeEvent
      rw [found]
    rw [same]
    exact wf.next
  | some list =>
    have first : (queue.removeEvent id when).1.nextEventCycle = firstCycle (queue.removeEvent id when).1.eventMap := by
      unfold removeEvent
      rw [found]
    rw [first]
    exact isNext_firstCycle (removeEvent_listed wf.listed)

/-- **`RemoveEvent` keeps the invariant.** -/
theorem removeEvent_wellFormed (wf : queue.WellFormed) : (queue.removeEvent id when).1.WellFormed where
  listed := removeEvent_listed wf.listed
  keyed query other member := wf.keyed query other (mem_of_mem_removeEvent member)
  drawn query other member := by
    rw [removeEvent_nextId]
    exact wf.drawn query other (mem_of_mem_removeEvent member)
  distinct query := by
    rw [eventList_removeEvent]
    split_ifs with same
    · subst same
      exact (wf.distinct query).sublist (List.eraseP_sublist.map Event.id)
    · exact wf.distinct query
  apart query other member query' other' member' same :=
    wf.apart query other (mem_of_mem_removeEvent member) query' other' (mem_of_mem_removeEvent member') same
  clock := by
    rw [removeEvent_currentCycle]
    exact wf.clock
  timely query other member := by
    rw [removeEvent_currentCycle]
    exact wf.timely query other (mem_of_mem_removeEvent member)
  next := removeEvent_isNext wf

end Remove

/-! ### Sequences of operations -/

/-- An operation inserts no event in the past. -/
def TimelyOp (queue : EventQueue Method Data) (op : QueueOp Method Data) : Prop :=
  ∀ event when priority, op.insertion = some (event, when, priority) → queue.currentCycle ≤ when ∧ when ≤ maxCycle

instance (queue : EventQueue Method Data) (op : QueueOp Method Data) : Decidable (queue.TimelyOp op) :=
  decidable_of_iff
    (∀ insertion ∈ op.insertion, queue.currentCycle ≤ insertion.2.1 ∧ insertion.2.1 ≤ maxCycle)
    ⟨fun all event when priority inserts => all (event, when, priority) inserts,
      fun timely insertion inserts => timely insertion.1 insertion.2.1 insertion.2.2 inserts⟩

theorem apply_of_insertion {op : QueueOp Method Data}
    {when : Nat} {priority : Int} (inserts : op.insertion = some (event, when, priority)) :
    op.apply queue = queue.insertEvent event when priority := by
  cases op with
  | remove id when => cases inserts
  | insert _ _ _ | insertFor _ _ _ _ _ _ | insertCallback _ _ _ _ _ =>
    cases inserts
    rfl

theorem apply_currentCycle (queue : EventQueue Method Data) (op : QueueOp Method Data) :
    (op.apply queue).currentCycle = queue.currentCycle := by
  cases op with
  | remove id when => exact removeEvent_currentCycle queue id when
  | insert _ _ _ | insertFor _ _ _ _ _ _ | insertCallback _ _ _ _ _ => rfl

theorem TimelyOp.apply {later : QueueOp Method Data}
    (timely : queue.TimelyOp later) (op : QueueOp Method Data) : (op.apply queue).TimelyOp later := by
  unfold TimelyOp at timely ⊢
  rwa [apply_currentCycle]

theorem apply_wellFormed {op : QueueOp Method Data}
    (wf : queue.WellFormed) (timely : queue.TimelyOp op) : (op.apply queue).WellFormed := by
  cases inserts : op.insertion with
  | some insertion =>
    obtain ⟨event, when, priority⟩ := insertion
    obtain ⟨future, bounded⟩ := timely event when priority inserts
    rw [apply_of_insertion inserts]
    exact insertEvent_wellFormed wf future bounded
  | none =>
    cases op with
    | remove id when => exact removeEvent_wellFormed wf
    | insert _ _ _ | insertFor _ _ _ _ _ _ | insertCallback _ _ _ _ _ => cases inserts

theorem applyOps_currentCycle (queue : EventQueue Method Data) (ops : List (QueueOp Method Data)) :
    (queue.applyOps ops).currentCycle = queue.currentCycle := by
  induction ops generalizing queue with
  | nil => rfl
  | cons op rest ih => exact (ih (op.apply queue)).trans (apply_currentCycle queue op)

theorem applyOps_wellFormed {ops : List (QueueOp Method Data)}
    (wf : queue.WellFormed) (timely : ∀ op ∈ ops, queue.TimelyOp op) : (queue.applyOps ops).WellFormed := by
  induction ops generalizing queue with
  | nil => exact wf
  | cons op rest ih =>
    exact ih (apply_wellFormed wf (timely op (List.mem_cons_self ..))) fun later member =>
      (timely later (List.mem_cons_of_mem _ member)).apply op

end EventQueue

end Emas.Nvmain

/-
**A message buffer is a bounded priority queue.**

Runs of enqueues, dequeues, recycles, stalls and reanalyses at times that never go back, with the contents that went in
and came out.
-/

import Emas.Lib.PartialRun
import Emas.Ruby.MessageBuffer
import Mathlib.Data.ENat.Basic

namespace Emas.Ruby

open Gem5

namespace MessageBuffer

variable {μ : Type} {settings : BufferSettings} {buf next : MessageBuffer μ}

/-- The messages that are stalled, of all addresses. -/
def stalled (buf : MessageBuffer μ) : List (Message μ) := buf.stallMsgMap.entries.flatMap Prod.snd

/-- All messages of the buffer. -/
def held (buf : MessageBuffer μ) : List (Message μ) := buf.prioHeap ++ buf.stalled

/-- What a message keeps while it is in the buffer. -/
def identities (buf : MessageBuffer μ) : List (μ × Nat) := buf.held.map fun m => (m.content, m.msgCounter)

/-! ### The stall map -/

theorem flatMap_insert_perm (map : SortedMap Addr (List (Message μ))) (addr : Addr) (message : Message μ) :
    ((map.insert addr ((map.find? addr).getD [] ++ [message])).entries.flatMap Prod.snd).Perm
      (message :: map.entries.flatMap Prod.snd) := by
  refine ((map.entries_insert_perm addr _).flatMap_right Prod.snd).trans ?_
  rw [List.flatMap_cons]
  cases found : map.find? addr with
  | none =>
    rw [SortedMap.entries_erase_of_none found]
    exact .refl _
  | some stalled =>
    have parts := (SortedMap.entries_perm_erase found).flatMap_right Prod.snd
    rw [List.flatMap_cons] at parts
    refine .trans ?_ (parts.symm.cons message)
    rw [Option.getD_some, List.append_assoc]
    exact List.perm_middle

theorem flatMap_erase_perm {map : SortedMap Addr (List (Message μ))} {addr : Addr} {stalled : List (Message μ)}
    (found : map.find? addr = some stalled) :
    (map.entries.flatMap Prod.snd).Perm (stalled ++ (map.erase addr).entries.flatMap Prod.snd) := by
  have parts := (SortedMap.entries_perm_erase found).flatMap_right Prod.snd
  rwa [List.flatMap_cons] at parts

/-! ### What the calls do -/

theorem reanalyzeList_ok {heap heap' lt : List (Message μ)} {time : Nat}
    (done : reanalyzeList heap lt time = .ok heap') :
    heap'.Perm (lt ++ heap) ∧ (FrontLeast Message.key heap → FrontLeast Message.key heap') := by
  induction lt generalizing heap with
  | nil =>
    cases done
    exact ⟨.refl _, id⟩
  | cons m rest ih =>
    rw [reanalyzeList, List.foldlM_cons] at done
    by_cases early : m.lastEnqueueTime ≤ time
    · rw [if_neg (not_not_intro early)] at done
      obtain ⟨moved, least⟩ := ih done
      refine ⟨?_, fun front => least (front.pushHeap m)⟩
      exact moved.trans (((pushHeap_perm heap m).append_left rest).trans List.perm_middle)
    · rw [if_pos early] at done
      exact nomatch done

theorem reanalyzeEntries_ok {time : Nat} {entries : List (Addr × List (Message μ))} {heap heap' : List (Message μ)}
    {size size' : Int} (done : reanalyzeEntries time entries (heap, size) = .ok (heap', size')) :
    heap'.Perm (entries.flatMap Prod.snd ++ heap) ∧ size' = size - (entries.flatMap Prod.snd).length ∧
      (FrontLeast Message.key heap → FrontLeast Message.key heap') := by
  induction entries generalizing heap size with
  | nil =>
    cases done
    exact ⟨.refl _, by simp, id⟩
  | cons entry rest ih =>
    obtain ⟨addr, stalled⟩ := entry
    rw [reanalyzeEntries] at done
    split at done
    · exact nomatch done
    · cases listed : reanalyzeList heap stalled time with
      | error failure => rw [listed] at done; exact nomatch done
      | ok middle =>
        rw [listed] at done
        obtain ⟨first, leastFirst⟩ := reanalyzeList_ok listed
        obtain ⟨moved, counted, least⟩ := ih done
        refine ⟨?_, ?_, fun front => least (leastFirst front)⟩
        · refine moved.trans ((first.append_left _).trans ?_)
          rw [List.flatMap_cons, ← List.append_assoc]
          exact List.perm_append_comm.append_right heap
        · rw [counted, List.flatMap_cons, List.length_append]
          push_cast
          omega

theorem enqueue_ok {message : Message μ} {time delta randomTime : Nat}
    (done : buf.enqueue settings message time delta randomTime = .ok next) :
    ∃ m last, m.content = message.content ∧ m.msgCounter = buf.msgCounter + 1 ∧
      next = { buf.countEnqueue time with lastArrivalTime := last, prioHeap := pushHeap Message.key buf.prioHeap m } := by
  have heap : (buf.countEnqueue time).prioHeap = buf.prioHeap := by rw [countEnqueue]; split <;> rfl
  have counter : (buf.countEnqueue time).msgCounter = buf.msgCounter + 1 := by rw [countEnqueue]; split <;> rfl
  simp only [enqueue] at done
  split_ifs at done
  all_goals
    cases done
    exact ⟨{ message.updateDelayedTicks time with
      lastEnqueueTime := buf.arrivalTime settings time delta randomTime
      msgCounter := (buf.countEnqueue time).msgCounter }, _, rfl, counter, by rw [heap]⟩

theorem dequeue_ok {time : Nat} {message : Message μ} (done : buf.dequeue time = .ok (message, next)) :
    ∃ front rest, buf.prioHeap = front :: rest ∧ front.lastEnqueueTime ≤ time ∧
      message = front.updateDelayedTicks time ∧
      next = { buf.recordSizes time with prioHeap := popHeap Message.key buf.prioHeap } := by
  rw [dequeue] at done
  split at done
  · exact nomatch done
  next front rest heap =>
    split at done
    · exact nomatch done
    next early =>
      cases done
      exact ⟨front, rest, heap, not_not.mp early, rfl, rfl⟩

theorem recycle_ok {time latency : Nat} (done : buf.recycle time latency = .ok next) :
    ∃ node rest, buf.prioHeap = node :: rest ∧ next = { buf with
      prioHeap := pushHeap Message.key (popHeap Message.key buf.prioHeap)
        { node with lastEnqueueTime := time + latency } } := by
  rw [recycle] at done
  split at done
  · exact nomatch done
  next node rest heap =>
    split at done
    · exact nomatch done
    · cases done
      exact ⟨node, rest, heap, rfl⟩

theorem stallMessage_ok {addr : Addr} {time : Nat} (done : buf.stallMessage settings addr time = .ok next) :
    ∃ message rest, buf.dequeue time = .ok (message, rest) ∧ next = { rest with
      stallMsgMap := rest.stallMsgMap.insert addr ((rest.stallMsgMap.find? addr).getD [] ++ [message])
      stallMapSize := rest.stallMapSize + 1 } := by
  rw [stallMessage] at done
  split at done
  · exact nomatch done
  · split at done
    · exact nomatch done
    next message rest popped =>
      cases done
      exact ⟨message, rest, popped, rfl⟩

theorem reanalyzeMessages_ok {addr : Addr} {time : Nat} (done : buf.reanalyzeMessages addr time = .ok next) :
    ∃ stalled heap, buf.stallMsgMap.find? addr = some stalled ∧
      reanalyzeList buf.prioHeap stalled time = .ok heap ∧ next = { buf with
        prioHeap := heap
        stallMsgMap := buf.stallMsgMap.erase addr
        stallMapSize := buf.stallMapSize - stalled.length } := by
  rw [reanalyzeMessages] at done
  split at done
  · exact nomatch done
  next stalled found =>
    dsimp only at done
    split at done
    · exact nomatch done
    · cases listed : reanalyzeList buf.prioHeap stalled time with
      | error failure => rw [listed] at done; exact nomatch done
      | ok heap =>
        rw [listed] at done
        cases done
        exact ⟨stalled, heap, found, listed, rfl⟩

theorem reanalyzeAllMessages_ok {time : Nat} (done : buf.reanalyzeAllMessages time = .ok next) :
    ∃ heap size, reanalyzeEntries time buf.stallMsgMap.entries (buf.prioHeap, buf.stallMapSize) = .ok (heap, size) ∧
      next = { buf with prioHeap := heap, stallMsgMap := .empty, stallMapSize := size } := by
  rw [reanalyzeAllMessages] at done
  cases entries : reanalyzeEntries time buf.stallMsgMap.entries (buf.prioHeap, buf.stallMapSize) with
  | error failure => rw [entries] at done; exact nomatch done
  | ok result =>
    rw [entries] at done
    cases done
    exact ⟨result.1, result.2, rfl, rfl⟩

/-! ### Calls that keep the messages -/

/-- The messages and their order after a call that keeps all of them. -/
structure Same (buf next : MessageBuffer μ) : Prop where
  identities : next.identities.Perm buf.identities
  counted : buf.stallMapSize = buf.stalled.length → next.stallMapSize = next.stalled.length
  front : FrontLeast Message.key buf.prioHeap → FrontLeast Message.key next.prioHeap
  msgCounter : next.msgCounter = buf.msgCounter

theorem Same.length (same : Same buf next) : next.held.length = buf.held.length := by
  have lengths := same.identities.length_eq
  rwa [MessageBuffer.identities, MessageBuffer.identities, List.length_map, List.length_map] at lengths

theorem heap_perm {front : Message μ} {rest : List (Message μ)} (heap : buf.prioHeap = front :: rest) :
    buf.prioHeap.Perm (front :: popHeap Message.key buf.prioHeap) := by
  rw [heap]
  exact (popHeap_perm front rest).symm.cons front

theorem same_recycle {time latency : Nat} (done : buf.recycle time latency = .ok next) : Same buf next := by
  obtain ⟨node, rest, heap, rfl⟩ := recycle_ok done
  refine ⟨?_, id, fun _ => (frontLeast_popHeap _).pushHeap _, rfl⟩
  refine .trans (((pushHeap_perm _ _).append_right _).map _) ?_
  exact ((heap_perm heap).symm.append_right buf.stalled).map fun m => (m.content, m.msgCounter)

theorem same_stallMessage {addr : Addr} {time : Nat} (done : buf.stallMessage settings addr time = .ok next) :
    Same buf next := by
  obtain ⟨message, popped, dequeued, rfl⟩ := stallMessage_ok done
  obtain ⟨front, rest, heap, -, rfl, rfl⟩ := dequeue_ok dequeued
  have map : (buf.recordSizes time).stallMsgMap = buf.stallMsgMap := by rw [recordSizes]; split <;> rfl
  have size : (buf.recordSizes time).stallMapSize = buf.stallMapSize := by rw [recordSizes]; split <;> rfl
  have counter : (buf.recordSizes time).msgCounter = buf.msgCounter := by rw [recordSizes]; split <;> rfl
  have moved := flatMap_insert_perm buf.stallMsgMap addr (front.updateDelayedTicks time)
  refine ⟨?_, fun counted => ?_, fun _ => frontLeast_popHeap _, counter⟩
  · simp only [identities, held, stalled, map]
    refine .trans ((moved.append_left _).map _) ?_
    refine .trans (List.perm_middle.map _) ?_
    exact ((heap_perm heap).symm.append_right buf.stalled).map fun m => (m.content, m.msgCounter)
  · simp only [stalled, map, size, counted]
    rw [moved.length_eq]
    rfl

theorem same_reanalyzeMessages {addr : Addr} {time : Nat} (done : buf.reanalyzeMessages addr time = .ok next) :
    Same buf next := by
  obtain ⟨waiting, heap, found, listed, rfl⟩ := reanalyzeMessages_ok done
  obtain ⟨moved, least⟩ := reanalyzeList_ok listed
  have parts := flatMap_erase_perm found
  refine ⟨List.Perm.map _ ?_, fun counted => ?_, least, rfl⟩
  · refine (moved.append_right _).trans (.trans ?_ ((parts.symm.append_left buf.prioHeap)))
    rw [← List.append_assoc]
    exact List.perm_append_comm.append_right _
  · simp only [stalled, counted]
    rw [parts.length_eq, List.length_append]
    push_cast
    omega

theorem same_reanalyzeAllMessages {time : Nat} (done : buf.reanalyzeAllMessages time = .ok next) : Same buf next := by
  obtain ⟨heap, size, entries, rfl⟩ := reanalyzeAllMessages_ok done
  obtain ⟨moved, counted, least⟩ := reanalyzeEntries_ok entries
  refine ⟨List.Perm.map _ ?_, fun before => ?_, least, rfl⟩
  · refine .trans ?_ (moved.trans List.perm_append_comm)
    simp [held, stalled, SortedMap.empty]
  · rw [counted, before]
    simp [stalled, SortedMap.empty]

/-! ### The visible size -/

/-- The visible size of the cycle of a pop. -/
def snapshotSize (buf : MessageBuffer μ) (time : Nat) : Nat :=
  (if buf.timeLastTimeEnqueue < time then buf.sizeAtCycleStart else buf.sizeAtCycleStart + buf.msgsThisCycle) +
    buf.stalledAtCycleStart

/-- At a time, the messages fit into what is visible of them, and the sizes are those of the cycle once it has a pop. -/
structure Visible (buf : MessageBuffer μ) (time : Nat) : Prop where
  counted : buf.stallMapSize = buf.stalled.length
  enqueueTime : buf.timeLastTimeEnqueue ≤ time
  popTime : buf.timeLastTimePop ≤ time
  snapshot : buf.timeLastTimePop = time → buf.held.length ≤ buf.snapshotSize time

namespace Visible

variable {time : Nat}

theorem length_le (visible : buf.Visible time) : buf.held.length ≤ buf.visibleSize time := by
  rw [visibleSize]
  split
  next => rw [held, List.length_append, visible.counted, Int.toNat_natCast]
  next popped => exact visible.snapshot (Nat.le_antisymm visible.popTime (Nat.le_of_not_lt popped))

theorem advance (visible : buf.Visible time) {later : Nat} (order : time ≤ later) : buf.Visible later where
  counted := visible.counted
  enqueueTime := visible.enqueueTime.trans order
  popTime := visible.popTime.trans order
  snapshot popped := by
    obtain rfl : time = later := Nat.le_antisymm order (popped ▸ visible.popTime)
    exact visible.snapshot popped

/-- **The first pop of a cycle takes the sizes down**, so that no pop is visible in its cycle. -/
theorem recordSizes (visible : buf.Visible time) : (buf.recordSizes time).timeLastTimePop = time ∧
    (buf.recordSizes time).timeLastTimeEnqueue = buf.timeLastTimeEnqueue ∧
    buf.held.length ≤ (buf.recordSizes time).snapshotSize time := by
  rw [MessageBuffer.recordSizes]
  split
  next =>
    refine ⟨rfl, rfl, ?_⟩
    have length : buf.held.length = buf.prioHeap.length + buf.stalled.length := List.length_append
    simp only [snapshotSize, visible.counted, Int.toNat_natCast]
    split <;> omega
  next popped =>
    have here := Nat.le_antisymm visible.popTime (Nat.le_of_not_lt popped)
    exact ⟨here, rfl, visible.snapshot here⟩

theorem same (visible : buf.Visible time) (kept : Same buf next)
    (enqueue : next.timeLastTimeEnqueue = buf.timeLastTimeEnqueue) (pop : next.timeLastTimePop = buf.timeLastTimePop)
    (sizes : next.snapshotSize time = buf.snapshotSize time) : next.Visible time where
  counted := kept.counted visible.counted
  enqueueTime := enqueue ▸ visible.enqueueTime
  popTime := pop ▸ visible.popTime
  snapshot popped := by
    rw [kept.length, sizes]
    exact visible.snapshot (pop ▸ popped)

/-- **An enqueue is visible at once.** -/
theorem enqueue (visible : buf.Visible time) {m : Message μ} {last : Nat}
    (done : next = { buf.countEnqueue time with
      lastArrivalTime := last, prioHeap := pushHeap Message.key buf.prioHeap m }) : next.Visible time := by
  have stalled : next.stalled = buf.stalled := by rw [done, countEnqueue]; split <;> rfl
  have size : next.stallMapSize = buf.stallMapSize := by rw [done, countEnqueue]; split <;> rfl
  have pop : next.timeLastTimePop = buf.timeLastTimePop := by rw [done, countEnqueue]; split <;> rfl
  have heap : next.prioHeap = pushHeap Message.key buf.prioHeap m := by rw [done]
  have time_eq : next.timeLastTimeEnqueue = time := by
    rw [done, countEnqueue]
    split
    next => rfl
    next enqueued => exact Nat.le_antisymm visible.enqueueTime (Nat.le_of_not_lt enqueued)
  have sizes : next.snapshotSize time = buf.snapshotSize time + 1 := by
    rw [snapshotSize, time_eq, if_neg (Nat.lt_irrefl _), snapshotSize, done, countEnqueue]
    split
    next earlier => simp only [Nat.zero_add]; omega
    next => simp only; omega
  refine ⟨by rw [size, stalled, visible.counted], time_eq.le, pop ▸ visible.popTime, fun popped => ?_⟩
  have before := visible.snapshot (pop ▸ popped)
  rw [held, List.length_append] at before
  rw [held, List.length_append, heap, stalled, (pushHeap_perm _ _).length_eq, List.length_cons, sizes]
  omega

theorem dequeue (visible : buf.Visible time) {message : Message μ} (done : buf.dequeue time = .ok (message, next)) :
    next.Visible time := by
  obtain ⟨front, rest, heap, -, -, rfl⟩ := dequeue_ok done
  obtain ⟨pop, enqueue, sizes⟩ := visible.recordSizes
  have map : (buf.recordSizes time).stallMsgMap = buf.stallMsgMap := by rw [MessageBuffer.recordSizes]; split <;> rfl
  have size : (buf.recordSizes time).stallMapSize = buf.stallMapSize := by
    rw [MessageBuffer.recordSizes]; split <;> rfl
  refine ⟨?_, enqueue.trans_le visible.enqueueTime, pop.le, fun _ => Nat.le_trans ?_ sizes⟩
  · rw [size, visible.counted, stalled, stalled, map]
  · have parts := (heap_perm heap).length_eq
    simp only [held, stalled, List.length_append, map]
    rw [List.length_cons] at parts
    omega

theorem stallMessage (visible : buf.Visible time) {addr : Addr}
    (done : buf.stallMessage settings addr time = .ok next) : next.Visible time := by
  have kept := same_stallMessage done
  obtain ⟨message, popped, dequeued, rfl⟩ := stallMessage_ok done
  obtain ⟨front, rest, heap, -, rfl, rfl⟩ := dequeue_ok dequeued
  obtain ⟨pop, enqueue, sizes⟩ := visible.recordSizes
  exact ⟨kept.counted visible.counted, enqueue.trans_le visible.enqueueTime, pop.le, fun _ => kept.length ▸ sizes⟩

end Visible

end MessageBuffer

/-! ### Runs -/

/-- A call on the buffer. -/
inductive BufferCall (μ : Type) where
  | enqueue (message : Message μ) (delta randomTime : Nat)
  | dequeue
  | recycle (latency : Nat)
  | stallMessage (addr : Addr)
  | reanalyzeMessages (addr : Addr)
  | reanalyzeAllMessages

/-- A buffer, the time of its last call, and the contents that went in and came out. -/
structure BufferRun (μ : Type) where
  buf : MessageBuffer μ
  now : Nat
  enqueued : List μ
  dequeued : List μ

namespace BufferRun

variable {μ : Type} {settings : BufferSettings} {run next : BufferRun μ}

/-- The start of a run. -/
def init (μ : Type) : BufferRun μ := ⟨.init μ, 0, [], []⟩

/-- The run goes on with the buffer that a call leaves. -/
def keep (run : BufferRun μ) (time : Nat) (call : Except BufferFailure (MessageBuffer μ)) : Option (BufferRun μ) :=
  call.toOption.map fun buf => { run with buf := buf, now := time }

/-- A call at a time that is not in the past. -/
def act (settings : BufferSettings) (run : BufferRun μ) : Nat × BufferCall μ → Option (BufferRun μ)
  | (time, call) =>
    if time < run.now then none
    else match call with
      | .enqueue message delta randomTime =>
        (run.buf.enqueue settings message time delta randomTime).toOption.map fun buf =>
          { run with buf := buf, now := time, enqueued := message.content :: run.enqueued }
      | .dequeue =>
        (run.buf.dequeue time).toOption.map fun result =>
          { run with buf := result.2, now := time, dequeued := result.1.content :: run.dequeued }
      | .recycle latency => run.keep time (run.buf.recycle time latency)
      | .stallMessage addr => run.keep time (run.buf.stallMessage settings addr time)
      | .reanalyzeMessages addr => run.keep time (run.buf.reanalyzeMessages addr time)
      | .reanalyzeAllMessages => run.keep time (run.buf.reanalyzeAllMessages time)

/-- A message is enqueued only if the buffer says that it has a slot. -/
def Asked (settings : BufferSettings) (run : BufferRun μ) : Nat × BufferCall μ → Prop
  | (time, .enqueue _ _ _) => run.buf.areNSlotsAvailable settings 1 time
  | _ => True

instance (settings : BufferSettings) (run : BufferRun μ) : ∀ action, Decidable (run.Asked settings action)
  | (time, .enqueue _ _ _) => inferInstanceAs (Decidable (run.buf.areNSlotsAvailable settings 1 time = true))
  | (_, .dequeue) | (_, .recycle _) | (_, .stallMessage _) | (_, .reanalyzeMessages _) | (_, .reanalyzeAllMessages) =>
    isTrue trivial

/-- The number of messages that a buffer may hold. A maximum of zero stands for no bound. -/
def capacity (settings : BufferSettings) : ℕ∞ := if settings.maxSize = 0 then ⊤ else settings.maxSize

/-- What holds after every call. -/
structure Inv (run : BufferRun μ) : Prop where
  front : FrontLeast Message.key run.buf.prioHeap
  conserved : run.enqueued.Perm (run.dequeued ++ run.buf.identities.map Prod.fst)
  distinct : (run.buf.identities.map Prod.snd).Nodup
  bounded : ∀ counter ∈ run.buf.identities.map Prod.snd, counter ≤ run.buf.msgCounter
  visible : run.buf.Visible run.now

theorem inv_init : (init μ).Inv where
  front := trivial
  conserved := .refl _
  distinct := .nil
  bounded _ member := nomatch member
  visible := ⟨rfl, le_rfl, le_rfl, fun _ => le_rfl⟩

namespace Inv

open MessageBuffer in
theorem keep (inv : run.Inv) {time : Nat} {call : Except BufferFailure (MessageBuffer μ)}
    (same : ∀ buf, call = .ok buf → Same run.buf buf ∧ buf.Visible time)
    (done : run.keep time call = some next) : next.Inv := by
  obtain ⟨buf, called, rfl⟩ := Option.map_eq_some_iff.mp done
  obtain ⟨kept, visible⟩ := same buf (ok_of_toOption called)
  refine ⟨kept.front inv.front, ?_, ?_, fun counter member => ?_, visible⟩
  · exact inv.conserved.trans ((kept.identities.symm.map Prod.fst).append_left _)
  · exact (kept.identities.map Prod.snd).nodup_iff.mpr inv.distinct
  · exact kept.msgCounter ▸ inv.bounded counter ((kept.identities.map Prod.snd).mem_iff.mp member)

open MessageBuffer in
theorem enqueue (inv : run.Inv) {time delta randomTime : Nat} {message : Message μ} {buf : MessageBuffer μ}
    (visible : run.buf.Visible time) (done : run.buf.enqueue settings message time delta randomTime = .ok buf) :
    Inv { run with buf := buf, now := time, enqueued := message.content :: run.enqueued } := by
  obtain ⟨m, last, content, counter, shape⟩ := enqueue_ok done
  have stalled : buf.stalled = run.buf.stalled := by rw [shape, countEnqueue]; split <;> rfl
  have heap : buf.prioHeap = pushHeap Message.key run.buf.prioHeap m := by rw [shape]
  have counters : buf.msgCounter = run.buf.msgCounter + 1 := by rw [shape, countEnqueue]; split <;> rfl
  have entered : buf.identities.Perm ((message.content, run.buf.msgCounter + 1) :: run.buf.identities) := by
    rw [identities, held, heap, stalled, ← content, ← counter]
    exact ((pushHeap_perm _ m).append_right _).map fun m : Message μ => (m.content, m.msgCounter)
  refine ⟨heap ▸ inv.front.pushHeap m, ?_, ?_, fun counter' member => ?_, visible.enqueue shape⟩
  · refine .trans (inv.conserved.cons _) (.trans List.perm_middle.symm ?_)
    exact (entered.symm.map Prod.fst).append_left _
  · refine (entered.map Prod.snd).nodup_iff.mpr (List.nodup_cons.mpr ⟨fun member => ?_, inv.distinct⟩)
    exact absurd (inv.bounded _ member) (Nat.not_succ_le_self _)
  · show counter' ≤ buf.msgCounter
    rw [counters]
    rcases List.mem_cons.mp ((entered.map Prod.snd).mem_iff.mp member) with rfl | old
    · exact le_rfl
    · exact (inv.bounded counter' old).trans (Nat.le_succ _)

open MessageBuffer in
theorem dequeue (inv : run.Inv) {time : Nat} {message : Message μ} {buf : MessageBuffer μ}
    (visible : run.buf.Visible time) (done : run.buf.dequeue time = .ok (message, buf)) :
    Inv { run with buf := buf, now := time, dequeued := message.content :: run.dequeued } := by
  have seen := visible.dequeue done
  obtain ⟨front, rest, heap, -, rfl, rfl⟩ := dequeue_ok done
  have map : (run.buf.recordSizes time).stallMsgMap = run.buf.stallMsgMap := by rw [recordSizes]; split <;> rfl
  have counter : (run.buf.recordSizes time).msgCounter = run.buf.msgCounter := by rw [recordSizes]; split <;> rfl
  have left : run.buf.identities.Perm ((front.content, front.msgCounter) ::
      identities { run.buf.recordSizes time with prioHeap := popHeap Message.key run.buf.prioHeap }) := by
    simp only [identities, held, stalled, map]
    exact ((heap_perm heap).append_right _).map fun m => (m.content, m.msgCounter)
  refine ⟨frontLeast_popHeap _, ?_, ?_, fun counter' member => ?_, seen⟩
  · refine inv.conserved.trans (.trans ((left.map Prod.fst).append_left _) ?_)
    exact List.perm_middle
  · exact (List.nodup_cons.mp ((left.map Prod.snd).nodup_iff.mp inv.distinct)).2
  · refine (inv.bounded counter' ?_).trans_eq counter.symm
    exact (left.map Prod.snd).mem_iff.mpr (List.mem_cons_of_mem _ member)

open MessageBuffer in
/-- **Every call keeps the invariant.** -/
theorem act (inv : run.Inv) {action : Nat × BufferCall μ} (done : run.act settings action = some next) : next.Inv := by
  obtain ⟨time, call⟩ := action
  rw [BufferRun.act.eq_def] at done
  dsimp only at done
  split at done
  · exact nomatch done
  next order =>
    have visible := inv.visible.advance (Nat.le_of_not_lt order)
    cases call with
    | enqueue message delta randomTime =>
      obtain ⟨buf, called, rfl⟩ := Option.map_eq_some_iff.mp done
      exact inv.enqueue visible (ok_of_toOption called)
    | dequeue =>
      obtain ⟨result, called, rfl⟩ := Option.map_eq_some_iff.mp done
      exact inv.dequeue visible (ok_of_toOption called)
    | recycle latency =>
      refine inv.keep (fun buf called => ⟨same_recycle called, ?_⟩) done
      refine visible.same (same_recycle called) ?_ ?_ ?_
      all_goals obtain ⟨node, rest, -, rfl⟩ := recycle_ok called
      all_goals rfl
    | stallMessage addr =>
      exact inv.keep (fun buf called => ⟨same_stallMessage called, visible.stallMessage called⟩) done
    | reanalyzeMessages addr =>
      refine inv.keep (fun buf called => ⟨same_reanalyzeMessages called, ?_⟩) done
      refine visible.same (same_reanalyzeMessages called) ?_ ?_ ?_
      all_goals obtain ⟨stalled, heap, -, -, rfl⟩ := reanalyzeMessages_ok called
      all_goals rfl
    | reanalyzeAllMessages =>
      refine inv.keep (fun buf called => ⟨same_reanalyzeAllMessages called, ?_⟩) done
      refine visible.same (same_reanalyzeAllMessages called) ?_ ?_ ?_
      all_goals obtain ⟨heap, size, -, rfl⟩ := reanalyzeAllMessages_ok called
      all_goals rfl

/-- **A dequeue yields the least message, once its time has come.** -/
theorem least (inv : run.Inv) {time : Nat} {message : Message μ} {buf : MessageBuffer μ}
    (done : run.buf.dequeue time = .ok (message, buf)) :
    ∃ front ∈ run.buf.prioHeap, message = front.updateDelayedTicks time ∧ front.lastEnqueueTime ≤ time ∧
      ∀ other ∈ run.buf.prioHeap, other ≠ front → front.key < other.key := by
  obtain ⟨front, rest, heap, early, rfl, -⟩ := MessageBuffer.dequeue_ok done
  refine ⟨front, by rw [heap]; exact List.mem_cons_self .., rfl, early, fun other member differs => ?_⟩
  have least := inv.front
  rw [heap] at least member
  refine lt_of_le_of_ne (least.le member) fun same => ?_
  -- messages of one key have one counter, which only one message has
  have counters : front.msgCounter = other.msgCounter := congrArg (fun key => (ofLex key).2) same
  have later : other ∈ rest := (List.mem_cons.mp member).resolve_left differs
  have distinct := inv.distinct
  rw [MessageBuffer.identities, MessageBuffer.held, heap, List.map_map, List.cons_append, List.map_cons] at distinct
  refine (List.nodup_cons.mp distinct).1 (List.mem_map.mpr ⟨other, List.mem_append_left _ later, ?_⟩)
  exact counters.symm

end Inv

open MessageBuffer in
theorem length_act {time : Nat} {call : BufferCall μ} (done : run.act settings (time, call) = some next) :
    next.buf.held.length ≤ run.buf.held.length ∨
      run.now ≤ time ∧ (∃ message delta randomTime, call = .enqueue message delta randomTime) ∧
        next.buf.held.length = run.buf.held.length + 1 := by
  rw [act.eq_def] at done
  dsimp only at done
  split at done
  · exact nomatch done
  next order =>
    have same : ∀ called, (∀ buf, called = .ok buf → Same run.buf buf) → run.keep time called = some next →
        next.buf.held.length ≤ run.buf.held.length := by
      intro called kept done
      obtain ⟨buf, ok, rfl⟩ := Option.map_eq_some_iff.mp done
      exact (kept buf (ok_of_toOption ok)).length.le
    cases call with
    | enqueue message delta randomTime =>
      obtain ⟨buf, called, rfl⟩ := Option.map_eq_some_iff.mp done
      obtain ⟨m, last, -, -, shape⟩ := enqueue_ok (ok_of_toOption called)
      have stalled : buf.stalled = run.buf.stalled := by rw [shape, countEnqueue]; split <;> rfl
      have heap : buf.prioHeap = pushHeap Message.key run.buf.prioHeap m := by rw [shape]
      refine .inr ⟨Nat.le_of_not_lt order, ⟨message, delta, randomTime, rfl⟩, ?_⟩
      simp only [held, List.length_append, heap, stalled, (pushHeap_perm _ _).length_eq, List.length_cons]
      omega
    | dequeue =>
      obtain ⟨⟨message, buf⟩, called, rfl⟩ := Option.map_eq_some_iff.mp done
      obtain ⟨front, rest, heap, -, -, rfl⟩ := dequeue_ok (ok_of_toOption called)
      have map : (run.buf.recordSizes time).stallMsgMap = run.buf.stallMsgMap := by rw [recordSizes]; split <;> rfl
      have parts := (heap_perm heap).length_eq
      refine .inl ?_
      simp only [held, stalled, List.length_append, map]
      rw [List.length_cons] at parts
      omega
    | recycle latency => exact .inl (same _ (fun _ => same_recycle) done)
    | stallMessage addr => exact .inl (same _ (fun _ => same_stallMessage) done)
    | reanalyzeMessages addr => exact .inl (same _ (fun _ => same_reanalyzeMessages) done)
    | reanalyzeAllMessages => exact .inl (same _ (fun _ => same_reanalyzeAllMessages) done)

/-- **An enqueue that has asked for a slot stays within the capacity.** -/
theorem Inv.capacity_act (inv : run.Inv) {action : Nat × BufferCall μ} (asked : run.Asked settings action)
    (done : run.act settings action = some next) (fits : (run.buf.held.length : ℕ∞) ≤ capacity settings) :
    (next.buf.held.length : ℕ∞) ≤ capacity settings := by
  obtain ⟨time, call⟩ := action
  rcases length_act done with fewer | ⟨order, ⟨message, delta, randomTime, rfl⟩, more⟩
  · exact le_trans (Nat.cast_le.mpr fewer) fits
  · have free : settings.maxSize = 0 ∨ run.buf.visibleSize time + 1 ≤ settings.maxSize := of_decide_eq_true asked
    have seen := (inv.visible.advance order).length_le
    rw [capacity, more]
    split
    next => exact le_top
    next bounded => exact Nat.cast_le.mpr ((Nat.succ_le_succ seen).trans (free.resolve_left bounded))

/-- **A message buffer is a priority queue, and a bounded one** where every enqueue has asked for a slot: no message is
lost or doubled, a dequeue yields the least message of the heap once its time has come, and the size of the stall map is
counted right. -/
theorem buffer_refines (settings : BufferSettings) (actions : List (Nat × BufferCall μ)) {run : BufferRun μ}
    (reached : tryActions (act settings) (init μ) actions = some run) :
    run.enqueued.Perm (run.dequeued ++ run.buf.held.map Message.content) ∧
    (∀ time message buf, run.buf.dequeue time = .ok (message, buf) →
      ∃ front ∈ run.buf.prioHeap, message = front.updateDelayedTicks time ∧ front.lastEnqueueTime ≤ time ∧
        ∀ other ∈ run.buf.prioHeap, other ≠ front → front.key < other.key) ∧
    run.buf.stallMapSize = run.buf.stalled.length ∧
    (MeetAll (act settings) (Asked settings) (init μ) actions → (run.buf.held.length : ℕ∞) ≤ capacity settings) := by
  have inv : run.Inv := tryActions_invariant Inv (fun _ _ _ done inv => inv.act done) reached inv_init
  refine ⟨?_, fun time message buf => inv.least, inv.visible.counted, fun asked => ?_⟩
  · have conserved := inv.conserved
    rwa [MessageBuffer.identities, List.map_map] at conserved
  · refine (asked.invariant (fun run => run.Inv ∧ (run.buf.held.length : ℕ∞) ≤ capacity settings) ?_ reached
      ⟨inv_init, zero_le⟩).2
    exact fun _ _ _ meet done both => ⟨both.1.act done, both.1.capacity_act meet done both.2⟩

/-- Two slots, for lines of 64 bytes. -/
def twoSlots : BufferSettings := ⟨2, false, false, false, 6⟩

/-- A message is stalled, another one enqueued in the same cycle, and the first one comes back. -/
def stalledOnce : List (Nat × BufferCall Nat) :=
  [(0, .enqueue ⟨7, 0, 0, 0⟩ 1 0), (1, .stallMessage 0), (1, .enqueue ⟨8, 0, 0, 0⟩ 1 0), (2, .reanalyzeMessages 0),
    (2, .dequeue)]

/-- The rule at a run that fills both slots. -/
theorem buffer_refines_full : ∃ run, tryActions (act twoSlots) (init Nat) stalledOnce = some run ∧
    run.enqueued.Perm (run.dequeued ++ run.buf.held.map Message.content) ∧
    (run.buf.held.length : ℕ∞) ≤ capacity twoSlots := by
  obtain ⟨run, reached⟩ := Option.isSome_iff_exists.mp
    (show (tryActions (act twoSlots) (init Nat) stalledOnce).isSome by decide +kernel)
  have refines := buffer_refines twoSlots stalledOnce reached
  exact ⟨run, reached, refines.1, refines.2.2.2 (by decide +kernel)⟩

end BufferRun

end Emas.Ruby

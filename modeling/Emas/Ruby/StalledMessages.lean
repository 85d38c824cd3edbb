/-
**No stalled message is forgotten.**

Runs of stalls and wake-ups of a controller, at times that never go back, with the other calls on its buffers.

* `ControllerRun.remembered_of_meetAll` — **every buffer that holds a stalled message is registered for its address**.
-/

import Emas.Ruby.BufferOrder
import Mathlib.Data.List.FinRange

namespace Emas.Ruby

/-! ### Controllers that stall messages

What `class AbstractController` of `mem/ruby/slicc_interface/AbstractController.cc` keeps of its input buffers:
`m_waiting_buffers` holds, for an address, the buffers that have stalled a message for it, by the rank of the port that
stalled it.

* A buffer is known by its pointer. The rank of the current port is below `m_in_ports`, as `stallBuffer` asserts.
* `stallAndWait` is the code that `StallAndWaitStatementAST.py` generates.
-/

open Gem5

/-- `MsgVecType`: one slot for each rank. -/
abbrev MsgVec (ι : Type) (inPorts : Nat) : Type := Fin inPorts → Option ι

/-- `class AbstractController`. -/
structure AbstractController (ι μ : Type) (inPorts : Nat) where
  buffers : ι → MessageBuffer μ
  waitingBuffers : SortedMap Addr (MsgVec ι inPorts)
  curInPort : Fin inPorts

namespace AbstractController

variable {ι μ : Type} [DecidableEq ι] {inPorts : Nat} (settings : ι → BufferSettings)
  (controller : AbstractController ι μ inPorts)

/-! ### Stalling -/

def stallBuffer (buf : ι) (addr : Addr) : AbstractController ι μ inPorts :=
  let msgVec := (controller.waitingBuffers.find? addr).getD fun _ => none
  { controller with
    waitingBuffers :=
      controller.waitingBuffers.insert addr (Function.update msgVec controller.curInPort (some buf)) }

/-- `stallBuffer( buf, addr )`, then `stallMessage( addr, current_time )` of the buffer. -/
def stallAndWait (buf : ι) (addr : Addr) (currentTime : Nat) :
    Except BufferFailure (AbstractController ι μ inPorts) := do
  let registered := controller.stallBuffer buf addr
  let stalled ← (registered.buffers buf).stallMessage (settings buf) addr currentTime
  .ok { registered with buffers := Function.update registered.buffers buf stalled }

/-! ### Waking up -/

/-- `reanalyzeMessages` of the buffers in the slots of the given ranks, one after another. -/
def reanalyzeRanks (msgVec : MsgVec ι inPorts) (addr : Addr) (currentTime : Nat) :
    List (Fin inPorts) → (ι → MessageBuffer μ) → Except BufferFailure (ι → MessageBuffer μ)
  | [], buffers => .ok buffers
  | rank :: rest, buffers =>
    match msgVec rank with
    | none => reanalyzeRanks msgVec addr currentTime rest buffers
    | some buf => do
      let woken ← (buffers buf).reanalyzeMessages addr currentTime
      reanalyzeRanks msgVec addr currentTime rest (Function.update buffers buf woken)

/-- Wakes the buffers in the slots of the given ranks and forgets all that wait for the address. -/
def wakeUpRanks (ranks : List (Fin inPorts)) (addr : Addr) (currentTime : Nat) :
    Except BufferFailure (AbstractController ι μ inPorts) :=
  match controller.waitingBuffers.find? addr with
  | none => .ok controller
  | some msgVec => do
    let buffers ← reanalyzeRanks msgVec addr currentTime ranks controller.buffers
    .ok { controller with buffers := buffers, waitingBuffers := controller.waitingBuffers.erase addr }

/-- `wakeUpBuffers( addr )`: the ranks below the current one, from the highest down. -/
def wakeUpBuffers (addr : Addr) (currentTime : Nat) : Except BufferFailure (AbstractController ι μ inPorts) :=
  controller.wakeUpRanks ((List.finRange inPorts).filter (· < controller.curInPort)).reverse addr currentTime

/-- `wakeUpAllBuffers( addr )`: all ranks, from the highest down. -/
def wakeUpAllBuffersOf (addr : Addr) (currentTime : Nat) : Except BufferFailure (AbstractController ι μ inPorts) :=
  controller.wakeUpRanks (List.finRange inPorts).reverse addr currentTime

/-- The loop of `wakeUpAllBuffers()`: `reanalyzeAllMessages` of each buffer, once. -/
def reanalyzeBuffers (currentTime : Nat) :
    List ι → List ι → (ι → MessageBuffer μ) → Except BufferFailure (ι → MessageBuffer μ)
  | [], _, buffers => .ok buffers
  | buf :: rest, wokeUp, buffers =>
    if buf ∈ wokeUp then reanalyzeBuffers currentTime rest wokeUp buffers
    else do
      let woken ← (buffers buf).reanalyzeAllMessages currentTime
      reanalyzeBuffers currentTime rest (buf :: wokeUp) (Function.update buffers buf woken)

/-- The buffers in `m_waiting_buffers`, in the order of the loops of `wakeUpAllBuffers()`. -/
def waiting : List ι :=
  controller.waitingBuffers.entries.flatMap fun entry => (List.finRange inPorts).filterMap entry.2

def wakeUpAllBuffers (currentTime : Nat) : Except BufferFailure (AbstractController ι μ inPorts) := do
  let buffers ← reanalyzeBuffers currentTime controller.waiting [] controller.buffers
  .ok { controller with buffers := buffers, waitingBuffers := .empty }

end AbstractController


namespace MessageBuffer

variable {μ : Type} {settings : BufferSettings} {buf next : MessageBuffer μ} {time : Nat}

/-! ### Buffers that can reanalyse -/

/-- The stalled messages are counted, and came before that time. -/
structure Settled (buf : MessageBuffer μ) (time : Nat) : Prop where
  counted : buf.stallMapSize = buf.stalled.length
  come : ∀ m ∈ buf.stalled, m.lastEnqueueTime ≤ time

theorem settled_init (time : Nat) : (init μ).Settled time :=
  ⟨rfl, fun _ member => nomatch member⟩

namespace Settled

theorem mono (settled : buf.Settled time) {later : Nat} (order : time ≤ later) : buf.Settled later :=
  ⟨settled.counted, fun m member => (settled.come m member).trans order⟩

theorem same (settled : buf.Settled time) (map : next.stallMsgMap = buf.stallMsgMap)
    (size : next.stallMapSize = buf.stallMapSize) : next.Settled time := by
  have stalled : next.stalled = buf.stalled := congrArg (fun map => map.entries.flatMap Prod.snd) map
  exact ⟨by rw [size, stalled, settled.counted], stalled ▸ settled.come⟩

end Settled

theorem mem_stalled {addr : Addr} {waiting : List (Message μ)} (found : buf.stallMsgMap.find? addr = some waiting) :
    ∀ m ∈ waiting, m ∈ buf.stalled :=
  fun _ member => List.mem_flatMap.mpr ⟨(addr, waiting), SortedMap.mem_of_find? found, member⟩

theorem reanalyzeList_of_come {lt : List (Message μ)} (come : ∀ m ∈ lt, m.lastEnqueueTime ≤ time)
    (heap : List (Message μ)) : ∃ heap', reanalyzeList heap lt time = .ok heap' := by
  induction lt generalizing heap with
  | nil => exact ⟨heap, rfl⟩
  | cons m rest ih =>
    obtain ⟨heap', rested⟩ := ih (fun other member => come other (.tail _ member)) (pushHeap Message.key heap m)
    refine ⟨heap', ?_⟩
    rw [reanalyzeList, List.foldlM_cons, if_neg (not_not_intro (come m (List.mem_cons_self ..)))]
    exact rested

theorem reanalyzeEntries_of_come {entries : List (Addr × List (Message μ))}
    (come : ∀ m ∈ entries.flatMap Prod.snd, m.lastEnqueueTime ≤ time) {size : Int}
    (counted : size = (entries.flatMap Prod.snd).length) (heap : List (Message μ)) :
    ∃ heap', reanalyzeEntries time entries (heap, size) = .ok (heap', 0) := by
  induction entries generalizing heap size with
  | nil => exact ⟨heap, by rw [counted]; rfl⟩
  | cons entry rest ih =>
    obtain ⟨addr, waiting⟩ := entry
    rw [List.flatMap_cons] at come counted
    rw [List.length_append] at counted
    obtain ⟨middle, listed⟩ := reanalyzeList_of_come (fun m member => come m (List.mem_append_left _ member)) heap
    have left : size - waiting.length = (rest.flatMap Prod.snd).length := by push_cast at counted; omega
    obtain ⟨heap', rested⟩ := ih (fun m member => come m (List.mem_append_right _ member)) left middle
    refine ⟨heap', ?_⟩
    rw [reanalyzeEntries, if_neg (by push_cast at counted; omega), listed]
    exact rested

/-- **The messages of an address that has some can be reanalysed.** -/
theorem Settled.reanalyzeMessages (settled : buf.Settled time) {addr : Addr}
    (waits : buf.stallMsgMap.find? addr ≠ none) :
    ∃ next, buf.reanalyzeMessages addr time = .ok next ∧ next.Settled time ∧
      next.stallMsgMap = buf.stallMsgMap.erase addr := by
  obtain ⟨waiting, found⟩ := Option.ne_none_iff_exists'.mp waits
  obtain ⟨heap, listed⟩ :=
    reanalyzeList_of_come (fun m member => settled.come m (mem_stalled found m member)) buf.prioHeap
  have parts := flatMap_erase_perm found
  have lengths : buf.stalled.length = waiting.length + ((buf.stallMsgMap.erase addr).entries.flatMap Prod.snd).length := by
    rw [stalled, parts.length_eq, List.length_append]
  have counted := settled.counted
  refine ⟨{ buf with
    prioHeap := heap, stallMsgMap := buf.stallMsgMap.erase addr, stallMapSize := buf.stallMapSize - waiting.length },
    ?_, ⟨?_, fun m member => ?_⟩, rfl⟩
  · rw [MessageBuffer.reanalyzeMessages, found]
    dsimp only
    rw [if_neg (by omega), listed]
    rfl
  · show buf.stallMapSize - waiting.length = ((buf.stallMsgMap.erase addr).entries.flatMap Prod.snd).length
    omega
  · exact settled.come m (parts.symm.subset (List.mem_append_right _ member))

theorem Settled.reanalyzeAllMessages (settled : buf.Settled time) :
    ∃ next, buf.reanalyzeAllMessages time = .ok next ∧ next.Settled time ∧ next.stallMsgMap = .empty := by
  obtain ⟨heap, entries⟩ := reanalyzeEntries_of_come settled.come settled.counted buf.prioHeap
  refine ⟨{ buf with prioHeap := heap, stallMsgMap := .empty, stallMapSize := 0 }, ?_, ⟨rfl, ?_⟩, rfl⟩
  · rw [MessageBuffer.reanalyzeAllMessages, entries]
    rfl
  · rintro _ ⟨⟩

/-- **A message that is stalled joins those of its address.** -/
theorem Settled.stallMessage (settled : buf.Settled time) {addr : Addr}
    (done : buf.stallMessage settings addr time = .ok next) :
    next.Settled time ∧ ∀ other, next.stallMsgMap.find? other ≠ none ↔
      other = addr ∨ buf.stallMsgMap.find? other ≠ none := by
  have counted := (same_stallMessage done).counted settled.counted
  obtain ⟨message, popped, dequeued, rfl⟩ := stallMessage_ok done
  obtain ⟨front, rest, heap, come, rfl, rfl⟩ := dequeue_ok dequeued
  have map : (buf.recordSizes time).stallMsgMap = buf.stallMsgMap := by rw [recordSizes]; split <;> rfl
  simp only [map] at counted ⊢
  refine ⟨⟨counted, fun m member => ?_⟩, fun other => ?_⟩
  · rcases List.mem_cons.mp ((flatMap_insert_perm buf.stallMsgMap addr _).subset member) with rfl | old
    · exact come
    · exact settled.come m old
  · rw [SortedMap.find?_insert]
    split
    next same => exact ⟨fun _ => .inl same, fun _ => Option.some_ne_none _⟩
    next differs => exact ⟨.inr, fun either => either.resolve_left differs⟩

end MessageBuffer

namespace AbstractController

variable {ι μ : Type} {inPorts : Nat} {settings : ι → BufferSettings}
  {controller next : AbstractController ι μ inPorts} {time : Nat} {addr : Addr}

/-! ### Registrations -/

/-- The slot of the rank has the buffer, for the address. -/
def Registered (controller : AbstractController ι μ inPorts) (addr : Addr) (rank : Fin inPorts) (buf : ι) : Prop :=
  ∃ msgVec, controller.waitingBuffers.find? addr = some msgVec ∧ msgVec rank = some buf

/-- **The buffers that hold messages are those in the slots**, each in one slot for an address. -/
structure Inv (controller : AbstractController ι μ inPorts) (time : Nat) : Prop where
  settled : ∀ buf, (controller.buffers buf).Settled time
  waits : ∀ buf addr, (controller.buffers buf).stallMsgMap.find? addr ≠ none ↔
    ∃ rank, controller.Registered addr rank buf
  single : ∀ buf addr rank rank', controller.Registered addr rank buf → controller.Registered addr rank' buf →
    rank = rank'

theorem Inv.later (inv : controller.Inv time) {later : Nat} (order : time ≤ later) (port : Fin inPorts) :
    Inv { controller with curInPort := port } later :=
  ⟨fun buf => (inv.settled buf).mono order, inv.waits, inv.single⟩

theorem Registered.mem_waiting {rank : Fin inPorts} {buf : ι} (registered : controller.Registered addr rank buf) :
    buf ∈ controller.waiting := by
  obtain ⟨msgVec, found, slot⟩ := registered
  refine List.mem_flatMap.mpr ⟨(addr, msgVec), SortedMap.mem_of_find? found, ?_⟩
  exact List.mem_filterMap.mpr ⟨rank, List.mem_finRange rank, slot⟩

theorem registered_stallBuffer {buf other : ι} {addr addr' : Addr} {rank : Fin inPorts} :
    (controller.stallBuffer buf addr).Registered addr' rank other ↔
      if addr' = addr ∧ rank = controller.curInPort then other = buf
      else controller.Registered addr' rank other := by
  simp only [Registered, stallBuffer, SortedMap.find?_insert]
  by_cases same : addr' = addr
  · subst same
    by_cases here : rank = controller.curInPort
    · subst here
      simp [eq_comm]
    · simp only [here, and_false, if_false, if_true, Option.some.injEq, exists_eq_left', Function.update_of_ne here]
      cases found : controller.waitingBuffers.find? addr' <;> simp
  · simp only [same, false_and, if_false]

theorem registered_erase {addr addr' : Addr} {rank : Fin inPorts} {buf : ι} :
    Registered { controller with waitingBuffers := controller.waitingBuffers.erase addr } addr' rank buf ↔
      addr' ≠ addr ∧ controller.Registered addr' rank buf := by
  simp only [Registered, SortedMap.find?_erase]
  by_cases same : addr' = addr <;> simp [same]

/-! ### Stalling -/

/-- A buffer that stalls a message takes no slot of another buffer, and no second slot. -/
def SlotFree (controller : AbstractController ι μ inPorts) (buf : ι) (addr : Addr) : Prop :=
  ∀ msgVec ∈ controller.waitingBuffers.find? addr, ∀ rank, ∀ other ∈ msgVec rank,
    (rank = controller.curInPort ↔ other = buf)

theorem SlotFree.iff (free : controller.SlotFree buf addr) {rank : Fin inPorts} {other : ι}
    (registered : controller.Registered addr rank other) : rank = controller.curInPort ↔ other = buf := by
  obtain ⟨msgVec, found, slot⟩ := registered
  exact free msgVec found rank other slot

variable [DecidableEq ι]

theorem settled_update {buffers : ι → MessageBuffer μ} (settled : ∀ buf, (buffers buf).Settled time) {buf : ι}
    {next : MessageBuffer μ} (here : next.Settled time) (other : ι) : (Function.update buffers buf next other).Settled time := by
  rcases eq_or_ne other buf with rfl | differs
  · rwa [Function.update_self]
  · rw [Function.update_of_ne differs]
    exact settled other

theorem stallAndWait_ok {buf : ι} (done : controller.stallAndWait settings buf addr time = .ok next) :
    ∃ stalled, (controller.buffers buf).stallMessage (settings buf) addr time = .ok stalled ∧
      next.buffers = Function.update controller.buffers buf stalled ∧
      next.waitingBuffers = (controller.stallBuffer buf addr).waitingBuffers := by
  cases called : (controller.buffers buf).stallMessage (settings buf) addr time with
  | error failure =>
    have failed : controller.stallAndWait settings buf addr time = .error failure := congrArg (· >>= _) called
    rw [failed] at done
    exact nomatch done
  | ok stalled =>
    have shape : controller.stallAndWait settings buf addr time =
        .ok { controller.stallBuffer buf addr with buffers := Function.update controller.buffers buf stalled } :=
      congrArg (· >>= _) called
    obtain rfl := Except.ok.inj (shape.symm.trans done)
    exact ⟨stalled, rfl, rfl, rfl⟩

theorem Inv.stallAndWait (inv : controller.Inv time) {buf : ι} (free : controller.SlotFree buf addr)
    (done : controller.stallAndWait settings buf addr time = .ok next) : next.Inv time := by
  obtain ⟨stalled, called, buffers, waiting⟩ := stallAndWait_ok done
  obtain ⟨settled, joins⟩ := (inv.settled buf).stallMessage called
  have registered : ∀ addr' rank other, next.Registered addr' rank other ↔
      if addr' = addr ∧ rank = controller.curInPort then other = buf else controller.Registered addr' rank other := by
    intro addr' rank other
    rw [← registered_stallBuffer, Registered, waiting, Registered]
  refine ⟨fun other => ?_, fun other addr' => ?_, fun other addr' rank rank' first second => ?_⟩
  · rw [buffers]
    exact settled_update inv.settled settled other
  · simp only [buffers, registered]
    rcases eq_or_ne other buf with rfl | differs
    · rw [Function.update_self, joins]
      constructor
      · rintro (rfl | held)
        · exact ⟨controller.curInPort, by rw [if_pos ⟨rfl, rfl⟩]⟩
        · obtain ⟨rank, slot⟩ := (inv.waits _ _).mp held
          exact ⟨rank, by split <;> trivial⟩
      · rintro ⟨rank, slot⟩
        split at slot
        next here => exact .inl here.1
        next => exact .inr ((inv.waits _ _).mpr ⟨rank, slot⟩)
    · rw [Function.update_of_ne differs, inv.waits]
      refine exists_congr fun rank => ?_
      split
      next here =>
        -- the slot that is taken is not the other buffer's
        obtain ⟨rfl, rfl⟩ := here
        exact ⟨fun slot => (free.iff slot).mp rfl, fun same => absurd same differs⟩
      next => rfl
  · rw [registered] at first second
    -- a buffer that is in a slot for the address and stalls again is in the slot of the current port
    split at first <;> split at second
    next here there => exact here.2.trans there.2.symm
    next here there =>
      obtain ⟨rfl, rfl⟩ := here
      exact ((free.iff second).mpr first).symm
    next here there =>
      obtain ⟨rfl, rfl⟩ := there
      exact (free.iff first).mpr second
    next => exact inv.single other addr' rank rank' first second

/-! ### Waking up -/

/-- **The buffers in the slots of some ranks are woken**, where each of them holds a message for the address. -/
theorem reanalyzeRanks_settled {msgVec : MsgVec ι inPorts} {ranks : List (Fin inPorts)} (nodup : ranks.Nodup)
    (single : ∀ rank rank' buf, msgVec rank = some buf → msgVec rank' = some buf → rank = rank')
    {buffers : ι → MessageBuffer μ} (settled : ∀ buf, (buffers buf).Settled time)
    (waits : ∀ rank ∈ ranks, ∀ buf, msgVec rank = some buf → (buffers buf).stallMsgMap.find? addr ≠ none) :
    ∃ woken, reanalyzeRanks msgVec addr time ranks buffers = .ok woken ∧ (∀ buf, (woken buf).Settled time) ∧
      ∀ buf, (woken buf).stallMsgMap = if ∃ rank ∈ ranks, msgVec rank = some buf then
        (buffers buf).stallMsgMap.erase addr else (buffers buf).stallMsgMap := by
  induction ranks generalizing buffers with
  | nil => exact ⟨buffers, rfl, settled, fun buf => by simp⟩
  | cons rank rest ih =>
    obtain ⟨fresh, nodup⟩ := List.nodup_cons.mp nodup
    cases slot : msgVec rank with
    | none =>
      obtain ⟨woken, done, still, maps⟩ := ih nodup settled fun rank member => waits rank (.tail _ member)
      refine ⟨woken, ?_, still, fun buf => ?_⟩
      · rw [reanalyzeRanks, slot]
        exact done
      · rw [maps]
        simp [slot]
    | some first =>
      obtain ⟨next, called, settledNext, map⟩ :=
        (settled first).reanalyzeMessages (waits rank (List.mem_cons_self ..) first slot)
      have apart : ∀ rank ∈ rest, msgVec rank ≠ some first := by
        intro rank' member slot'
        exact fresh (single rank rank' first slot slot' ▸ member)
      have waitsRest : ∀ rank' ∈ rest, ∀ buf, msgVec rank' = some buf →
          (Function.update buffers first next buf).stallMsgMap.find? addr ≠ none := by
        intro rank' member buf slot'
        have differs : buf ≠ first := fun same => apart rank' member (same ▸ slot')
        rw [Function.update_of_ne differs]
        exact waits rank' (.tail _ member) buf slot'
      obtain ⟨woken, done, still, maps⟩ := ih nodup (settled_update settled settledNext) waitsRest
      refine ⟨woken, ?_, still, fun buf => ?_⟩
      · rw [reanalyzeRanks, slot]
        dsimp only
        rw [called]
        exact done
      · rw [maps]
        rcases eq_or_ne buf first with rfl | differs
        · rw [Function.update_self, map, if_neg (by simpa using apart), if_pos ⟨rank, List.mem_cons_self .., slot⟩]
        · rw [Function.update_of_ne differs]
          simp [slot, differs.symm]

/-- All buffers that wait for the address are among those of the ranks. -/
def Covers (controller : AbstractController ι μ inPorts) (ranks : List (Fin inPorts)) (addr : Addr) : Prop :=
  ∀ msgVec ∈ controller.waitingBuffers.find? addr, ∀ rank, ∀ _buf ∈ msgVec rank, rank ∈ ranks

/-- **No wake-up fails**, and one that covers all that wait for the address leaves no message of it stalled. -/
theorem Inv.wakeUpRanks (inv : controller.Inv time) {ranks : List (Fin inPorts)} (nodup : ranks.Nodup) (addr : Addr) :
    ∃ next, controller.wakeUpRanks ranks addr time = .ok next ∧ (controller.Covers ranks addr →
      next.Inv time ∧ ∀ buf, (next.buffers buf).stallMsgMap.find? addr = none) := by
  cases found : controller.waitingBuffers.find? addr with
  | none =>
    have absent : ∀ rank buf, ¬ controller.Registered addr rank buf := by
      rintro rank buf ⟨msgVec, found', -⟩
      exact nomatch found.symm.trans found'
    refine ⟨controller, by rw [AbstractController.wakeUpRanks, found], fun _ => ⟨inv, fun buf => ?_⟩⟩
    by_contra held
    obtain ⟨rank, slot⟩ := (inv.waits buf addr).mp held
    exact absent rank buf slot
  | some msgVec =>
    have slot_iff : ∀ rank buf, controller.Registered addr rank buf ↔ msgVec rank = some buf := by
      intro rank buf
      rw [Registered, found]
      simp
    obtain ⟨woken, done, still, maps⟩ := reanalyzeRanks_settled nodup
      (fun rank rank' buf first second => inv.single buf addr rank rank' ((slot_iff _ _).mpr first)
        ((slot_iff _ _).mpr second))
      inv.settled fun rank _ buf slot => (inv.waits buf addr).mpr ⟨rank, (slot_iff _ _).mpr slot⟩
    refine ⟨{ controller with buffers := woken, waitingBuffers := controller.waitingBuffers.erase addr }, ?_, ?_⟩
    · rw [AbstractController.wakeUpRanks, found]
      dsimp only
      rw [done]
      rfl
    intro covers
    have erased : ∀ buf addr', (woken buf).stallMsgMap.find? addr' ≠ none ↔
        addr' ≠ addr ∧ (controller.buffers buf).stallMsgMap.find? addr' ≠ none := by
      intro buf addr'
      rw [maps]
      split
      next => rw [SortedMap.find?_erase]; by_cases same : addr' = addr <;> simp [same]
      next unwoken =>
        -- a buffer in no slot has no message for the address
        refine ⟨fun held => ⟨?_, held⟩, And.right⟩
        rintro rfl
        obtain ⟨rank, slot⟩ := (inv.waits buf addr').mp held
        have slot := (slot_iff _ _).mp slot
        exact unwoken ⟨rank, covers msgVec found rank buf slot, slot⟩
    refine ⟨⟨still, fun buf addr' => ?_, fun buf addr' rank rank' first second => ?_⟩, fun buf => ?_⟩
    · rw [erased, inv.waits]
      constructor
      · rintro ⟨differs, rank, slot⟩
        exact ⟨rank, registered_erase.mpr ⟨differs, slot⟩⟩
      · rintro ⟨rank, slot⟩
        obtain ⟨differs, slot⟩ := registered_erase.mp slot
        exact ⟨differs, rank, slot⟩
    · exact inv.single buf addr' rank rank' (registered_erase.mp first).2 (registered_erase.mp second).2
    · by_contra held
      exact ((erased buf addr).mp held).1 rfl

theorem reanalyzeBuffers_settled (queue wokeUp : List ι) {buffers : ι → MessageBuffer μ}
    (settled : ∀ buf, (buffers buf).Settled time) :
    ∃ woken, reanalyzeBuffers time queue wokeUp buffers = .ok woken ∧ (∀ buf, (woken buf).Settled time) ∧
      ∀ buf, (woken buf).stallMsgMap = if buf ∈ queue ∧ buf ∉ wokeUp then .empty else (buffers buf).stallMsgMap := by
  induction queue generalizing wokeUp buffers with
  | nil => exact ⟨buffers, rfl, settled, fun buf => by simp⟩
  | cons first rest ih =>
    by_cases again : first ∈ wokeUp
    · obtain ⟨woken, done, still, maps⟩ := ih wokeUp settled
      refine ⟨woken, by rw [reanalyzeBuffers, if_pos again]; exact done, still, fun buf => ?_⟩
      rw [maps]
      rcases eq_or_ne buf first with rfl | differs
      · rw [if_neg (fun both => both.2 again), if_neg (fun both => both.2 again)]
      · simp [differs]
    · obtain ⟨next, called, settledNext, map⟩ := (settled first).reanalyzeAllMessages
      obtain ⟨woken, done, still, maps⟩ := ih (first :: wokeUp) (settled_update settled settledNext)
      refine ⟨woken, ?_, still, fun buf => ?_⟩
      · rw [reanalyzeBuffers, if_neg again, called]
        exact done
      · rw [maps]
        rcases eq_or_ne buf first with rfl | differs
        · simp [again, map]
        · simp [differs]

/-- **Waking all buffers leaves no message stalled.** -/
theorem Inv.wakeUpAllBuffers (inv : controller.Inv time) :
    ∃ next, controller.wakeUpAllBuffers time = .ok next ∧ next.Inv time ∧
      ∀ buf addr, (next.buffers buf).stallMsgMap.find? addr = none := by
  obtain ⟨woken, done, still, maps⟩ := reanalyzeBuffers_settled controller.waiting [] inv.settled
  have empty : ∀ buf addr, (woken buf).stallMsgMap.find? addr = none := by
    intro buf addr
    by_contra held
    rw [maps] at held
    split at held
    next => exact held rfl
    next unwoken =>
      obtain ⟨rank, slot⟩ := (inv.waits buf addr).mp held
      exact unwoken ⟨slot.mem_waiting, List.not_mem_nil⟩
  have none : ∀ addr rank buf, ¬ Registered { controller with buffers := woken, waitingBuffers := .empty } addr rank buf := by
    rintro addr rank buf ⟨msgVec, found, -⟩
    exact nomatch found
  refine ⟨{ controller with buffers := woken, waitingBuffers := .empty }, ?_, ⟨still, fun buf addr => ?_, ?_⟩, empty⟩
  · rw [AbstractController.wakeUpAllBuffers, done]
    rfl
  · exact ⟨fun held => absurd (empty buf addr) held, fun ⟨rank, slot⟩ => absurd slot (none addr rank buf)⟩
  · exact fun buf addr rank _ slot => absurd slot (none addr rank buf)

/-! ### Other calls -/

theorem Inv.update (inv : controller.Inv time) {buf : ι} {next : MessageBuffer μ}
    (map : next.stallMsgMap = (controller.buffers buf).stallMsgMap)
    (size : next.stallMapSize = (controller.buffers buf).stallMapSize) :
    Inv { controller with buffers := Function.update controller.buffers buf next } time := by
  have maps : ∀ other, (Function.update controller.buffers buf next other).stallMsgMap =
      (controller.buffers other).stallMsgMap := by
    intro other
    rcases eq_or_ne other buf with rfl | differs
    · rw [Function.update_self, map]
    · rw [Function.update_of_ne differs]
  refine ⟨settled_update inv.settled ((inv.settled buf).same map size), fun other addr => ?_, inv.single⟩
  show (Function.update controller.buffers buf next other).stallMsgMap.find? addr ≠ none ↔ _
  rw [maps]
  exact inv.waits other addr

end AbstractController

/-! ### Runs -/

/-- A call in a controller: the generated code enters a port, and its actions stall and wake; the buffers also have other
calls. -/
inductive ControllerCall (ι μ : Type) (inPorts : Nat) where
  | enterPort (rank : Fin inPorts)
  | stallAndWait (buf : ι) (addr : Addr)
  | wakeUpBuffers (addr : Addr)
  | wakeUpAllBuffersOf (addr : Addr)
  | wakeUpAllBuffers
  | enqueue (buf : ι) (message : Message μ) (delta randomTime : Nat)
  | dequeue (buf : ι)
  | recycle (buf : ι) (latency : Nat)

/-- A controller and the time of its last call. -/
structure ControllerRun (ι μ : Type) (inPorts : Nat) where
  controller : AbstractController ι μ inPorts
  now : Nat

namespace ControllerRun

variable {ι μ : Type} [DecidableEq ι] {inPorts : Nat} {settings : ι → BufferSettings}
  {run next : ControllerRun ι μ inPorts}

/-- The start of a run. -/
def init (ι μ : Type) (port : Fin inPorts) : ControllerRun ι μ inPorts := ⟨⟨fun _ => .init μ, .empty, port⟩, 0⟩

/-- A call on one of the buffers. -/
def callBuffer (run : ControllerRun ι μ inPorts) (time : Nat) (buf : ι) (call : Except BufferFailure (MessageBuffer μ)) :
    Option (ControllerRun ι μ inPorts) :=
  call.toOption.map fun called =>
    ⟨{ run.controller with buffers := Function.update run.controller.buffers buf called }, time⟩

/-- What a call keeps, if it wakes all that wait or registers a buffer beside the others. -/
def act (settings : ι → BufferSettings) (run : ControllerRun ι μ inPorts) :
    Nat × ControllerCall ι μ inPorts → Option (ControllerRun ι μ inPorts)
  | (time, call) =>
    let controller := run.controller
    if time < run.now then none
    else match call with
      | .enterPort rank => some ⟨{ controller with curInPort := rank }, time⟩
      | .stallAndWait buf addr => (controller.stallAndWait settings buf addr time).toOption.map (⟨·, time⟩)
      | .wakeUpBuffers addr => (controller.wakeUpBuffers addr time).toOption.map (⟨·, time⟩)
      | .wakeUpAllBuffersOf addr => (controller.wakeUpAllBuffersOf addr time).toOption.map (⟨·, time⟩)
      | .wakeUpAllBuffers => (controller.wakeUpAllBuffers time).toOption.map (⟨·, time⟩)
      | .enqueue buf message delta randomTime =>
        run.callBuffer time buf ((controller.buffers buf).enqueue (settings buf) message time delta randomTime)
      | .dequeue buf => run.callBuffer time buf (((controller.buffers buf).dequeue time).map Prod.snd)
      | .recycle buf latency => run.callBuffer time buf ((controller.buffers buf).recycle time latency)

/-- The condition on a call: `wakeUpBuffers` wakes all that wait, as their ranks are below the current one, and a buffer
that stalls takes no slot of another buffer and no second slot. -/
def Covered (run : ControllerRun ι μ inPorts) : Nat × ControllerCall ι μ inPorts → Prop
  | (_, .wakeUpBuffers addr) => ∀ msgVec ∈ run.controller.waitingBuffers.find? addr, ∀ rank, ∀ _buf ∈ msgVec rank,
      rank < run.controller.curInPort
  | (_, .stallAndWait buf addr) => run.controller.SlotFree buf addr
  | _ => True

/-- Every buffer that holds stalled messages for an address is registered for it, and whatever the current port is, no
wake-up fails: `wakeUpAllBuffers` leaves no message stalled, for its address or at all. -/
structure Remembered (run : ControllerRun ι μ inPorts) : Prop where
  registered : ∀ buf addr messages, (run.controller.buffers buf).stallMsgMap.find? addr = some messages →
    ∃ rank, run.controller.Registered addr rank buf
  wakeUpBuffers : ∀ port time addr, run.now ≤ time →
    ∃ next, AbstractController.wakeUpBuffers { run.controller with curInPort := port } addr time = .ok next
  wakeUpAllBuffersOf : ∀ port time addr, run.now ≤ time →
    ∃ next, AbstractController.wakeUpAllBuffersOf { run.controller with curInPort := port } addr time = .ok next ∧
      ∀ buf, (next.buffers buf).stallMsgMap.find? addr = none
  wakeUpAllBuffers : ∀ port time, run.now ≤ time →
    ∃ next, AbstractController.wakeUpAllBuffers { run.controller with curInPort := port } time = .ok next ∧
      ∀ buf addr, (next.buffers buf).stallMsgMap.find? addr = none

open AbstractController

omit [DecidableEq ι] in
theorem inv_init (port : Fin inPorts) : (init ι μ port).controller.Inv (init ι μ port).now where
  settled _ := MessageBuffer.settled_init 0
  waits _ _ := ⟨fun held => absurd rfl held, fun ⟨_, _, found, _⟩ => nomatch found⟩
  single _ _ _ _ slot := nomatch slot.choose_spec.1

theorem nodup_below (port : Fin inPorts) : ((List.finRange inPorts).filter (· < port)).reverse.Nodup :=
  List.nodup_reverse.mpr ((List.nodup_finRange inPorts).filter _)

theorem nodup_all (inPorts : Nat) : (List.finRange inPorts).reverse.Nodup :=
  List.nodup_reverse.mpr (List.nodup_finRange inPorts)

omit [DecidableEq ι] in
theorem covers_all (controller : AbstractController ι μ inPorts) (addr : Addr) :
    controller.Covers (List.finRange inPorts).reverse addr :=
  fun _ _ rank _ _ => List.mem_reverse.mpr (List.mem_finRange rank)

/-- **What holds between the calls gives that no message is forgotten.** -/
theorem remembered (inv : run.controller.Inv run.now) : run.Remembered where
  registered buf addr messages found := (inv.waits buf addr).mp (by rw [found]; exact Option.some_ne_none _)
  wakeUpBuffers port time addr order := by
    obtain ⟨next, done, -⟩ := (inv.later order port).wakeUpRanks (nodup_below port) addr
    exact ⟨next, done⟩
  wakeUpAllBuffersOf port time addr order := by
    obtain ⟨next, done, left⟩ := (inv.later order port).wakeUpRanks (nodup_all inPorts) addr
    exact ⟨next, done, (left (covers_all _ addr)).2⟩
  wakeUpAllBuffers port time order := by
    obtain ⟨next, done, -, left⟩ := (inv.later order port).wakeUpAllBuffers
    exact ⟨next, done, left⟩

theorem inv_callBuffer {time : Nat} (inv : run.controller.Inv time) {buf : ι} {call : Except BufferFailure (MessageBuffer μ)}
    (kept : ∀ called, call = .ok called → called.stallMsgMap = (run.controller.buffers buf).stallMsgMap ∧
      called.stallMapSize = (run.controller.buffers buf).stallMapSize)
    (done : run.callBuffer time buf call = some next) : next.controller.Inv next.now := by
  obtain ⟨called, ok, rfl⟩ := Option.map_eq_some_iff.mp done
  obtain ⟨map, size⟩ := kept called (ok_of_toOption ok)
  exact inv.update map size

/-- **What holds between the calls is kept**, under the condition. -/
theorem inv_act {action : Nat × ControllerCall ι μ inPorts} (covered : run.Covered action)
    (done : run.act settings action = some next) (inv : run.controller.Inv run.now) : next.controller.Inv next.now := by
  obtain ⟨time, call⟩ := action
  rw [act.eq_def] at done
  dsimp only at done
  split at done
  · cases done
  next order =>
    have inv : run.controller.Inv time := inv.later (Nat.le_of_not_lt order) run.controller.curInPort
    cases call with
    | enterPort rank =>
      obtain rfl := Option.some.inj done
      exact inv.later le_rfl rank
    | stallAndWait buf addr =>
      obtain ⟨after, called, rfl⟩ := Option.map_eq_some_iff.mp done
      exact inv.stallAndWait covered (ok_of_toOption called)
    | wakeUpBuffers addr =>
      obtain ⟨after, called, rfl⟩ := Option.map_eq_some_iff.mp done
      obtain ⟨woken, done, kept⟩ := inv.wakeUpRanks (nodup_below run.controller.curInPort) addr
      obtain rfl := Except.ok.inj ((ok_of_toOption called).symm.trans done)
      refine (kept fun msgVec found rank buf slot => ?_).1
      exact List.mem_reverse.mpr (List.mem_filter.mpr
        ⟨List.mem_finRange rank, decide_eq_true (covered msgVec found rank buf slot)⟩)
    | wakeUpAllBuffersOf addr =>
      obtain ⟨after, called, rfl⟩ := Option.map_eq_some_iff.mp done
      obtain ⟨woken, done, kept⟩ := inv.wakeUpRanks (nodup_all inPorts) addr
      obtain rfl := Except.ok.inj ((ok_of_toOption called).symm.trans done)
      exact (kept (covers_all _ addr)).1
    | wakeUpAllBuffers =>
      obtain ⟨after, called, rfl⟩ := Option.map_eq_some_iff.mp done
      obtain ⟨woken, done, kept, -⟩ := inv.wakeUpAllBuffers
      obtain rfl := Except.ok.inj ((ok_of_toOption called).symm.trans done)
      exact kept
    | enqueue buf message delta randomTime =>
      refine inv_callBuffer inv (fun called ok => ?_) done
      obtain ⟨m, last, -, -, rfl⟩ := MessageBuffer.enqueue_ok ok
      rw [MessageBuffer.countEnqueue]
      split <;> exact ⟨rfl, rfl⟩
    | dequeue buf =>
      refine inv_callBuffer inv (fun called ok => ?_) done
      cases dequeued : (run.controller.buffers buf).dequeue time with
      | error failure => rw [dequeued] at ok; cases ok
      | ok result =>
        rw [dequeued] at ok
        obtain rfl := Except.ok.inj ok
        obtain ⟨front, rest, -, -, -, shape⟩ := MessageBuffer.dequeue_ok dequeued
        rw [shape, MessageBuffer.recordSizes]
        split <;> exact ⟨rfl, rfl⟩
    | recycle buf latency =>
      refine inv_callBuffer inv (fun called ok => ?_) done
      obtain ⟨node, rest, -, rfl⟩ := MessageBuffer.recycle_ok ok
      exact ⟨rfl, rfl⟩

/-- **No stalled message is forgotten** in a run where every `wakeUpBuffers` wakes all that wait for its address and no
stall takes the slot of another buffer or a second slot. -/
theorem remembered_of_meetAll (settings : ι → BufferSettings) (port : Fin inPorts)
    (actions : List (Nat × ControllerCall ι μ inPorts)) (covered : MeetAll (act settings) Covered (init ι μ port) actions)
    {passed rest : List (Nat × ControllerCall ι μ inPorts)} (split : passed ++ rest = actions)
    (reached : tryActions (act settings) (init ι μ port) passed = some run) : run.Remembered := by
  subst split
  refine remembered (covered.of_append.invariant (fun run => run.controller.Inv run.now) ?_ reached (inv_init port))
  exact fun _ _ _ meet done inv => inv_act meet done inv

instance (run : ControllerRun ι μ inPorts) : ∀ action, Decidable (run.Covered action)
  | (_, .wakeUpBuffers addr) => inferInstanceAs (Decidable (∀ msgVec ∈ run.controller.waitingBuffers.find? addr,
      ∀ rank, ∀ _buf ∈ msgVec rank, rank < run.controller.curInPort))
  | (_, .stallAndWait buf addr) => inferInstanceAs (Decidable (∀ msgVec ∈ run.controller.waitingBuffers.find? addr,
      ∀ rank, ∀ other ∈ msgVec rank, (rank = run.controller.curInPort ↔ other = buf)))
  | (_, .enterPort _) | (_, .wakeUpAllBuffersOf _) | (_, .wakeUpAllBuffers) | (_, .enqueue _ _ _ _) | (_, .dequeue _)
  | (_, .recycle _ _) => isTrue trivial

/-- Buffers without a bound, for lines of 64 bytes. -/
def unbounded : BufferSettings := ⟨0, false, false, false, 6⟩

/-- The port of rank 0 stalls a message, and the port of rank 1 wakes its buffer. -/
def wokenFromAbove : List (Nat × ControllerCall (Fin 2) Nat 2) :=
  [(0, .enqueue 0 ⟨7, 0, 0, 0⟩ 1 0), (1, .enterPort 0), (1, .stallAndWait 0 0x40), (1, .enterPort 1),
    (1, .wakeUpBuffers 0x40)]

/-- The rule at a run that stalls and wakes. -/
theorem remembered_wokenFromAbove :
    ∃ run, tryActions (act fun _ => unbounded) (init (Fin 2) Nat 0) wokenFromAbove = some run ∧ run.Remembered := by
  obtain ⟨run, reached⟩ := Option.isSome_iff_exists.mp
    (show (tryActions (act fun _ => unbounded) (init (Fin 2) Nat 0) wokenFromAbove).isSome by decide +kernel)
  exact ⟨run, reached, remembered_of_meetAll (fun _ => unbounded) 0 wokenFromAbove (by decide +kernel)
    (List.append_nil _) reached⟩

/-- The port of the lower rank wakes the buffer that the port of the higher one has stalled. -/
def wokenFromBelow : List (Nat × ControllerCall (Fin 2) Nat 2) :=
  [(0, .enqueue 1 ⟨7, 0, 0, 0⟩ 1 0), (1, .enterPort 1), (1, .stallAndWait 1 0x40), (1, .enterPort 0),
    (1, .wakeUpBuffers 0x40)]

/-- **A message can be forgotten**: its buffer is not woken, as its rank is not below, but no longer registered. -/
theorem not_remembered : ¬ ∀ (actions : List (Nat × ControllerCall (Fin 2) Nat 2)) (run : ControllerRun (Fin 2) Nat 2),
    tryActions (act fun _ => unbounded) (init (Fin 2) Nat 0) actions = some run → run.Remembered := by
  intro always
  have stranded : (tryActions (act fun _ => unbounded) (init (Fin 2) Nat 0) wokenFromBelow).map (fun run =>
      ((run.controller.buffers 1).stallMsgMap.find? 0x40, (run.controller.waitingBuffers.find? 0x40).isSome)) =
      some (some [⟨7, 1, 0, 1⟩], false) := by decide +kernel
  obtain ⟨run, reached, shape⟩ := Option.map_eq_some_iff.mp stranded
  obtain ⟨held, gone⟩ := Prod.mk.inj shape
  obtain ⟨rank, msgVec, found, -⟩ := (always wokenFromBelow run reached).registered 1 0x40 _ held
  rw [found] at gone
  exact nomatch gone

end ControllerRun

end Emas.Ruby

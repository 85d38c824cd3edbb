/-
**The packet queue keeps its packets, its order and its wake-up.**

Runs of queued packets, of the event, of retries, and of the outcomes of sends, with the packets in the order they were
queued and in the order they left.

* `PacketRun.queue_keeps` — **no packet is lost, doubled, stalled or overtaken**, and the assertions hold.
-/

import Emas.Gem5.Packet
import Emas.Lib.PartialRun

namespace Emas.Gem5

variable {head : DeferredPacket}

variable {rest : List DeferredPacket}

namespace PacketQueue

variable {settings : QueueSettings} {queue next : PacketQueue} {curTick when : Nat} {pkt : QueuedPacket}
  {list sent : List DeferredPacket}

/-! ### Where a packet goes -/

theorem emplace_perm : (emplace settings pkt when list).Perm (⟨when, pkt⟩ :: list) := by
  refine List.perm_middle.trans ?_
  rw [List.rdropWhile_append_rtakeWhile]

theorem emplace_behind (stays : (head :: rest).any (staysBefore settings pkt when)) :
    ∃ rest', emplace settings pkt when (head :: rest) = head :: rest' := by
  obtain ⟨it, member, before⟩ := List.any_eq_true.mp stays
  rw [emplace]
  cases front : (head :: rest).rdropWhile (!staysBefore settings pkt when ·) with
  | nil =>
    have none := List.rdropWhile_eq_nil_iff.mp front it member
    rw [before] at none
    exact absurd none (by decide)
  | cons first kept =>
    obtain ⟨behind, parts⟩ := List.rdropWhile_prefix (p := (!staysBefore settings pkt when ·)) (l := head :: rest)
    rw [front] at parts
    obtain ⟨rfl, -⟩ := List.cons.inj parts
    exact ⟨_, rfl⟩

theorem emplace_front (none : list.any (staysBefore settings pkt when) = false) :
    emplace settings pkt when list = ⟨when, pkt⟩ :: list := by
  have all : ∀ it ∈ list, (!staysBefore settings pkt when it) = true := by
    intro it member
    rw [Bool.not_eq_true', ← Bool.not_eq_true]
    exact List.any_eq_false.mp none it member
  rw [emplace, List.rdropWhile_eq_nil_iff.mpr all, List.rtakeWhile_eq_self_iff.mpr all]
  rfl

/-- **An order that the place of a new packet respects is kept.** -/
theorem emplace_pairwise {order : DeferredPacket → DeferredPacket → Prop} (sorted : (sent ++ list).Pairwise order)
    (left : ∀ it ∈ sent, order it ⟨when, pkt⟩)
    (before : ∀ it ∈ list.rdropWhile (!staysBefore settings pkt when ·), order it ⟨when, pkt⟩)
    (behind : ∀ it ∈ list, staysBefore settings pkt when it = false → order ⟨when, pkt⟩ it) :
    (sent ++ emplace settings pkt when list).Pairwise order := by
  have parts := List.rdropWhile_append_rtakeWhile (p := (!staysBefore settings pkt when ·)) (l := list)
  rw [← parts, ← List.append_assoc] at sorted
  rw [emplace, ← List.append_assoc]
  obtain ⟨first, second, cross⟩ := List.pairwise_append.mp sorted
  refine List.pairwise_append.mpr ⟨first, List.pairwise_cons.mpr ⟨fun it member => ?_, second⟩, ?_⟩
  · have skipped := List.mem_rtakeWhile_imp member
    exact behind it ((List.rtakeWhile_suffix _ _).subset member) (by simpa using skipped)
  · intro it member other
    rw [List.mem_cons]
    rintro (rfl | later)
    · rcases List.mem_append.mp member with gone | here
      · exact left it gone
      · exact before it here
    · exact cross it member other later

/-! ### The event -/

theorem schedSendEvent_eq (queue : PacketQueue) (curTick when : Nat)
    (idle : queue.waitingOnRetry → queue.sendEvent = none) :
    ∃ next, queue.schedSendEvent curTick when = .ok next ∧ next.transmitList = queue.transmitList ∧
      next.waitingOnRetry = queue.waitingOnRetry ∧
      next.sendEvent = if queue.waitingOnRetry ∨ when = maxTick then queue.sendEvent
        else some (queue.sendEvent.elim (max when (curTick + 1)) (min (max when (curTick + 1)))) := by
  rw [schedSendEvent]
  by_cases waits : queue.waitingOnRetry = true
  · have quiet : ¬ queue.sendEvent.isSome = true := by simp [idle waits]
    rw [if_pos waits, if_neg quiet]
    exact ⟨queue, rfl, rfl, rfl, (if_pos (.inl waits)).symm⟩
  · rw [if_neg waits]
    by_cases last : when = maxTick
    · rw [if_neg (not_not.mpr last)]
      split
      · exact ⟨_, rfl, rfl, rfl, (if_pos (.inr last)).symm⟩
      · exact ⟨_, rfl, rfl, rfl, (if_pos (.inr last)).symm⟩
    · rw [if_pos last, if_neg (not_or.mpr ⟨waits, last⟩)]
      cases event : queue.sendEvent with
      | none => exact ⟨_, rfl, rfl, rfl, rfl⟩
      | some scheduled =>
        by_cases earlier : max when (curTick + 1) < scheduled
        · exact ⟨_, congrArg _ (if_pos earlier), rfl, rfl, congrArg some (min_eq_left earlier.le).symm⟩
        · exact ⟨_, congrArg _ (if_neg earlier), rfl, rfl,
            event.trans (congrArg some (min_eq_right (Nat.le_of_not_lt earlier)).symm)⟩

/-- The event is for the front of the list, not before its tick and in time; while a retry is awaited there is none, and
the packet to send again is the front. -/
structure Timed (queue : PacketQueue) (curTick : Nat) : Prop where
  idle : queue.waitingOnRetry → queue.sendEvent = none
  ready : queue.waitingOnRetry → ∃ head rest, queue.transmitList = head :: rest ∧ head.tick ≤ curTick
  due : ∀ scheduled, queue.sendEvent = some scheduled → ∃ head rest, queue.transmitList = head :: rest ∧
    head.tick ≤ scheduled ∧ (head.tick ≠ maxTick → scheduled ≤ max head.tick (curTick + 1))

/-- The event is scheduled unless a retry is awaited. -/
def Prompt (queue : PacketQueue) : Prop :=
  queue.waitingOnRetry = false → ∀ head rest, queue.transmitList = head :: rest → head.tick ≠ maxTick →
    queue.sendEvent.isSome

/-- The checks that `schedSendTiming` makes of what it is given. -/
def Refused (failure : QueueFailure) : Prop :=
  failure = .backInTime ∨ failure = .expressSnoop ∨ failure = .beyondHundred

namespace Timed

theorem mono (timed : queue.Timed curTick) {later : Nat} (order : curTick ≤ later) : queue.Timed later where
  idle := timed.idle
  ready waits := by
    obtain ⟨head, rest, list, come⟩ := timed.ready waits
    exact ⟨head, rest, list, come.trans order⟩
  due scheduled event := by
    obtain ⟨head, rest, list, before, soon⟩ := timed.due scheduled event
    exact ⟨head, rest, list, before, fun real => (soon real).trans (sup_le_sup_left (Nat.succ_le_succ order) _)⟩

theorem of_quiet (awake : queue.waitingOnRetry = false) (quiet : queue.sendEvent = none) : queue.Timed curTick where
  idle _ := quiet
  ready waits := absurd waits (by simp [awake])
  due scheduled event := nomatch quiet.symm.trans event

theorem behind (timed : queue.Timed curTick) (stays : queue.transmitList.any (staysBefore settings pkt when)) :
    { queue with transmitList := emplace settings pkt when queue.transmitList }.Timed curTick ∧
      (queue.Prompt → { queue with transmitList := emplace settings pkt when queue.transmitList }.Prompt) := by
  have front : ∀ head rest, queue.transmitList = head :: rest →
      ∃ rest', emplace settings pkt when queue.transmitList = head :: rest' := by
    intro head rest list
    rw [list] at stays ⊢
    exact emplace_behind stays
  refine ⟨⟨timed.idle, fun waits => ?_, fun scheduled event => ?_⟩, fun prompt awake head rest list real => ?_⟩
  · obtain ⟨head, rest, list, come⟩ := timed.ready waits
    obtain ⟨rest', same⟩ := front head rest list
    exact ⟨head, rest', same, come⟩
  · obtain ⟨head, rest, list, bounds⟩ := timed.due scheduled event
    obtain ⟨rest', same⟩ := front head rest list
    exact ⟨head, rest', same, bounds⟩
  · cases before : queue.transmitList with
    | nil =>
      rw [before] at stays
      exact absurd stays (by simp)
    | cons first others =>
      obtain ⟨rest', same⟩ := front first others before
      obtain ⟨rfl, -⟩ := List.cons.inj (list.symm.trans same)
      exact prompt awake head others before real

theorem ahead (timed : queue.Timed curTick) (order : curTick ≤ when)
    (none : queue.transmitList.any (staysBefore settings pkt when) = false) :
    ∃ next, { queue with transmitList := emplace settings pkt when queue.transmitList }.schedSendEvent curTick when =
        .ok next ∧ next.transmitList = emplace settings pkt when queue.transmitList ∧
      next.waitingOnRetry = queue.waitingOnRetry ∧ next.Timed curTick ∧ next.Prompt := by
  -- all packets of the list are later ones
  have later : ∀ it ∈ queue.transmitList, when < it.tick := by
    intro it member
    have away := Bool.not_eq_true _ ▸ List.any_eq_false.mp none it member
    rw [staysBefore, Bool.or_eq_false_iff] at away
    exact Nat.lt_of_not_le (of_decide_eq_false away.2)
  have awake : queue.waitingOnRetry = false := by
    by_contra waits
    obtain ⟨head, rest, list, come⟩ := timed.ready (Bool.eq_true_of_not_eq_false waits)
    exact absurd (later head (list ▸ List.mem_cons_self ..)) (Nat.not_lt.mpr (come.trans order))
  obtain ⟨next, done, listed, waiting, event⟩ := schedSendEvent_eq
    { queue with transmitList := emplace settings pkt when queue.transmitList } curTick when timed.idle
  have list : next.transmitList = ⟨when, pkt⟩ :: queue.transmitList := listed.trans (emplace_front none)
  have asleep : ¬ next.waitingOnRetry = true := by
    rw [waiting]
    exact Bool.eq_false_iff.mp awake
  refine ⟨next, done, listed, waiting, ⟨fun waits => absurd waits asleep, fun waits => absurd waits asleep, ?_⟩, ?_⟩
  · intro scheduled soon
    -- the event was for a later packet
    have old : ∀ before, queue.sendEvent = some before → when ≤ before := by
      intro before was
      obtain ⟨head, rest, front, fits, -⟩ := timed.due before was
      exact ((later head (front ▸ List.mem_cons_self ..)).trans_le fits).le
    refine ⟨_, _, list, ?_, fun real => ?_⟩
    · show when ≤ scheduled
      rw [event] at soon
      split at soon
      · exact old scheduled soon
      · obtain rfl := Option.some.inj soon
        cases was : queue.sendEvent with
        | none => exact le_max_left ..
        | some before => exact le_min (le_max_left ..) (old before was)
    · show scheduled ≤ max when (curTick + 1)
      rw [event, if_neg (not_or.mpr ⟨Bool.eq_false_iff.mp awake, real⟩)] at soon
      obtain rfl := Option.some.inj soon
      cases queue.sendEvent with
      | none => exact le_rfl
      | some before => exact min_le_left ..
  · intro _ head rest front real
    obtain ⟨rfl, -⟩ := List.cons.inj (list.symm.trans front)
    rw [event, if_neg (not_or.mpr ⟨Bool.eq_false_iff.mp awake, real⟩)]
    rfl

/-- **Queuing a packet keeps the event in time**, or one of the checks of what is queued fails. -/
theorem schedSendTiming (timed : queue.Timed curTick) (settings : QueueSettings) (pkt : QueuedPacket) (when : Nat) :
    (∃ failure, queue.schedSendTiming settings curTick pkt when = .error failure ∧ Refused failure) ∨
    ∃ next, queue.schedSendTiming settings curTick pkt when = .ok next ∧ curTick ≤ when ∧
      next.transmitList = emplace settings pkt when queue.transmitList ∧
      next.waitingOnRetry = queue.waitingOnRetry ∧ next.Timed curTick ∧ (queue.Prompt → next.Prompt) := by
  rw [PacketQueue.schedSendTiming]
  split
  · exact .inl ⟨_, rfl, .inl rfl⟩
  next order =>
    split
    · exact .inl ⟨_, rfl, .inr (.inl rfl)⟩
    · split
      · exact .inl ⟨_, rfl, .inr (.inr rfl)⟩
      · right
        have order : curTick ≤ when := not_not.mp order
        dsimp only
        split
        next stays => exact ⟨_, rfl, order, rfl, rfl, timed.behind stays⟩
        next none =>
          obtain ⟨next, done, list, waiting, timely, prompt⟩ := timed.ahead order (Bool.eq_false_iff.mpr none)
          exact ⟨next, done, order, list, waiting, timely, fun _ => prompt⟩

/-- **After a send the event is for the packet that is now the front.** -/
theorem schedReady (timed : queue.Timed curTick) (awake : queue.waitingOnRetry = false) :
    ∃ next, queue.schedSendEvent curTick queue.deferredPacketReadyTime = .ok next ∧
      next.transmitList = queue.transmitList ∧ next.waitingOnRetry = false ∧ next.Timed curTick ∧ next.Prompt := by
  obtain ⟨next, done, listed, waiting, event⟩ := schedSendEvent_eq queue curTick
    queue.deferredPacketReadyTime timed.idle
  have asleep : ¬ next.waitingOnRetry = true := by
    rw [waiting]
    exact Bool.eq_false_iff.mp awake
  refine ⟨next, done, listed, waiting.trans awake,
    ⟨fun waits => absurd waits asleep, fun waits => absurd waits asleep, ?_⟩, ?_⟩
  · intro scheduled soon
    rw [event] at soon
    rw [listed]
    split at soon
    · exact timed.due scheduled soon
    next real =>
      obtain ⟨-, real⟩ := not_or.mp real
      cases list : queue.transmitList with
      | nil =>
        rw [deferredPacketReadyTime, list] at real
        exact absurd rfl real
      | cons head rest =>
        have front : queue.deferredPacketReadyTime = head.tick := by
          rw [deferredPacketReadyTime, list]
          rfl
        rw [front] at soon
        refine ⟨head, rest, rfl, ?_⟩
        obtain rfl := Option.some.inj soon
        cases was : queue.sendEvent with
        | none => exact ⟨le_max_left .., fun _ => le_rfl⟩
        | some before =>
          obtain ⟨head', rest', list', fits, -⟩ := timed.due before was
          obtain ⟨rfl, -⟩ := List.cons.inj (list.symm.trans list')
          exact ⟨le_min (le_max_left ..) fits, fun _ => min_le_left ..⟩
  · intro _ head rest front real
    rw [listed] at front
    have ready : queue.deferredPacketReadyTime = head.tick := by
      rw [deferredPacketReadyTime, front]
      rfl
    rw [event, ready, if_neg (not_or.mpr ⟨Bool.eq_false_iff.mp awake, real⟩)]
    rfl

end Timed

/-! ### The packets and their order -/

/-- The packets with the numbers of their calls. -/
def numbered (queued : List Packet) : List QueuedPacket := queued.zipIdx.map fun (pkt, call) => ⟨pkt, call⟩

/-- Of two packets the one with the earlier tick, on ties the one that was queued first. -/
def InOrder (first second : DeferredPacket) : Prop :=
  first.tick < second.tick ∨ first.tick = second.tick ∧ first.pkt.call < second.pkt.call

/-- Of two packets of one address the one that was queued first. -/
def InCallOrder (first second : DeferredPacket) : Prop :=
  first.pkt.matchAddr second.pkt.toPacket → first.pkt.call < second.pkt.call

theorem numbered_concat (queued : List Packet) (pkt : Packet) :
    numbered (queued ++ [pkt]) = numbered queued ++ [⟨pkt, queued.length⟩] := by
  rw [numbered, List.zipIdx_append, List.map_append, Nat.zero_add]
  rfl

variable {queued : List Packet}

theorem call_lt_of_mem (member : pkt ∈ numbered queued) : pkt.call < queued.length := by
  obtain ⟨⟨packet, call⟩, here, rfl⟩ := List.mem_map.mp member
  exact (List.mem_zipIdx' here).1

/-- Every packet that was queued was sent or is in the list, and those that left and those in the list are in order. -/
structure Kept (settings : QueueSettings) (now : Nat) (queued : List Packet) (sent list : List DeferredPacket) : Prop where
  conserved : ((sent ++ list).map DeferredPacket.pkt).Perm (numbered queued)
  past : ∀ it ∈ sent, it.tick ≤ now
  inOrder : settings.forceOrder = false → (sent ++ list).Pairwise InOrder
  forced : settings.forceOrder = true → (sent ++ list).Pairwise InCallOrder

namespace Kept

variable {queued : List Packet}

theorem init (now : Nat) : Kept settings now [] [] [] :=
  ⟨List.Perm.refl [], fun _ none => absurd none List.not_mem_nil, fun _ => List.Pairwise.nil, fun _ => List.Pairwise.nil⟩

theorem mono (kept : Kept settings curTick queued sent list) {later : Nat} (order : curTick ≤ later) :
    Kept settings later queued sent list :=
  { kept with past := fun it member => (kept.past it member).trans order }

theorem pop (kept : Kept settings curTick queued sent (head :: list)) (come : head.tick ≤ curTick) :
    Kept settings curTick queued (sent ++ [head]) list := by
  have parts : sent ++ [head] ++ list = sent ++ head :: list := List.append_cons .. |>.symm
  refine ⟨parts ▸ kept.conserved, fun it member => ?_, parts ▸ kept.inOrder, parts ▸ kept.forced⟩
  rcases List.mem_append.mp member with gone | last
  · exact kept.past it gone
  · exact List.mem_singleton.mp last ▸ come

theorem call_lt (kept : Kept settings curTick queued sent list) {it : DeferredPacket} (member : it ∈ sent ++ list) :
    it.pkt.call < queued.length :=
  call_lt_of_mem (kept.conserved.subset (List.mem_map_of_mem member))

theorem tick_le_of_before (kept : Kept settings curTick queued sent list) (free : settings.forceOrder = false)
    {it : DeferredPacket} (member : it ∈ list.rdropWhile (!staysBefore settings pkt when ·)) : it.tick ≤ when := by
  have sorted := (List.pairwise_append.mp (kept.inOrder free)).2.1.sublist
    (List.rdropWhile_prefix (!staysBefore settings pkt when ·) list).sublist
  have last := List.rdropWhile_last_not (!staysBefore settings pkt when ·) list
  rcases List.eq_nil_or_concat (list.rdropWhile (!staysBefore settings pkt when ·)) with none | ⟨others, final, front⟩
  · exact absurd (none ▸ member) (List.not_mem_nil)
  · rw [List.concat_eq_append] at front
    rw [front] at sorted member last
    have fits : final.tick ≤ when := by
      have stays := last (List.append_ne_nil_of_right_ne_nil others (List.cons_ne_nil final []))
      rw [List.getLast_append_singleton, staysBefore, free, Bool.false_and, Bool.false_or] at stays
      simpa using stays
    rcases List.mem_append.mp member with early | same
    · rcases (List.pairwise_append.mp sorted).2.2 it early final (List.mem_singleton_self _) with less | ⟨tie, -⟩
      · exact less.le.trans fits
      · exact tie.le.trans fits
    · exact List.mem_singleton.mp same ▸ fits

/-- **A new packet is queued where it keeps the order.** -/
theorem schedSendTiming (kept : Kept settings curTick queued sent list) (order : curTick ≤ when) (pkt : Packet) :
    Kept settings curTick (queued ++ [pkt]) sent (emplace settings ⟨pkt, queued.length⟩ when list) where
  conserved := by
    rw [numbered_concat]
    have moved : (emplace settings ⟨pkt, queued.length⟩ when list).Perm _ := emplace_perm
    refine ((moved.append_left sent).map _).trans ?_
    refine (List.perm_middle.map _).trans ?_
    exact (kept.conserved.cons _).trans (List.perm_append_singleton ..).symm
  past := kept.past
  inOrder free := by
    refine emplace_pairwise (kept.inOrder free) (fun it gone => ?_) (fun it member => ?_) (fun it member away => ?_)
    · rcases ((kept.past it gone).trans order).lt_or_eq with less | tie
      · exact .inl less
      · exact .inr ⟨tie, kept.call_lt (List.mem_append_left _ gone)⟩
    · rcases (kept.tick_le_of_before free member).lt_or_eq with less | tie
      · exact .inl less
      · refine .inr ⟨tie, kept.call_lt (List.mem_append_right _ ?_)⟩
        exact (List.rdropWhile_prefix _ _).subset member
    · rw [staysBefore, Bool.or_eq_false_iff] at away
      exact .inl (Nat.lt_of_not_le (of_decide_eq_false away.2))
  forced force := by
    refine emplace_pairwise (kept.forced force) (fun it gone _ => ?_) (fun it member _ => ?_) (fun it member away same => ?_)
    · exact kept.call_lt (List.mem_append_left _ gone)
    · exact kept.call_lt (List.mem_append_right _ ((List.rdropWhile_prefix _ _).subset member))
    · -- a packet of the same address would have kept the new one behind it
      have other : it.pkt.matchAddr pkt = true := by
        simp only [Packet.matchAddr, Bool.and_eq_true, decide_eq_true_eq] at same ⊢
        exact ⟨same.1.symm, same.2.symm⟩
      rw [staysBefore, force, other] at away
      exact absurd away (by simp)

end Kept

/-! ### Sending -/

/-- Packets with the numbers of the calls that queue them. -/
def tag : Nat → List (Packet × Nat) → List (QueuedPacket × Nat)
  | _, [] => []
  | call, (pkt, when) :: rest => (⟨pkt, call⟩, when) :: tag (call + 1) rest

theorem schedAll_keeps (during : List (Packet × Nat)) (timed : queue.Timed curTick)
    (awake : queue.waitingOnRetry = false) (kept : Kept settings curTick queued sent queue.transmitList) :
    (∃ failure, schedAll settings curTick (tag queued.length during) queue = .error failure ∧ Refused failure) ∨
    ∃ next, schedAll settings curTick (tag queued.length during) queue = .ok next ∧ next.Timed curTick ∧
      next.waitingOnRetry = false ∧ Kept settings curTick (queued ++ during.map Prod.fst) sent next.transmitList := by
  induction during generalizing queue queued with
  | nil => exact .inr ⟨queue, rfl, timed, awake, by simpa using kept⟩
  | cons first rest ih =>
    obtain ⟨pkt, when⟩ := first
    rw [tag, schedAll]
    rcases timed.schedSendTiming settings ⟨pkt, queued.length⟩ when with
      ⟨failure, failed, refused⟩ | ⟨middle, done, order, list, waiting, timely, -⟩
    · rw [failed]
      exact .inl ⟨failure, rfl, refused⟩
    · have keeps : Kept settings curTick (queued ++ [pkt]) sent middle.transmitList :=
        list ▸ kept.schedSendTiming order pkt
      have further := ih timely (waiting.trans awake) keeps
      rw [List.length_append, List.length_singleton] at further
      rw [done]
      rcases further with ⟨failure, failed, refused⟩ | ⟨next, gone, later, asleep, rest⟩
      · exact .inl ⟨failure, failed, refused⟩
      · rw [List.append_assoc] at rest
        exact .inr ⟨next, gone, later, asleep, rest⟩

/-- **Sending the front**: a refused packet stays the front, an accepted one leaves, with the event scheduled anew. -/
theorem sendDeferredPacket_keeps
    (awake : queue.waitingOnRetry = false) (quiet : queue.sendEvent = none) (front : queue.transmitList = head :: rest)
    (come : head.tick ≤ curTick) (kept : Kept settings curTick queued sent queue.transmitList) :
    (∃ next, queue.sendDeferredPacket settings curTick .refused = .ok next ∧ next.Timed curTick ∧ next.Prompt ∧
      next.transmitList = queue.transmitList) ∧
    ∀ during, (∃ failure, queue.sendDeferredPacket settings curTick (.accepted (tag queued.length during)) =
        .error failure ∧ Refused failure) ∨
      ∃ next, queue.sendDeferredPacket settings curTick (.accepted (tag queued.length during)) = .ok next ∧
        next.Timed curTick ∧ next.Prompt ∧
        Kept settings curTick (queued ++ during.map Prod.fst) (sent ++ [head]) next.transmitList := by
  have ready : ¬ ¬ head.tick ≤ curTick := not_not.mpr come
  refine ⟨?_, fun during => ?_⟩
  · rw [sendDeferredPacket, if_neg (Bool.eq_false_iff.mp awake), front]
    dsimp only
    rw [if_neg ready]
    refine ⟨_, rfl, ⟨fun _ => quiet, fun _ => ⟨head, rest, rfl, come⟩, fun _ event => nomatch quiet.symm.trans event⟩,
      fun asleep => ?_, rfl⟩
    exact absurd asleep.symm Bool.false_ne_true
  · rw [sendDeferredPacket, if_neg (Bool.eq_false_iff.mp awake), front]
    dsimp only
    rw [if_neg ready]
    have popped : { queue with transmitList := rest }.Timed curTick := .of_quiet awake quiet
    have keeps : Kept settings curTick queued (sent ++ [head]) rest := (front ▸ kept).pop come
    rcases schedAll_keeps during popped awake keeps with ⟨failure, failed, refused⟩ | ⟨middle, done, timed, asleep, keeps⟩
    · rw [failed]
      exact .inl ⟨failure, rfl, refused⟩
    · have same : { middle with waitingOnRetry := false } = middle := by rw [← asleep]
      obtain ⟨next, scheduled, list, -, timely, prompt⟩ := timed.schedReady asleep
      refine .inr ⟨next, ?_, timely, prompt, list ▸ keeps⟩
      rw [done]
      exact (congrArg (fun sent => schedSendEvent sent curTick sent.deferredPacketReadyTime) same).trans scheduled

end PacketQueue

/-! ### Runs -/

/-- A queue, the tick, and the packets in the order they were queued and in the order they left. -/
structure PacketRun where
  queue : PacketQueue
  now : Nat
  queued : List Packet
  sent : List DeferredPacket
  deriving DecidableEq

/-- What happens at a queue. A packet that is sent is refused, or accepted while these packets are queued. -/
inductive PacketAction where
  | advance (later : Nat)
  | schedSendTiming (pkt : Packet) (when : Nat)
  | processSendEvent (accepted : Option (List (Packet × Nat)))
  | retry (accepted : Option (List (Packet × Nat)))
  | drain
  | drainResume

namespace PacketRun

open PacketQueue

variable {settings : QueueSettings} {run : PacketRun}

/-- An empty queue at this tick. -/
def init (now : Nat) : PacketRun := ⟨.init, now, [], []⟩

/-- What the peer does with a packet, and whether it queues others. -/
def outcome (run : PacketRun) (accepted : Option (List (Packet × Nat))) : SendOutcome :=
  accepted.elim .refused fun during => .accepted (tag run.queued.length during)

/-- The run after the event, with the packet that was sent. -/
def afterSend (run : PacketRun) (accepted : Option (List (Packet × Nat))) (queue : PacketQueue) : PacketRun :=
  match accepted with
  | none => { run with queue }
  | some during => { run with
    queue
    queued := run.queued ++ during.map Prod.fst
    sent := run.sent ++ run.queue.transmitList.take 1 }

/-- Time goes on as far as the event that is scheduled, and the event fires at its tick. -/
def Allowed (run : PacketRun) : PacketAction → Prop
  | .advance later => run.now ≤ later ∧ run.queue.sendEvent.all (later ≤ ·)
  | .processSendEvent _ => run.queue.sendEvent = some run.now
  | _ => True

instance (run : PacketRun) (action : PacketAction) : Decidable (run.Allowed action) := by
  cases action <;> unfold Allowed <;> infer_instance

/-- One action. An event that fires is not scheduled any more. -/
def step (settings : QueueSettings) (run : PacketRun) : PacketAction → Except QueueFailure PacketRun
  | .advance later => .ok { run with now := later }
  | .schedSendTiming pkt when => do
    let queue ← run.queue.schedSendTiming settings run.now ⟨pkt, run.queued.length⟩ when
    .ok { run with queue, queued := run.queued ++ [pkt] }
  | .processSendEvent accepted => do
    let queue ← { run.queue with sendEvent := none }.processSendEvent settings run.now (run.outcome accepted)
    .ok (run.afterSend accepted queue)
  | .retry accepted => do
    let queue ← run.queue.retry settings run.now (run.outcome accepted)
    .ok (run.afterSend accepted queue)
  | .drain => .ok { run with queue := { run.queue with drainState := run.queue.drain } }
  | .drainResume => .ok { run with queue := { run.queue with drainState := .running } }

/-- An action that is allowed and does not end the program. -/
def act (settings : QueueSettings) (run : PacketRun) (action : PacketAction) : Option PacketRun :=
  if run.Allowed action then (run.step settings action).toOption else none

/-- **The invariant**: the event is in time, and the packets are kept in order. -/
structure Inv (settings : QueueSettings) (run : PacketRun) : Prop where
  timed : run.queue.Timed run.now
  prompt : run.queue.Prompt
  kept : Kept settings run.now run.queued run.sent run.queue.transmitList

namespace Inv

theorem init (now : Nat) : (PacketRun.init now).Inv settings :=
  ⟨Timed.of_quiet rfl rfl, fun _ _ _ front => absurd front.symm (List.cons_ne_nil _ _), Kept.init now⟩

theorem send (inv : run.Inv settings) (queue : PacketQueue)
    (same : queue.transmitList = run.queue.transmitList) (awake : queue.waitingOnRetry = false)
    (quiet : queue.sendEvent = none) (front : run.queue.transmitList = head :: rest) (come : head.tick ≤ run.now)
    (accepted : Option (List (Packet × Nat))) :
    (∃ failure, queue.sendDeferredPacket settings run.now (run.outcome accepted) = .error failure ∧ Refused failure) ∨
    ∃ next, queue.sendDeferredPacket settings run.now (run.outcome accepted) = .ok next ∧
      (run.afterSend accepted next).Inv settings := by
  obtain ⟨refused, taken⟩ :=
    sendDeferredPacket_keeps awake quiet (same.trans front) come (same.symm ▸ inv.kept)
  cases accepted with
  | none =>
    obtain ⟨next, done, timed, prompt, list⟩ := refused
    exact .inr ⟨next, done, timed, prompt, (list.trans same).symm ▸ inv.kept⟩
  | some during =>
    rcases taken during with failed | ⟨next, done, timed, prompt, kept⟩
    · exact .inl failed
    · refine .inr ⟨next, done, timed, prompt, ?_⟩
      show Kept settings run.now _ (run.sent ++ run.queue.transmitList.take 1) _
      rw [front]
      exact kept

/-- **An allowed action keeps the invariant**, or fails where `schedSendTiming` refuses a packet, or `retry` is called
while none is awaited. -/
theorem step (inv : run.Inv settings) {action : PacketAction} (allowed : run.Allowed action) :
    (∃ failure, run.step settings action = .error failure ∧
      (Refused failure ∨ failure = .notWaiting ∧ ∃ accepted, action = .retry accepted)) ∨
    ∃ next, run.step settings action = .ok next ∧ next.Inv settings := by
  cases action with
  | advance later => exact .inr ⟨_, rfl, inv.timed.mono allowed.1, inv.prompt, inv.kept.mono allowed.1⟩
  | schedSendTiming pkt when =>
    rcases inv.timed.schedSendTiming settings ⟨pkt, run.queued.length⟩ when with
      ⟨failure, failed, refused⟩ | ⟨next, done, order, list, -, timed, prompt⟩
    · refine .inl ⟨failure, ?_, .inl refused⟩
      rw [PacketRun.step, failed]
      rfl
    · refine .inr ⟨{ run with queue := next, queued := run.queued ++ [pkt] }, ?_, timed, prompt inv.prompt,
        list ▸ inv.kept.schedSendTiming order pkt⟩
      rw [PacketRun.step, done]
      rfl
  | processSendEvent accepted =>
    obtain ⟨head, rest, front, come, -⟩ := inv.timed.due run.now allowed
    have awake : run.queue.waitingOnRetry = false := by
      by_contra waits
      exact nomatch (inv.timed.idle (Bool.eq_true_of_not_eq_false waits)).symm.trans allowed
    have sends : { run.queue with sendEvent := none }.processSendEvent settings run.now (run.outcome accepted) =
        { run.queue with sendEvent := none }.sendDeferredPacket settings run.now (run.outcome accepted) :=
      if_neg (Bool.eq_false_iff.mp awake)
    rcases inv.send { run.queue with sendEvent := none } rfl awake rfl front come accepted with
      ⟨failure, failed, refused⟩ | ⟨next, done, keeps⟩
    · refine .inl ⟨failure, ?_, .inl refused⟩
      rw [PacketRun.step, sends, failed]
      rfl
    · refine .inr ⟨_, ?_, keeps⟩
      rw [PacketRun.step, sends, done]
      rfl
  | retry accepted =>
    rw [PacketRun.step, PacketQueue.retry]
    by_cases waits : run.queue.waitingOnRetry = true
    · obtain ⟨head, rest, front, come⟩ := inv.timed.ready waits
      rw [if_neg (not_not.mpr waits)]
      rcases inv.send { run.queue with waitingOnRetry := false } rfl rfl (inv.timed.idle waits) front come
          accepted with ⟨failure, failed, refused⟩ | ⟨next, done, keeps⟩
      · rw [failed]
        exact .inl ⟨failure, rfl, .inl refused⟩
      · rw [done]
        exact .inr ⟨_, rfl, keeps⟩
    · rw [if_pos waits]
      exact .inl ⟨_, rfl, .inr ⟨rfl, accepted, rfl⟩⟩
  | drain => exact .inr ⟨_, rfl, ⟨inv.timed.idle, inv.timed.ready, inv.timed.due⟩, inv.prompt, inv.kept⟩
  | drainResume => exact .inr ⟨_, rfl, ⟨inv.timed.idle, inv.timed.ready, inv.timed.due⟩, inv.prompt, inv.kept⟩

theorem act (inv : run.Inv settings) {action : PacketAction} {next : PacketRun} (done : run.act settings action = some next) :
    next.Inv settings := by
  rw [PacketRun.act] at done
  split at done
  next allowed =>
    have done := ok_of_toOption done
    rcases inv.step allowed with ⟨failure, failed, -⟩ | ⟨after, taken, keeps⟩
    · exact nomatch failed.symm.trans done
    · exact Except.ok.inj (taken.symm.trans done) ▸ keeps
  · exact nomatch done

end Inv

/-- **The queue keeps its packets, its wake-up and its order.** In every run each queued packet is sent once or still in
the list; a queue that does not wait for a retry has its event scheduled by the tick of the front or the next tick, unless
that tick is `MaxTick`; only `schedSendTiming` refuses what it is given, and `retry` fails only where none is awaited;
packets leave in the order of their ticks, and with `forceOrder` those of one address in the order they were queued. -/
theorem queue_keeps (settings : QueueSettings) (start : Nat) (actions : List PacketAction)
    (reached : tryActions (act settings) (init start) actions = some run) :
    ((run.sent ++ run.queue.transmitList).map DeferredPacket.pkt).Perm (numbered run.queued) ∧
    (run.queue.waitingOnRetry = false → ∀ front rest, run.queue.transmitList = front :: rest → front.tick ≠ maxTick →
      ∃ scheduled, run.queue.sendEvent = some scheduled ∧ scheduled ≤ max front.tick (run.now + 1)) ∧
    (∀ action failure, run.Allowed action → run.step settings action = .error failure →
      Refused failure ∨ failure = .notWaiting ∧ ∃ accepted, action = .retry accepted) ∧
    (settings.forceOrder = false → run.sent.Pairwise InOrder) ∧
    (settings.forceOrder = true → run.sent.Pairwise InCallOrder) := by
  have inv : run.Inv settings := tryActions_invariant (Inv settings) (fun _ _ _ done inv => inv.act done) reached (.init start)
  refine ⟨inv.kept.conserved, fun awake front rest list real => ?_, fun action failure allowed failed => ?_,
    fun free => (List.pairwise_append.mp (inv.kept.inOrder free)).1,
    fun force => (List.pairwise_append.mp (inv.kept.forced force)).1⟩
  · obtain ⟨scheduled, event⟩ := Option.isSome_iff_exists.mp (inv.prompt awake front rest list real)
    obtain ⟨head, others, same, -, soon⟩ := inv.timed.due scheduled event
    obtain ⟨rfl, -⟩ := List.cons.inj (list.symm.trans same)
    exact ⟨scheduled, event, soon real⟩
  · rcases inv.step allowed with ⟨other, gone, why⟩ | ⟨next, done, -⟩
    · exact Except.error.inj (gone.symm.trans failed) ▸ why
    · exact nomatch done.symm.trans failed

/-- A packet of this number. -/
def packetOf (id : Nat) (addr : Addr) : Packet := .ofRequest id (Request.make addr 64 0 0 0) .readReq []

/-- Two packets of one address, the first one with the later tick, and one that is refused and sent again. -/
def refusedOnce : List PacketAction :=
  [.schedSendTiming (packetOf 0 0x40) 30, .schedSendTiming (packetOf 1 0x80) 20, .schedSendTiming (packetOf 2 0x40) 10,
    .advance 20, .processSendEvent none, .advance 25, .retry (some [(packetOf 3 0x80, 25)]), .advance 30,
    .processSendEvent (some [])]

/-- The rule at a run with forced order, a refused packet and one that is queued by a send. -/
theorem queue_keeps_refusedOnce : ∃ run, tryActions (act ⟨true, false⟩) (init 0) refusedOnce = some run ∧
    run.sent.map (·.pkt.id) = [1, 0] ∧ run.sent.Pairwise InCallOrder ∧
    ∃ scheduled, run.queue.sendEvent = some scheduled ∧ scheduled ≤ 31 := by
  have ran : (tryActions (act ⟨true, false⟩) (init 0) refusedOnce).map (fun run =>
      (run.sent.map (·.pkt.id), run.queue.waitingOnRetry, run.queue.transmitList.map (·.tick), run.now)) =
      some ([1, 0], false, [10, 25], 30) := by decide +kernel
  obtain ⟨run, reached, parts⟩ := Option.map_eq_some_iff.mp ran
  obtain ⟨ids, awake, ticks, now⟩ : _ ∧ _ ∧ _ ∧ _ := by simpa using parts
  have keeps := queue_keeps ⟨true, false⟩ 0 refusedOnce reached
  refine ⟨run, reached, ids, keeps.2.2.2.2 rfl, ?_⟩
  cases list : run.queue.transmitList with
  | nil => exact nomatch list ▸ ticks
  | cons front rest =>
    rw [list] at ticks
    obtain ⟨tick, -⟩ := List.cons.inj ticks
    obtain ⟨scheduled, event, soon⟩ := keeps.2.1 awake front rest list (by rw [show front.tick = 10 from tick]; decide)
    rw [show front.tick = 10 from tick, now] at soon
    exact ⟨scheduled, event, soon⟩

/-- **A packet for `MaxTick` alone in the list has no event.** -/
theorem no_event_at_maxTick :
    (tryActions (act ⟨false, false⟩) (init 0) [.schedSendTiming (packetOf 0 0x40) maxTick]).map (fun run =>
      (run.queue.transmitList.map (·.tick), run.queue.waitingOnRetry, run.queue.sendEvent)) =
      some ([maxTick], false, none) := by
  decide +kernel

end PacketRun

end Emas.Gem5

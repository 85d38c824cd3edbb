/-
**No request is lost or duplicated.**

A request is known by its handle. At every moment it is in the transaction queue, in a command queue
waiting to be issued, or it has been issued (`Place`). The scheduler unlinks a request before it calls
`IssueMemoryCommands` and does not look at the result, so a refused request would be gone; but every
search asks for an empty command queue, and with an empty command queue nothing is refused
(`issueMemoryCommands_accepts`).
-/

import Emas.Nvmain.CommandPushes
import Emas.Lib.Tally

namespace Emas.Nvmain

open Table MemoryController

variable {χ : Type}

/-! ### Handles -/

/-- The handles of the requests among some commands; the controller's own commands have none. -/
def handles (commands : List NVMainRequest) : List Nat := commands.filterMap (·.handle)

theorem mem_handles {commands : List NVMainRequest} {handle : Nat} :
    handle ∈ handles commands ↔ ∃ command ∈ commands, command.handle = some handle :=
  List.mem_filterMap

theorem handles_append (first second : List NVMainRequest) :
    handles (first ++ second) = handles first ++ handles second := List.filterMap_append

theorem handles_singleton (command : NVMainRequest) : handles [command] = command.handle.toList := by
  unfold handles
  cases same : command.handle <;> simp [same]

theorem handles_cons (command : NVMainRequest) (rest : List NVMainRequest) :
    handles (command :: rest) = command.handle.toList ++ handles rest := by
  rw [← handles_singleton, ← handles_append]
  rfl

theorem handles_eq_nil {commands : List NVMainRequest}
    (own : ∀ command ∈ commands, command.handle = none) : handles commands = [] :=
  List.filterMap_eq_nil_iff.mpr own

/-- The commands that were not issued yet. -/
def unissued (commands : List NVMainRequest) : List NVMainRequest := commands.filter (!·.issued)

theorem unissued_append (first second : List NVMainRequest) :
    unissued (first ++ second) = unissued first ++ unissued second := List.filter_append ..

theorem handles_pushed {request own : NVMainRequest} {made : List NVMainRequest}
    (commands : CommandsFor request made own) (queueId target : Nat) :
    handles (pushedTo queueId ((made ++ [own]).map (target, ·))) =
      if queueId = target then request.handle.toList else [] := by
  rw [pushedTo_map]
  split
  · rw [handles_append, handles_eq_nil fun command member => (commands.made command member).1,
      handles_singleton, commands.handle]
    rfl
  · rfl

theorem handles_pushedTo_own {pushed : List (Nat × NVMainRequest)}
    (own : ∀ item ∈ pushed, item.2.handle = none) (queueId : Nat) : handles (pushedTo queueId pushed) = [] :=
  handles_eq_nil fun command member => own (queueId, command) (mem_pushedTo.mp member)

/-! ### One cycle of the scheduler -/

section Cycle

variable {cfg : Config} {child : Child χ}

/-- The queues have the same requests. -/
def Undisturbed (before after : System χ) : Prop :=
  after.mc.transactionQueue = before.mc.transactionQueue ∧
    ∀ queueId, handles (after.mc.commandQueues queueId) = handles (before.mc.commandQueues queueId)

theorem perform_undisturbed (start sys : System χ) (action : Action χ) (fits : QueueAction sys action)
    (same : Undisturbed start sys) : Undisturbed start (sys.perform cfg child action) := by
  cases action with
  | environment below queue lastCommandWake deadlocked outOfDepth => exact same
  | refresh =>
    show Undisturbed start (sys.startRefresh cfg)
    unfold System.startRefresh
    split
    · exact same
    · rename_i i j target
      obtain ⟨pushed, pushes, own⟩ := queueRefresh_pushed cfg sys.mc i j sys.now
      refine ⟨(queueRefresh_frame cfg sys.mc i j sys.now).1.trans same.1, fun queueId => ?_⟩
      show handles ((sys.mc.queueRefresh cfg i j sys.now).commandQueues queueId) = _
      rw [pushes queueId, handles_append, handles_pushedTo_own fun item member => (own item member).1, List.append_nil]
      exact same.2 queueId
  | issue queueId =>
    show Undisturbed start (sys.issueHead cfg child queueId)
    cases queue : sys.mc.commandQueues queueId with
    | nil =>
      rw [issueHead_of_empty queue]
      exact same
    | cons queueHead rest =>
      obtain ⟨flags, failed, issued, current, -, changed⟩ := issueHead_changes cfg child queue
      unfold Undisturbed
      rw [changed]
      refine ⟨same.1, fun query => ?_⟩
      rw [← same.2 query]
      show handles (set1 sys.mc.commandQueues queueId _ query) = _
      rw [set1_apply]
      split
      · rename_i here
        rw [here, queue, handles_cons, handles_cons]
      · rfl
  | accept request => exact fits.elim
  | complete request => exact fits.elim
  | pulse refresh => exact fits.elim
  | schedule finder pred => exact fits.elim
  | queue request => exact fits.elim
  | cleanup => exact fits.elim

theorem leads_undisturbed {before after : System χ}
    (leads : System.Leads cfg child QueueAction before after) : Undisturbed before after :=
  leads.invariant (Undisturbed before) (perform_undisturbed before) ⟨rfl, fun _ => rfl⟩

/-- **`IssueMemoryCommands` does not fail** on what a search finds. -/
theorem issueMemoryCommands_accepts {sys : System χ} {request : NVMainRequest} {mc : MemoryController}
    (found : sys.findNextRequest cfg child = some (request, mc)) (depth : Nat) :
    ({ sys with mc := mc }.issueMemoryCommands cfg child depth request).2 = true := by
  obtain ⟨finder, found⟩ := findNextRequest_find found
  obtain ⟨front, original, back, picked⟩ := find_picked found
  have queued := (startCommands_picked picked).1
  unfold System.issueMemoryCommands
  split
  · rfl
  · rfl
  · rename_i after refused
    rw [refused] at queued
    exact absurd rfl queued

/-- **One `FRFCFS::Cycle`** moves nothing, or one request: out of the transaction queue and to the end
of the command queue that `GetCommandQueueId` gives. -/
theorem cycle_moves (sys : System χ) (depth : Nat) :
    Undisturbed sys (sys.cycle cfg child depth) ∨ ∃ front request back,
      sys.mc.transactionQueue = front ++ request :: back ∧
      (sys.cycle cfg child depth).mc.transactionQueue = front ++ back ∧
      ∀ queueId, handles ((sys.cycle cfg child depth).mc.commandQueues queueId) =
        handles (sys.mc.commandQueues queueId) ++
          if queueId = cfg.getCommandQueueId request.address then request.handle.toList else [] := by
  have finishes : ∀ sys : System χ, System.Leads cfg child QueueAction sys
      ((sys.cycleCommandQueues cfg child).recheckTransactions cfg) := fun sys =>
    (cycleCommandQueues_reaches queueAction_permits sys).trans
      (recheckTransactions_reaches queueAction_permits.upkeep _)
  unfold System.cycle
  dsimp only
  split
  · rename_i request mc found
    obtain ⟨finder, found⟩ := findNextRequest_find found
    obtain ⟨front, original, back, picked⟩ := find_picked found
    obtain ⟨-, made, own, commands, pushes⟩ := startCommands_picked picked
    have rest := leads_undisturbed ((issueMemoryCommands_continues queueAction_permits.upkeep depth
      { sys with mc := mc } request).trans (finishes _))
    have handle : request.handle = original.handle := by rw [picked.same]
    have address : request.address = original.address := by rw [picked.same]
    refine Or.inr ⟨front, original, back, picked.queue, ?_, fun queueId => ?_⟩
    · rw [rest.1, startCommands_transactions, picked.rest]
      rfl
    · rw [rest.2 queueId, pushes queueId, handles_append, handles_pushed commands, handle, address]
  · exact Or.inl (leads_undisturbed (finishes sys))

end Cycle

/-! ### Places -/

/-- Where a request may be: among the transactions, waiting in a command queue, or issued. -/
inductive Place where
  | transactionQueue
  | commandQueue (queueId : Nat)
  | issued
  deriving DecidableEq, Repr

/-- The requests in a place. -/
def System.handlesAt (sys : System χ) : Place → List Nat
  | .transactionQueue => handles sys.mc.transactionQueue
  | .commandQueue queueId => handles (unissued (sys.mc.commandQueues queueId))
  | .issued => handles sys.sent

/-- **The requests are accounted for**: every accepted one is in exactly one place, and once in a
queue. -/
structure Tracked (sys : System χ) : Prop where
  placement : Placement (· ∈ handles sys.accepted) fun handle place => handle ∈ sys.handlesAt place
  once : ∀ place, place ≠ .issued → (sys.handlesAt place).Nodup
  fresh : ∀ request ∈ sys.mc.transactionQueue, request.issued = false
  sent : ∀ queueId, ∀ command ∈ sys.mc.commandQueues queueId, command.issued = true →
    ∀ handle ∈ command.handle, handle ∈ handles sys.sent

namespace Tracked

variable {sys after : System χ}

theorem setConfig (cfg : Config) (below : χ) (queue : ControllerQueue) :
    Tracked (System.setConfig cfg below queue) where
  placement :=
    { somewhere := fun handle => by
        refine iff_of_false List.not_mem_nil ?_
        rintro ⟨place, here⟩
        cases place <;> exact absurd here List.not_mem_nil
      apart := fun handle place _ here => by cases place <;> exact absurd here List.not_mem_nil }
  once place _ := by cases place <;> exact List.nodup_nil
  fresh _ member := absurd member List.not_mem_nil
  sent _ _ member := absurd member List.not_mem_nil

theorem frame (tracked : Tracked sys) (same : ∀ place, place ≠ .issued → after.handlesAt place = sys.handlesAt place)
    (unsent : ∀ handle, handle ∈ handles after.sent ↔ handle ∈ handles sys.sent)
    (accepted : handles after.accepted = handles sys.accepted)
    (fresh : ∀ request ∈ after.mc.transactionQueue, request.issued = false)
    (sent : ∀ queueId, ∀ command ∈ after.mc.commandQueues queueId, command.issued = true →
      ∀ handle ∈ command.handle, handle ∈ handles after.sent) : Tracked after where
  placement := by
    refine tracked.placement.congr (fun handle => by rw [accepted]) fun handle place => ?_
    by_cases issued : place = .issued
    · rw [issued]
      exact unsent handle
    · rw [same place issued]
  once place other := by
    rw [same place other]
    exact tracked.once place other
  fresh := fresh
  sent := sent

theorem pushOwn (tracked : Tracked sys) {pushed : List (Nat × NVMainRequest)} (pushes : Pushes sys.mc after.mc pushed)
    (own : ∀ item ∈ pushed, item.2.handle = none ∧ item.2.issued = false)
    (requests : after.mc.transactionQueue = sys.mc.transactionQueue) (sent : after.sent = sys.sent)
    (accepted : after.accepted = sys.accepted) : Tracked after := by
  refine tracked.frame (fun place other => ?_) (fun handle => by rw [sent]) (by rw [accepted])
    (requests ▸ tracked.fresh) ?_
  · cases place with
    | transactionQueue => exact congrArg handles requests
    | commandQueue queueId =>
      show handles (unissued (after.mc.commandQueues queueId)) = _
      have none : handles (unissued (pushedTo queueId pushed)) = [] :=
        handles_eq_nil fun command member =>
          (own (queueId, command) (mem_pushedTo.mp (List.mem_of_mem_filter member))).1
      rw [pushes queueId, unissued_append, handles_append, none, List.append_nil]
      rfl
    | issued => exact absurd rfl other
  · intro queueId command member issued
    rw [pushes queueId, List.mem_append] at member
    rw [sent]
    refine tracked.sent queueId command (member.resolve_right fun new => ?_) issued
    have fresh := (own (queueId, command) (mem_pushedTo.mp new)).2
    rw [fresh] at issued
    cases issued

/-- **A request goes to a place**, and is gone from wherever it was. -/
theorem move (tracked : Tracked sys) (number : Nat) (destination : Place)
    (known : ∀ handle, handle ∈ handles after.accepted ↔ handle = number ∨ handle ∈ handles sys.accepted)
    (absent : number ∉ sys.handlesAt .issued) (new : number ∉ sys.handlesAt destination)
    (left : ∀ place, place ≠ destination → after.handlesAt place = (sys.handlesAt place).erase number)
    (arrived : after.handlesAt destination = sys.handlesAt destination ++ [number])
    (fresh : ∀ request ∈ after.mc.transactionQueue, request.issued = false)
    (sent : ∀ queueId, ∀ command ∈ after.mc.commandQueues queueId, command.issued = true →
      ∀ handle ∈ command.handle, handle ∈ handles after.sent) : Tracked after where
  placement := by
    refine tracked.placement.move number destination known (fun place => ?_) (fun other place different => ?_)
    · by_cases here : place = destination
      · rw [here, arrived]
        exact iff_of_true (List.mem_append_right _ (List.mem_singleton_self _)) rfl
      · rw [left place here]
        refine iff_of_false ?_ here
        by_cases issued : place = .issued
        · rw [issued]
          exact fun member => absent (List.mem_of_mem_erase member)
        · exact (tracked.once place issued).not_mem_erase
    · by_cases here : place = destination
      · rw [here, arrived, List.mem_append, List.mem_singleton, or_iff_left different]
      · rw [left place here, List.mem_erase_of_ne different]
  once place other := by
    by_cases here : place = destination
    · subst here
      rw [arrived]
      refine List.nodup_append.mpr ⟨tracked.once place other, List.pairwise_singleton .., ?_⟩
      intro handle old last same
      rw [List.mem_singleton.mp same]
      rintro rfl
      exact new old
    · rw [left place here]
      exact (tracked.once place other).erase number
  fresh := fresh
  sent := sent

/-- **A request goes from one place to another.** -/
theorem moveFrom (tracked : Tracked sys) {number : Nat} (source destination : Place)
    (unissued : source ≠ .issued) (apart : source ≠ destination) (present : number ∈ sys.handlesAt source)
    (accepted : after.accepted = sys.accepted) (left : after.handlesAt source = (sys.handlesAt source).erase number)
    (arrived : after.handlesAt destination = sys.handlesAt destination ++ [number])
    (others : ∀ place, place ≠ source → place ≠ destination → after.handlesAt place = sys.handlesAt place)
    (fresh : ∀ request ∈ after.mc.transactionQueue, request.issued = false)
    (sent : ∀ queueId, ∀ command ∈ after.mc.commandQueues queueId, command.issued = true →
      ∀ handle ∈ command.handle, handle ∈ handles after.sent) : Tracked after := by
  have elsewhere : ∀ place, place ≠ source → number ∉ sys.handlesAt place :=
    fun place other => tracked.placement.not_elsewhere present other
  have known : number ∈ handles sys.accepted := (tracked.placement.somewhere number).mpr ⟨_, present⟩
  refine tracked.move number destination (fun other => ?_) (elsewhere _ unissued.symm)
    (elsewhere _ apart.symm) (fun place other => ?_) arrived fresh sent
  · rw [accepted]
    refine (or_iff_right_of_imp ?_).symm
    rintro rfl
    exact known
  · by_cases here : place = source
    · rw [here]
      exact left
    · rw [others place here other, List.erase_of_not_mem (elsewhere place here)]

theorem accept (tracked : Tracked sys) {request taken : NVMainRequest}
    (new : ∀ handle ∈ request.handle, handle ∉ handles sys.accepted)
    (handle : taken.handle = request.handle) (fresh : taken.issued = false)
    (mc : after.mc = sys.mc.setTransactionQueue (sys.mc.transactionQueue ++ [taken]))
    (sent : after.sent = sys.sent) (accepted : after.accepted = sys.accepted ++ [request]) : Tracked after := by
  have queue : after.handlesAt .transactionQueue = sys.handlesAt .transactionQueue ++ request.handle.toList := by
    show handles after.mc.transactionQueue = _
    rw [mc, ← handle, ← handles_singleton]
    exact handles_append ..
  have elsewhere : ∀ place, place ≠ .transactionQueue → after.handlesAt place = sys.handlesAt place := by
    intro place other
    cases place with
    | transactionQueue => exact absurd rfl other
    | commandQueue queueId =>
      show handles (unissued (after.mc.commandQueues queueId)) = _
      rw [mc]
      rfl
    | issued => exact congrArg handles sent
  have fresh : ∀ waiting ∈ after.mc.transactionQueue, waiting.issued = false := by
    intro waiting member
    rw [mc] at member
    rcases List.mem_append.mp member with old | last
    · exact tracked.fresh waiting old
    · rw [List.mem_singleton.mp last]
      exact fresh
  have issued : ∀ queueId, ∀ command ∈ after.mc.commandQueues queueId, command.issued = true →
      ∀ handle ∈ command.handle, handle ∈ handles after.sent := by
    rw [mc, sent]
    exact tracked.sent
  have known : handles after.accepted = handles sys.accepted ++ request.handle.toList := by
    rw [accepted, handles_append, handles_singleton]
  cases name : request.handle with
  | none =>
    rw [name, Option.toList_none, List.append_nil] at queue known
    refine tracked.frame (fun place _ => ?_) (fun handle => by rw [sent]) known fresh issued
    by_cases here : place = .transactionQueue
    · rw [here, queue]
    · exact elsewhere place here
  | some number =>
    rw [name, Option.toList_some] at queue known
    have nowhere := tracked.placement.nowhere (new number name)
    refine tracked.move number .transactionQueue (fun other => ?_) (nowhere _) (nowhere _)
      (fun place other => ?_) queue fresh issued
    · rw [known, List.mem_append, List.mem_singleton, or_comm]
    · rw [elsewhere place other, List.erase_of_not_mem (nowhere place)]

theorem schedule (tracked : Tracked sys) {cfg : Config} {child : Child χ}
    {request original : NVMainRequest} {mc : MemoryController} {front back : List NVMainRequest}
    (picked : Picked cfg child sys request mc front original back) :
    Tracked ({ sys with mc := mc }.startCommands cfg child request).1 := by
  obtain ⟨-, made, own, commands, pushes⟩ := startCommands_picked picked
  generalize started : ({ sys with mc := mc }.startCommands cfg child request).1 = after at pushes ⊢
  have requests : after.mc.transactionQueue = front ++ back := by
    rw [← started, startCommands_transactions, picked.rest]
    rfl
  have sent : after.sent = sys.sent := by rw [← started]; rfl
  have accepted : after.accepted = sys.accepted := by rw [← started]; rfl
  have handle : request.handle = original.handle := by rw [picked.same]
  have unflagged : request.issued = false := by
    rw [picked.same]
    exact tracked.fresh original picked.member
  have pushedFresh : ∀ queueId, ∀ command ∈ pushedTo queueId
      ((made ++ [own]).map (cfg.getCommandQueueId request.address, ·)), command.issued = false := by
    intro queueId command member
    obtain ⟨other, present, same⟩ := List.mem_map.mp (mem_pushedTo.mp member)
    obtain ⟨-, rfl⟩ := Prod.mk.injEq .. ▸ same
    rcases List.mem_append.mp present with mine | last
    · exact (commands.made other mine).2.1
    · rw [List.mem_singleton.mp last, commands.issued, unflagged]
  have queued : ∀ queueId, after.handlesAt (.commandQueue queueId) =
      sys.handlesAt (.commandQueue queueId) ++
        if queueId = cfg.getCommandQueueId request.address then original.handle.toList else [] := by
    intro queueId
    show handles (unissued (after.mc.commandQueues queueId)) = _
    have all : unissued (pushedTo queueId ((made ++ [own]).map
        (cfg.getCommandQueueId request.address, ·))) = pushedTo queueId ((made ++ [own]).map
        (cfg.getCommandQueueId request.address, ·)) :=
      List.filter_eq_self.mpr fun command member => by simp [pushedFresh queueId command member]
    rw [pushes queueId, unissued_append, handles_append, all, handles_pushed commands, handle]
    rfl
  have issued : ∀ queueId, ∀ command ∈ after.mc.commandQueues queueId, command.issued = true →
      ∀ handle ∈ command.handle, handle ∈ handles after.sent := by
    intro queueId command member flagged
    rw [pushes queueId, List.mem_append] at member
    rw [sent]
    refine tracked.sent queueId command (member.resolve_right fun new => ?_) flagged
    rw [pushedFresh queueId command new] at flagged
    cases flagged
  have fresh : ∀ waiting ∈ after.mc.transactionQueue, waiting.issued = false := by
    rw [requests]
    exact fun waiting left => tracked.fresh waiting (picked.left left)
  have before : sys.handlesAt .transactionQueue = handles front ++ (original.handle.toList ++ handles back) := by
    show handles sys.mc.transactionQueue = _
    rw [picked.queue, handles_append, handles_cons]
  have behind : after.handlesAt .transactionQueue = handles front ++ handles back := by
    show handles after.mc.transactionQueue = _
    rw [requests, handles_append]
  have unsent : after.handlesAt .issued = sys.handlesAt .issued := congrArg handles sent
  cases name : original.handle with
  | none =>
    rw [name] at before queued
    refine tracked.frame (fun place other => ?_) (fun handle => by rw [sent]) (by rw [accepted]) fresh issued
    cases place with
    | transactionQueue => rw [behind, before]; rfl
    | commandQueue queueId =>
      rw [queued queueId]
      split <;> exact List.append_nil _
    | issued => exact absurd rfl other
  | some number =>
    rw [name, Option.toList_some, List.singleton_append] at before
    rw [name, Option.toList_some] at queued
    have here : number ∈ sys.handlesAt .transactionQueue := by
      rw [before]
      exact List.mem_append_right _ (List.mem_cons_self ..)
    have left : after.handlesAt .transactionQueue = (sys.handlesAt .transactionQueue).erase number := by
      have once := tracked.once .transactionQueue nofun
      rw [before] at once
      have notFront : number ∉ handles front :=
        fun member => (List.nodup_append.mp once).2.2 number member number (List.mem_cons_self ..) rfl
      rw [behind, before, List.erase_append_right _ notFront, List.erase_cons_head]
    refine tracked.moveFrom .transactionQueue (.commandQueue (cfg.getCommandQueueId request.address)) nofun nofun
      here accepted left (by rw [queued, if_pos rfl]) (fun place other there => ?_) fresh issued
    cases place with
    | transactionQueue => exact absurd rfl other
    | commandQueue queueId =>
      have different : queueId ≠ cfg.getCommandQueueId request.address :=
        fun same => there (congrArg _ same)
      rw [queued queueId, if_neg different, List.append_nil]
    | issued => exact unsent

theorem issue (tracked : Tracked sys) {queueId : Nat} {queueHead : NVMainRequest}
    {rest : List NVMainRequest} (queue : sys.mc.commandQueues queueId = queueHead :: rest)
    (flagged : after.mc.commandQueues = set1 sys.mc.commandQueues queueId ({ queueHead with issued := true } :: rest))
    (requests : after.mc.transactionQueue = sys.mc.transactionQueue)
    (sent : after.sent = sys.sent ++ [queueHead]) (accepted : after.accepted = sys.accepted) :
    Tracked after := by
  have issuedNow : after.handlesAt .issued = sys.handlesAt .issued ++ queueHead.handle.toList := by
    show handles after.sent = _
    rw [sent, handles_append, handles_singleton]
    rfl
  have fresh : ∀ request ∈ after.mc.transactionQueue, request.issued = false :=
    requests ▸ tracked.fresh
  have issued : ∀ query, ∀ command ∈ after.mc.commandQueues query, command.issued = true →
      ∀ handle ∈ command.handle, handle ∈ handles after.sent := by
    intro query command member flag handle named
    rw [sent, handles_append, List.mem_append]
    rw [flagged, set1_apply] at member
    split at member
    · rename_i same
      rcases List.mem_cons.mp member with rfl | behind
      · refine Or.inr (mem_handles.mpr ⟨queueHead, List.mem_singleton_self _, named⟩)
      · refine Or.inl (tracked.sent queueId command ?_ flag handle named)
        rw [queue]
        exact List.mem_cons_of_mem _ behind
    · exact Or.inl (tracked.sent query command member flag handle named)
  have others : ∀ query, query ≠ queueId →
      after.handlesAt (.commandQueue query) = sys.handlesAt (.commandQueue query) := by
    intro query different
    show handles (unissued (after.mc.commandQueues query)) = _
    rw [flagged, set1_apply, if_neg different]
    rfl
  have here : after.handlesAt (.commandQueue queueId) = handles (unissued rest) := by
    show handles (unissued (after.mc.commandQueues queueId)) = _
    rw [flagged, set1_apply, if_pos rfl]
    exact congrArg handles (List.filter_cons_of_neg (by simp))
  have before : sys.handlesAt (.commandQueue queueId) =
      if queueHead.issued then handles (unissued rest)
      else queueHead.handle.toList ++ handles (unissued rest) := by
    show handles (unissued (sys.mc.commandQueues queueId)) = _
    rw [queue]
    cases flag : queueHead.issued with
    | true => exact congrArg handles (List.filter_cons_of_neg (by simp [flag]))
    | false =>
      rw [if_neg nofun, ← handles_cons]
      exact congrArg handles (List.filter_cons_of_pos (by simp [flag]))
  have transactions : after.handlesAt .transactionQueue = sys.handlesAt .transactionQueue :=
    congrArg handles requests
  -- nothing moves unless the head is a request that was not issued before
  have unmoved : after.handlesAt (.commandQueue queueId) = sys.handlesAt (.commandQueue queueId) →
      (∀ handle ∈ queueHead.handle, handle ∈ handles sys.sent) → Tracked after := by
    intro same already
    refine tracked.frame (fun place other => ?_) (fun handle => ?_) (by rw [accepted]) fresh issued
    · cases place with
      | transactionQueue => exact transactions
      | commandQueue query =>
        by_cases this : query = queueId
        · rw [this]
          exact same
        · exact others query this
      | issued => exact absurd rfl other
    · rw [sent, handles_append, handles_singleton, List.mem_append, Option.mem_toList]
      exact or_iff_left_of_imp (already handle)
  cases flag : queueHead.issued with
  | true =>
    rw [flag] at before
    refine unmoved (by rw [here, before]; rfl) (tracked.sent queueId queueHead ?_ flag)
    rw [queue]
    exact List.mem_cons_self ..
  | false =>
    rw [flag] at before
    cases name : queueHead.handle with
    | none => exact unmoved (by rw [here, before, name]; rfl) (by simp [name])
    | some number =>
      rw [name] at before issuedNow
      have present : number ∈ sys.handlesAt (.commandQueue queueId) := by
        rw [before]
        exact List.mem_cons_self ..
      have left : after.handlesAt (.commandQueue queueId) = (sys.handlesAt (.commandQueue queueId)).erase number := by
        rw [here, before]
        exact (List.erase_cons_head ..).symm
      refine tracked.moveFrom (.commandQueue queueId) .issued nofun nofun present accepted left issuedNow
        (fun place other there => ?_) fresh issued
      cases place with
      | transactionQueue => exact transactions
      | commandQueue query => exact others query fun same => other (congrArg _ same)
      | issued => exact absurd rfl there

theorem cleanup (tracked : Tracked sys) (cfg : Config) : Tracked (sys.cleanupCallback cfg) := by
  have queues : ∀ queueId, (sys.mc.cleanup cfg).commandQueues queueId =
      if queueId < cfg.commandQueueCount then unissued (sys.mc.commandQueues queueId)
      else sys.mc.commandQueues queueId := fun _ => rfl
  refine tracked.frame (fun place other => ?_) (fun _ => Iff.rfl) rfl tracked.fresh ?_
  · cases place with
    | transactionQueue => rfl
    | commandQueue queueId =>
      show handles (unissued ((sys.mc.cleanup cfg).commandQueues queueId)) = _
      rw [queues]
      split
      · unfold unissued
        rw [List.filter_filter]
        simp only [Bool.and_self]
        rfl
      · rfl
    | issued => exact absurd rfl other
  · intro queueId command member flag
    exact tracked.sent queueId command (mem_of_mem_cleanup member) flag

end Tracked

/-! ### Runs -/

/-- The actions of a run: a request is accepted once, before it is issued, and commands are queued for
what the searches find. -/
def RequestAction (sys : System χ) : Action χ → Prop
  | .accept request =>
    request.issued = false ∧ ∀ handle ∈ request.handle, handle ∉ handles sys.accepted
  | .queue _ => False
  | _ => True

/-- No write comes back after it was issued. -/
def NoPutBack : Action χ → Prop
  | .complete request => ¬request.PutBack
  | _ => True

instance (sys : System χ) : (action : Action χ) → Decidable (RequestAction sys action)
  | .accept request => inferInstanceAs
      (Decidable (request.issued = false ∧ ∀ handle ∈ request.handle, handle ∉ handles sys.accepted))
  | .queue _ => isFalse id
  | .environment .. | .complete _ | .pulse _ | .schedule _ _ | .refresh | .issue _ | .cleanup =>
    isTrue trivial

instance : (action : Action χ) → Decidable (NoPutBack action)
  | .complete request => inferInstanceAs (Decidable (¬request.PutBack))
  | .environment .. | .accept _ | .pulse _ | .schedule _ _ | .queue _ | .refresh | .issue _
  | .cleanup => isTrue trivial

/-- **Every action conserves the requests**, unless it puts back a write. -/
theorem perform_tracked {cfg : Config} {child : Child χ} (sys : System χ) (action : Action χ)
    (fits : RequestAction sys action ∧ NoPutBack action) (tracked : Tracked sys) :
    Tracked (sys.perform cfg child action) := by
  cases action with
  | environment below queue lastCommandWake deadlocked outOfDepth =>
    exact tracked.pushOwn (Pushes.of_eq rfl) (fun _ member => absurd member List.not_mem_nil) rfl rfl rfl
  | accept request =>
    show Tracked ((sys.issueCommand cfg request).getD sys)
    rcases issueCommand_eq request with full | ⟨after, taken, mc, sent, accepted⟩
    · rw [full]
      exact tracked
    · rw [taken]
      show Tracked after
      refine tracked.accept fits.1.2 ?_ ?_ mc sent accepted
      · rfl
      · exact fits.1.1
  | complete request =>
    show Tracked (sys.requestComplete request)
    rw [requestComplete_of_not_putBack fits.2]
    exact tracked
  | pulse refresh =>
    refine tracked.pushOwn (Pushes.of_eq ?_) (fun _ member => absurd member List.not_mem_nil) ?_ rfl rfl
    · show (sys.countRefresh cfg refresh).mc.commandQueues = _
      unfold System.countRefresh
      dsimp only
      split <;> rfl
    · show (sys.countRefresh cfg refresh).mc.transactionQueue = _
      unfold System.countRefresh
      dsimp only
      split <;> rfl
  | schedule finder pred =>
    exact perform_schedule Tracked tracked fun request mc front original back picked =>
      tracked.schedule picked
  | queue request => exact fits.1.elim
  | refresh =>
    show Tracked (sys.startRefresh cfg)
    unfold System.startRefresh
    split
    · exact tracked
    · rename_i i j target
      obtain ⟨pushed, pushes, own⟩ := queueRefresh_pushed cfg sys.mc i j sys.now
      exact tracked.pushOwn pushes (fun item member => ⟨(own item member).1, (own item member).2.1⟩)
        (queueRefresh_frame cfg sys.mc i j sys.now).1 rfl rfl
  | issue queueId =>
    show Tracked (sys.issueHead cfg child queueId)
    cases queue : sys.mc.commandQueues queueId with
    | nil =>
      rw [issueHead_of_empty queue]
      exact tracked
    | cons queueHead rest =>
      obtain ⟨flags, failed, issued, current, -, changed⟩ := issueHead_changes cfg child queue
      obtain ⟨-, sent, accepted⟩ := issueHead_eq queue
      exact tracked.issue queue (congrArg MemoryController.commandQueues changed) (by rw [changed]) sent accepted
  | cleanup => exact tracked.cleanup cfg

/-- **The requests are conserved.** In every state, `IssueMemoryCommands` succeeds on the request that
`FRFCFS::Cycle` has found, and the cycle moves at most one request, from the transaction queue to the
end of the command queue of its address. In every run in which no write is put back, each accepted
request is in exactly one place: in the transaction queue, in a command queue and not yet issued, or
issued; and no queue has it twice. -/
theorem requests_conserved (cfg : Config) (child : Child χ) :
    (∀ (sys : System χ) (depth : Nat),
      (∀ request mc, sys.findNextRequest cfg child = some (request, mc) →
        ({ sys with mc := mc }.issueMemoryCommands cfg child depth request).2 = true) ∧
      (Undisturbed sys (sys.cycle cfg child depth) ∨ ∃ front request back,
        sys.mc.transactionQueue = front ++ request :: back ∧
        (sys.cycle cfg child depth).mc.transactionQueue = front ++ back ∧
        ∀ queueId, handles ((sys.cycle cfg child depth).mc.commandQueues queueId) =
          handles (sys.mc.commandQueues queueId) ++
            if queueId = cfg.getCommandQueueId request.address then request.handle.toList else [])) ∧
    ∀ (below : χ) (queue : ControllerQueue) (actions : List (Action χ)),
      AllowedRun (System.perform cfg child)
        (fun sys action => RequestAction sys action ∧ NoPutBack action)
        (System.setConfig cfg below queue) actions →
      let sys := runActions (System.perform cfg child) (System.setConfig cfg below queue) actions
      (∀ request ∈ sys.accepted, ∀ handle ∈ request.handle, ∃! place, handle ∈ sys.handlesAt place) ∧
        ∀ place, place ≠ .issued → (sys.handlesAt place).Nodup := by
  refine ⟨fun sys depth => ⟨fun request mc found => issueMemoryCommands_accepts found depth,
    cycle_moves sys depth⟩, fun below queue actions run => ?_⟩
  have tracked := run.invariant Tracked perform_tracked (Tracked.setConfig cfg below queue)
  exact ⟨fun request member handle named =>
    tracked.placement.unique (mem_handles.mpr ⟨request, member, named⟩), tracked.once⟩

def pausingConfig : Config := { smallConfig .perBank 0 with writePausing := true }

/-- A write and a read of another row of its bank: the write is issued, the read only queued. -/
def twoRequests : List (Action Unit) :=
  [.accept (.incoming 1 .write 0), .accept (.incoming 2 .read 256), .wait 5,
    .schedule .closedBankRequest fun request => request.type = .write, .issue 0, .wait 6, .cleanup,
    .issue 0, .complete { NVMainRequest.incoming 1 .write 0 with issueCycle := 5, issued := true },
    .wait 7, .cleanup, .schedule .oldestReadyRequest fun _ => true, .issue 0]

theorem requests_conserved_twoRequests :
    let sys := runActions (System.perform pausingConfig promptChild)
      (System.setConfig pausingConfig () .create) twoRequests
    (∃! place, 1 ∈ sys.handlesAt place) ∧ (∃! place, 2 ∈ sys.handlesAt place) ∧
      1 ∈ sys.handlesAt .issued ∧ 2 ∈ sys.handlesAt (.commandQueue 0) := by
  have tracked := ((requests_conserved pausingConfig promptChild).2 () .create twoRequests (by decide)).1
  exact ⟨tracked (.incoming 1 .write 0) (by decide) 1 rfl,
    tracked (.incoming 2 .read 256) (by decide) 2 rfl, by decide, by decide⟩

/-- A write is issued; a read of another row of its bank pauses it and is served; the write is put
back. -/
def pausedCalls : List (ControllerCall Unit) :=
  [.other (.accept (.incoming 1 .write 0)), .other (.wait 5), .cycle 4, .other (.wait 6),
    .other .cleanup, .cycleCommandQueues, .other (.accept (.incoming 2 .read 256)), .other (.wait 7),
    .other .cleanup, .cycle 4, .other (.wait 8), .other .cleanup, .cycleCommandQueues,
    .other (.complete { NVMainRequest.incoming 1 .write 0 with
      issueCycle := 5, issued := true, paused := true }),
    .other (.wait 9), .other .cleanup, .cycleCommandQueues, .other (.wait 10), .other .cleanup]

/-- The write is scheduled again. -/
def resumedCalls : List (ControllerCall Unit) :=
  [.cycle 4, .other (.wait 11), .other .cleanup, .cycleCommandQueues, .other (.wait 12), .other .cleanup, .cycle 4]

/-- **A paused write is dropped.** It goes back to the transaction queue with `FLAG_ISSUED` set. When it
is scheduled again, behind a precharge and an activate, the cleanup of the precharge removes it as well:
it is in no queue any more and has not been issued since. -/
theorem paused_write_dropped :
    let paused := runActions (System.invoke pausingConfig promptChild)
      (System.setConfig pausingConfig () .create) pausedCalls
    let resumed := runActions (System.invoke pausingConfig promptChild) paused resumedCalls
    (¬∃! place, 1 ∈ paused.handlesAt place) ∧ handles paused.mc.transactionQueue = [1] ∧
      resumed.mc.transactionQueue = [] ∧
      (∀ queueId < pausingConfig.commandQueueCount, resumed.mc.commandQueues queueId = []) ∧
      resumed.sent.map (·.type) = paused.sent.map (·.type) ++ [.precharge, .activate] := by
  refine ⟨fun ⟨place, _, only⟩ => ?_, by decide, by decide, by decide, by decide⟩
  have first := only .transactionQueue (by decide)
  have second := only .issued (by decide)
  rw [← second] at first
  cases first

end Emas.Nvmain

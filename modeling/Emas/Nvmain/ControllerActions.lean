/-
**The controller as an action system.**

An `Action` is a stretch of the controller's code that no other part of the controller interrupts:
accepting or taking back a request, a refresh pulse, a search with the commands it queues, one
`HandleRefresh` up to its wakeup, the issue of the head of a command queue, a cleanup. `environment`
is everything else: time, the event queue, the child, and the fields no bookkeeping depends on.
-/

import Emas.Nvmain.MemoryController
import Emas.Lib.ActionRun

namespace Emas.Nvmain

open Table

variable {χ : Type}

/-! ### Actions -/

/-- The searches of the controller. -/
inductive Finder where
  | starvedRequest
  | rowBufferHit
  | cachedAddress
  | writeStalledRead
  | oldestReadyRequest
  | closedBankRequest
  deriving DecidableEq, Repr

/-- Run a search. -/
def System.find (cfg : Config) (child : Child χ) (sys : System χ) (finder : Finder)
    (pred : NVMainRequest → Bool) : Option (NVMainRequest × MemoryController) :=
  match finder with
  | .starvedRequest => sys.mc.findStarvedRequest cfg sys.now pred
  | .rowBufferHit => sys.mc.findRowBufferHit cfg sys.now pred
  | .cachedAddress => sys.findCachedAddress cfg child pred
  | .writeStalledRead => (sys.findWriteStalledRead cfg child pred).join
  | .oldestReadyRequest => sys.mc.findOldestReadyRequest cfg sys.now pred
  | .closedBankRequest => sys.mc.findClosedBankRequest cfg sys.now pred

/-- A step of the controller or of what is around it. -/
inductive Action (χ : Type) where
  | environment (below : χ) (queue : ControllerQueue) (lastCommandWake : Nat)
      (deadlocked outOfDepth : Bool)
  | accept (request : NVMainRequest)
  | complete (request : NVMainRequest)
  | pulse (refresh : NVMainRequest)
  | schedule (finder : Finder) (pred : NVMainRequest → Bool)
  | queue (request : NVMainRequest)
  | refresh
  | issue (queueId : Nat)
  | cleanup

namespace System

variable (cfg : Config) (child : Child χ)

/-- Take an action. -/
def perform (sys : System χ) : Action χ → System χ
  | .environment below queue lastCommandWake deadlocked outOfDepth =>
    { sys with
      child := below
      queue := queue
      mc := { sys.mc with
        lastCommandWake := lastCommandWake
        deadlocked := deadlocked
        outOfDepth := outOfDepth } }
  | .accept request => (sys.issueCommand cfg request).getD sys
  | .complete request => sys.requestComplete request
  | .pulse refresh => sys.processRefreshPulse cfg refresh
  | .schedule finder pred =>
    match sys.find cfg child finder pred with
    | some (request, mc) => ({ sys with mc := mc }.startCommands cfg child request).1
    | none => sys
  | .queue request => (sys.startCommands cfg child request).1
  | .refresh => sys.startRefresh cfg
  | .issue queueId => sys.issueHead cfg child queueId
  | .cleanup => sys.cleanupCallback cfg

end System

/-! ### What a search gives -/

/-- A search has taken `original` out of the transaction queue, and found it as `request`: through the child as it was,
or else marked if it is the last one for its row. -/
structure Picked (cfg : Config) (child : Child χ) (sys : System χ) (request : NVMainRequest)
    (mc : MemoryController) (front : List NVMainRequest) (original : NVMainRequest)
    (back : List NVMainRequest) : Prop where
  queue : sys.mc.transactionQueue = front ++ original :: back
  rest : mc = sys.mc.setTransactionQueue (front ++ back)
  same : request = { original with lastRequest := request.lastRequest }
  empty : sys.mc.commandQueues (cfg.getCommandQueueId request.address) = []
  last : child.isIssuable sys.child sys.now (makeCachedRequest request) = true ∧ request = original ∨
    request.lastRequest = (original.lastRequest || MemoryController.isLastRequest cfg (front ++ back) original)

variable {pred : NVMainRequest → Bool}

variable {finder : Finder}

section Search

variable {cfg : Config} {child : Child χ} {sys : System χ} {request : NVMainRequest}
  {mc : MemoryController}

theorem find?_eraseP_split {eligible : NVMainRequest → Bool} {list : List NVMainRequest}
    (found : list.find? eligible = some request) :
    ∃ front back, list = front ++ request :: back ∧ list.eraseP eligible = front ++ back := by
  obtain ⟨holds, front, back, rfl, skipped⟩ := List.find?_eq_some_iff_append.mp found
  refine ⟨front, back, rfl, ?_⟩
  rw [List.eraseP_append_right _ fun item member => by simpa using skipped item member, List.eraseP_cons_of_pos holds]

theorem findRequest_picked {eligible : NVMainRequest → Bool} (empty : ∀ request, eligible request = true →
      (sys.mc.commandQueues (cfg.getCommandQueueId request.address)).isEmpty = true)
    (found : sys.mc.findRequest cfg eligible = some (request, mc)) :
    ∃ front original back, Picked cfg child sys request mc front original back := by
  unfold MemoryController.findRequest at found
  split at found
  · cases found
  · rename_i original first
    obtain ⟨front, back, whole, left⟩ := find?_eraseP_split first
    obtain ⟨rfl, rfl⟩ := Prod.ext_iff.mp (Option.some.inj found)
    refine ⟨front, original, back, whole, ?_, rfl, ?_, Or.inr ?_⟩
    · exact congrArg sys.mc.setTransactionQueue left
    · exact List.isEmpty_iff.mp (empty original (List.find?_some first))
    · show (original.lastRequest || _) = _
      rw [left]

theorem findCachedAddress_picked (found : sys.findCachedAddress cfg child pred = some (request, mc)) :
    ∃ front original back, Picked cfg child sys request mc front original back := by
  unfold System.findCachedAddress at found
  split at found
  · cases found
  · rename_i original first
    obtain ⟨front, back, whole, left⟩ := find?_eraseP_split first
    obtain ⟨rfl, rfl⟩ := Prod.ext_iff.mp (Option.some.inj found)
    have eligible := List.find?_some first
    simp only [System.cachedEligible, Bool.and_eq_true] at eligible
    refine ⟨front, original, back, whole, ?_, rfl, ?_, Or.inl ⟨eligible.1.1.2, rfl⟩⟩
    · exact congrArg sys.mc.setTransactionQueue left
    · exact List.isEmpty_iff.mp eligible.1.1.1

theorem stalledScan_split {list left : List NVMainRequest}
    (hit : sys.stalledScan cfg child pred list = .hit request left) :
    ∃ front back, list = front ++ request :: back ∧ left = front ++ back ∧
      sys.mc.commandQueues (cfg.getCommandQueueId request.address) = [] := by
  induction list generalizing left with
  | nil => cases hit
  | cons first rest ih =>
    have behind : ∀ {left}, (sys.stalledScan cfg child pred rest).behind first = .hit request left →
        ∃ front back, first :: rest = front ++ request :: back ∧ left = front ++ back ∧
          sys.mc.commandQueues (cfg.getCommandQueueId request.address) = [] := by
      intro left skipped
      cases scan : sys.stalledScan cfg child pred rest with
      | notFound => rw [scan] at skipped; cases skipped
      | stall => rw [scan] at skipped; cases skipped
      | hit other less =>
        rw [scan] at skipped
        obtain ⟨rfl, rfl⟩ : other = request ∧ first :: less = left := by
          simpa [System.StalledRead.behind] using skipped
        obtain ⟨front, back, rfl, rfl, empty⟩ := ih scan
        exact ⟨first :: front, back, rfl, rfl, empty⟩
    unfold System.stalledScan at hit
    split at hit
    · exact behind hit
    · split at hit
      · exact behind hit
      · rename_i full
        split at hit
        · cases hit
        · split at hit
          · split at hit
            · cases hit
            · obtain ⟨rfl, rfl⟩ : first = request ∧ rest = left := by simpa using hit
              exact ⟨[], rest, rfl, rfl, by simpa using full⟩
          · exact behind hit

theorem findWriteStalledRead_picked (found : sys.findWriteStalledRead cfg child pred = some (some (request, mc))) :
    ∃ front original back, Picked cfg child sys request mc front original back := by
  unfold System.findWriteStalledRead at found
  split at found
  · cases found
  · split at found
    · cases found
    · cases found
    · rename_i original left scan
      obtain ⟨front, back, whole, rfl, empty⟩ := stalledScan_split scan
      obtain ⟨rfl, rfl⟩ := Prod.ext_iff.mp (Option.some.inj (Option.some.inj found))
      exact ⟨front, original, back, whole, rfl, rfl, empty, Or.inr rfl⟩

theorem bankFree_empty {address : NVMAddress} (free : sys.mc.bankFree cfg address = true) :
    (sys.mc.commandQueues (cfg.getCommandQueueId address)).isEmpty = true := by
  simp only [MemoryController.bankFree, Bool.and_eq_true] at free
  exact free.1.1

/-- **Every search** takes one request out of the transaction queue, and only one whose command queue
is empty. -/
theorem find_picked (found : sys.find cfg child finder pred = some (request, mc)) :
    ∃ front original back, Picked cfg child sys request mc front original back := by
  cases finder with
  | starvedRequest =>
    refine findRequest_picked (fun request eligible => ?_) found
    simp only [Bool.and_eq_true] at eligible
    exact bankFree_empty eligible.1.1.1.1
  | rowBufferHit =>
    refine findRequest_picked (fun request eligible => ?_) found
    simp only [Bool.and_eq_true] at eligible
    exact bankFree_empty eligible.1.1.1
  | cachedAddress => exact findCachedAddress_picked found
  | writeStalledRead => exact findWriteStalledRead_picked (Option.join_eq_some_iff.mp found)
  | oldestReadyRequest =>
    refine findRequest_picked (fun request eligible => ?_) found
    simp only [Bool.and_eq_true] at eligible
    exact bankFree_empty eligible.1.1.1
  | closedBankRequest =>
    refine findRequest_picked (fun request eligible => ?_) found
    simp only [Bool.and_eq_true] at eligible
    exact bankFree_empty eligible.1.1.1

variable {front back : List NVMainRequest} {original : NVMainRequest}

theorem Picked.member
    (picked : Picked cfg child sys request mc front original back) : original ∈ sys.mc.transactionQueue := by
  rw [picked.queue]
  exact List.mem_append_right _ (List.mem_cons_self ..)

theorem Picked.lastRequest_of_closePage
    (openPage : cfg.closePage = 0) (picked : Picked cfg child sys request mc front original back) :
    request.lastRequest = original.lastRequest := by
  rcases picked.last with ⟨-, same⟩ | last
  · rw [same]
  · rw [last, MemoryController.isLastRequest, if_pos openPage, Bool.or_false]

theorem Picked.left (picked : Picked cfg child sys request mc front original back) {waiting : NVMainRequest}
    (left : waiting ∈ front ++ back) : waiting ∈ sys.mc.transactionQueue := by
  rw [picked.queue]
  rcases List.mem_append.mp left with before | behind
  · exact List.mem_append_left _ before
  · exact List.mem_append_right _ (List.mem_cons_of_mem _ behind)

theorem findNextRequest_find (found : sys.findNextRequest cfg child = some (request, mc)) :
    ∃ finder, sys.find cfg child finder System.dummyPredicate = some (request, mc) := by
  unfold System.findNextRequest at found
  split at found
  · rename_i first
    exact ⟨.starvedRequest, first.trans found⟩
  split at found
  · rename_i first
    exact ⟨.rowBufferHit, first.trans found⟩
  split at found
  · rename_i first
    exact ⟨.cachedAddress, first.trans found⟩
  split at found
  · rename_i first
    exact ⟨.writeStalledRead, Option.join_eq_some_iff.mpr (first.trans (congrArg some found))⟩
  split at found
  · rename_i first
    exact ⟨.oldestReadyRequest, first.trans found⟩
  · exact ⟨.closedBankRequest, found⟩

end Search

/-! ### What IssueMemoryCommands does -/

theorem queueCommands_cases (cfg : Config) (mc : MemoryController) (request : NVMainRequest)
    (cached writing : Bool) (now : Nat) :
    (cached = true ∧ mc.rowHit cfg request.address = false ∧
      mc.queueCommands cfg request cached writing now =
        (mc.pushBack (cfg.getCommandQueueId request.address) { request with issueCycle := now }, .cached)) ∨
    (mc.activateQueued request.address.rank request.address.bank = false ∧ cached = false ∧
      mc.commandQueues (cfg.getCommandQueueId request.address) = [] ∧ mc.queueCommands cfg request cached writing now =
        (mc.queueClosedBank cfg request writing now, .queued)) ∨
    (mc.rowMiss cfg request.address = true ∧ cached = false ∧
      mc.commandQueues (cfg.getCommandQueueId request.address) = [] ∧ mc.queueCommands cfg request cached writing now =
        (mc.queueRowMiss cfg request writing now, .queued)) ∨
    (mc.rowHit cfg request.address = true ∧
      mc.queueCommands cfg request cached writing now = (mc.queueRowHit cfg request now, .queued)) ∨
    (mc.commandQueues (cfg.getCommandQueueId request.address) ≠ [] ∧
      mc.queueCommands cfg request cached writing now = (mc, .refused)) := by
  have hit : mc.rowHit cfg request.address = true →
      mc.activateQueued request.address.rank request.address.bank = true ∧ mc.rowMiss cfg request.address = false := by
    intro hit
    simp only [MemoryController.rowHit, Bool.and_eq_true, decide_eq_true_eq] at hit
    obtain ⟨⟨⟨queued, active⟩, row⟩, muxed⟩ := hit
    exact ⟨queued, by simp [MemoryController.rowMiss, queued, active, row, muxed]⟩
  have covered : mc.activateQueued request.address.rank request.address.bank = true →
      mc.rowHit cfg request.address = false → mc.rowMiss cfg request.address = true := by
    intro queued missed
    simp only [MemoryController.rowHit, MemoryController.rowMiss, queued, Bool.true_and,
      Bool.and_eq_false_iff, decide_eq_false_iff_not, Bool.or_eq_true, Bool.not_eq_true', decide_eq_true_eq] at missed ⊢
    exact missed
  unfold MemoryController.queueCommands
  dsimp only
  cases onRow : mc.rowHit cfg request.address with
  | true =>
    obtain ⟨queued, noMiss⟩ := hit onRow
    exact Or.inr (Or.inr (Or.inr (Or.inl ⟨rfl, by simp [queued, noMiss]⟩)))
  | false =>
    cases cached with
    | true => exact Or.inl ⟨rfl, rfl, by simp⟩
    | false =>
      cases queue : mc.commandQueues (cfg.getCommandQueueId request.address) with
      | cons head rest => exact Or.inr (Or.inr (Or.inr (Or.inr ⟨by simp, by simp⟩)))
      | nil =>
        cases queued : mc.activateQueued request.address.rank request.address.bank with
        | false => exact Or.inr (Or.inl ⟨rfl, rfl, rfl, by simp⟩)
        | true =>
          have missed := covered queued onRow
          exact Or.inr (Or.inr (Or.inl ⟨missed, rfl, rfl, by simp [missed]⟩))

/-! ### What the actions do to the controller -/

section Projections

variable (cfg : Config) (child : Child χ) (sys : System χ)

/-- The answers of the child that `IssueMemoryCommands` works with. -/
def System.cachedAnswer (request : NVMainRequest) : Bool :=
  child.isIssuable sys.child sys.now (makeCachedRequest request)

/-- The child is writing to the subarray of the request. -/
def System.writingAnswer (request : NVMainRequest) : Bool :=
  ((child.findSubArray sys.child request).map SubArrayStatus.isWriting).getD false

theorem startCommands_eq (request : NVMainRequest) : sys.startCommands cfg child request =
    ({ sys with
        mc := (sys.mc.queueCommands cfg request (sys.cachedAnswer child request)
          (sys.writingAnswer child request) sys.now).1 },
      (sys.mc.queueCommands cfg request (sys.cachedAnswer child request)
        (sys.writingAnswer child request) sys.now).2) := rfl

@[simp] theorem scheduleCleanup_mc : (sys.scheduleCleanup cfg).mc = sys.mc := by
  unfold System.scheduleCleanup
  split <;> rfl

@[simp] theorem scheduleCleanup_sent : (sys.scheduleCleanup cfg).sent = sys.sent := by
  unfold System.scheduleCleanup
  split <;> rfl

@[simp] theorem scheduleCleanup_accepted : (sys.scheduleCleanup cfg).accepted = sys.accepted := by
  unfold System.scheduleCleanup
  split <;> rfl

@[simp] theorem wakeTransactions_mc (queueId : Nat) (only : Bool) :
    (sys.wakeTransactions cfg queueId only).mc = sys.mc := by
  unfold System.wakeTransactions
  split <;> rfl

@[simp] theorem wakeTransactions_sent (queueId : Nat) (only : Bool) :
    (sys.wakeTransactions cfg queueId only).sent = sys.sent := by
  unfold System.wakeTransactions
  split <;> rfl

@[simp] theorem wakeTransactions_accepted (queueId : Nat) (only : Bool) :
    (sys.wakeTransactions cfg queueId only).accepted = sys.accepted := by
  unfold System.wakeTransactions
  split <;> rfl

variable {cfg child sys}

theorem issueHead_eq {queueId : Nat} {queueHead : NVMainRequest} {rest : List NVMainRequest}
    (queue : sys.mc.commandQueues queueId = queueHead :: rest) :
    (sys.issueHead cfg child queueId).mc =
        (sys.mc.markIssued cfg queueId queueHead rest (sys.sendCommand child queueHead).now ).moveCurrentQueue cfg ∧
      (sys.issueHead cfg child queueId).sent = sys.sent ++ [queueHead] ∧
      (sys.issueHead cfg child queueId).accepted = sys.accepted := by
  unfold System.issueHead
  rw [queue]
  dsimp only
  rw [wakeTransactions_mc, scheduleCleanup_mc, wakeTransactions_sent, scheduleCleanup_sent,
    wakeTransactions_accepted, scheduleCleanup_accepted]
  exact ⟨rfl, rfl, rfl⟩

theorem issueHead_of_empty {queueId : Nat} (queue : sys.mc.commandQueues queueId = []) :
    sys.issueHead cfg child queueId = sys := by
  unfold System.issueHead
  rw [queue]

/-- A request that is accepted goes to the end of the transaction queue, with its address
translated. -/
theorem issueCommand_eq (request : NVMainRequest) :
    sys.issueCommand cfg request = none ∨ ∃ after, sys.issueCommand cfg request = some after ∧
      after.mc = sys.mc.setTransactionQueue (sys.mc.transactionQueue ++
        [{ request with
          arrivalCycle := sys.now
          address := cfg.translate request.address.physical }]) ∧
      after.sent = sys.sent ∧ after.accepted = sys.accepted ++ [request] := by
  unfold System.issueCommand
  split
  · exact Or.inl rfl
  · refine Or.inr ⟨_, rfl, ?_⟩
    unfold System.enqueue
    dsimp only
    split <;> exact ⟨rfl, rfl, rfl⟩

theorem perform_schedule (inv : System χ → Prop) (none : inv sys)
    (found : ∀ request mc front original back, Picked cfg child sys request mc front original back →
      inv ({ sys with mc := mc }.startCommands cfg child request).1) :
    inv (sys.perform cfg child (.schedule finder pred)) := by
  show inv (match sys.find cfg child finder pred with
    | some (request, mc) => ({ sys with mc := mc }.startCommands cfg child request).1
    | .none => sys)
  cases search : sys.find cfg child finder pred with
  | none => exact none
  | some result =>
    obtain ⟨request, mc⟩ := result
    obtain ⟨front, original, back, picked⟩ := find_picked search
    exact found request mc front original back picked

/-- `RequestComplete` puts the request back into the transaction queue. -/
def NVMainRequest.PutBack (request : NVMainRequest) : Prop :=
  (request.type = .write ∨ request.type = .writePrecharge) ∧ (request.cancelled = true ∨ request.paused = true)

instance (request : NVMainRequest) : Decidable request.PutBack :=
  inferInstanceAs (Decidable ((request.type = .write ∨ request.type = .writePrecharge) ∧
    (request.cancelled = true ∨ request.paused = true)))

theorem requestComplete_of_not_putBack {request : NVMainRequest} (gone : ¬request.PutBack) :
    sys.requestComplete request = sys := if_neg gone

theorem requestComplete_eq (request : NVMainRequest) :
    sys.requestComplete request = sys ∨ sys.requestComplete request = sys.prequeue request := by
  unfold System.requestComplete
  split
  · exact Or.inr rfl
  · exact Or.inl rfl

end Projections

/-! ### Invariants of the controller -/

/-- An invariant of the controller that says of the waiting transactions that they are fit, and otherwise does not
depend on them, on the refresh counters or on the wakeups. -/
structure Framed (inv : MemoryController → Prop) (fit : NVMainRequest → Prop) : Prop where
  waiting : ∀ {mc}, inv mc → ∀ request ∈ mc.transactionQueue, fit request
  frame : ∀ {mc} queue counters needs wake deadlocked outOfDepth, inv mc → (∀ request ∈ queue, fit request) →
    inv { mc with
      transactionQueue := queue
      delayedRefreshCounter := counters
      bankNeedRefresh := needs
      lastCommandWake := wake
      deadlocked := deadlocked
      outOfDepth := outOfDepth }

/-- What there is to show for an action: that new transactions are fit, and that the invariant is kept where
commands are queued, issued and cleaned up. -/
def Keeps (cfg : Config) (child : Child χ) (inv : MemoryController → Prop) (fit : NVMainRequest → Prop)
    (sys : System χ) : Action χ → Prop
  | .environment .. | .pulse _ => True
  | .accept request => fit { request with
      arrivalCycle := sys.now
      address := cfg.translate request.address.physical }
  | .complete request => request.PutBack → fit request
  | .schedule _ _ => ∀ request mc front original back,
      Picked cfg child sys request mc front original back → inv mc → fit original →
        inv ({ sys with mc := mc }.startCommands cfg child request).1.mc
  | .queue request => inv (sys.startCommands cfg child request).1.mc
  | .refresh => ∀ i j, sys.mc.refreshTarget cfg = some (i, j) → inv (sys.mc.queueRefresh cfg i j sys.now)
  | .issue queueId => ∀ queueHead rest, sys.mc.commandQueues queueId = queueHead :: rest →
      inv (sys.issueHead cfg child queueId).mc
  | .cleanup => inv (sys.mc.cleanup cfg)

/-- **The rule for invariants of the controller.** -/
theorem Framed.perform {inv : MemoryController → Prop} {fit : NVMainRequest → Prop} (framed : Framed inv fit)
    {cfg : Config} {child : Child χ} {sys : System χ} (start : inv sys.mc) {action : Action χ}
    (keeps : Keeps cfg child inv fit sys action) : inv (sys.perform cfg child action).mc := by
  have waiting := framed.waiting start
  cases action with
  | environment below queue lastCommandWake deadlocked outOfDepth =>
    exact framed.frame _ _ _ _ _ _ start waiting
  | accept request =>
    show inv ((sys.issueCommand cfg request).getD sys).mc
    rcases issueCommand_eq request with full | ⟨after, taken, mc, -⟩
    · rw [full]
      exact start
    · rw [taken]
      show inv after.mc
      rw [mc]
      refine framed.frame _ _ _ _ _ _ start fun other member => ?_
      rcases List.mem_append.mp member with old | new
      · exact waiting other old
      · rw [List.mem_singleton.mp new]
        exact keeps
  | complete request =>
    show inv (sys.requestComplete request).mc
    by_cases back : request.PutBack
    · rw [show sys.requestComplete request = sys.prequeue request from if_pos back]
      refine framed.frame _ _ _ _ _ _ start fun other member => ?_
      rcases List.mem_cons.mp member with rfl | old
      · exact keeps back
      · exact waiting other old
    · rw [requestComplete_of_not_putBack back]
      exact start
  | pulse refresh =>
    have counted : inv (sys.mc.incrementRefreshCounter cfg refresh.address.bank refresh.address.rank) :=
      framed.frame _ _ _ _ _ _ start waiting
    show inv (sys.countRefresh cfg refresh).mc
    unfold System.countRefresh
    dsimp only
    split
    · exact framed.frame _ _ _ _ _ _ counted waiting
    · exact counted
  | schedule finder pred =>
    refine perform_schedule (fun sys => inv sys.mc) start fun request mc front original back picked => ?_
    have rest : inv mc := by
      rw [picked.rest]
      exact framed.frame _ _ _ _ _ _ start fun other left => waiting other (picked.left left)
    exact keeps request mc front original back picked rest (waiting original picked.member)
  | queue request => exact keeps
  | refresh =>
    show inv (sys.startRefresh cfg).mc
    unfold System.startRefresh
    split
    · exact start
    · rename_i i j target
      exact keeps i j target
  | issue queueId =>
    show inv (sys.issueHead cfg child queueId).mc
    cases queue : sys.mc.commandQueues queueId with
    | nil =>
      rw [issueHead_of_empty queue]
      exact start
    | cons queueHead rest => exact keeps queueHead rest queue
  | cleanup => exact keeps

/-! ### The functions of the controller are runs of actions -/

/-- The actions that issue nothing and follow no decision may be taken at any time. -/
structure PermitsUpkeep (allowed : System χ → Action χ → Prop) : Prop where
  environment : ∀ sys below queue lastCommandWake deadlocked outOfDepth,
    allowed sys (.environment below queue lastCommandWake deadlocked outOfDepth)
  refresh : ∀ sys, allowed sys .refresh

/-- The actions on the command queues alone may be taken at any time. -/
structure PermitsQueues (allowed : System χ → Action χ → Prop) : Prop where
  environment : ∀ sys below queue lastCommandWake deadlocked outOfDepth,
    allowed sys (.environment below queue lastCommandWake deadlocked outOfDepth)
  refresh : ∀ sys, allowed sys .refresh
  issue : ∀ sys queueId, allowed sys (.issue queueId)

theorem PermitsQueues.upkeep {allowed : System χ → Action χ → Prop} (permits : PermitsQueues allowed) :
    PermitsUpkeep allowed := ⟨permits.environment, permits.refresh⟩

/-- The actions that follow a scheduling decision. -/
def QueueAction (_sys : System χ) : Action χ → Prop
  | .environment .. | .refresh | .issue _ => True
  | _ => False

theorem queueAction_permits : PermitsQueues (QueueAction (χ := χ)) where
  environment _ _ _ _ _ _ := trivial
  refresh _ := trivial
  issue _ _ := trivial

/-- The actions the controller takes on its own account may be taken at any time. -/
structure Permits (allowed : System χ → Action χ → Prop) : Prop extends PermitsQueues allowed where
  pulse : ∀ sys refresh, allowed sys (.pulse refresh)
  schedule : ∀ sys finder pred, allowed sys (.schedule finder pred)

section Runs

variable {cfg : Config} {child : Child χ} {allowed : System χ → Action χ → Prop}

/-- A run of allowed actions leads from one state to the other. -/
abbrev System.Leads (cfg : Config) (child : Child χ) (allowed : System χ → Action χ → Prop)
    (before after : System χ) : Prop :=
  Reaches (System.perform cfg child) allowed before after

theorem environment_reaches (permits : PermitsUpkeep allowed) (sys : System χ) (below : χ)
    (queue : ControllerQueue) (lastCommandWake : Nat) (deadlocked outOfDepth : Bool) :
    System.Leads cfg child allowed sys { sys with
      child := below
      queue := queue
      mc := { sys.mc with
        lastCommandWake := lastCommandWake
        deadlocked := deadlocked
        outOfDepth := outOfDepth } } :=
  Reaches.single (permits.environment sys below queue lastCommandWake deadlocked outOfDepth)

theorem setQueue_reaches (permits : PermitsUpkeep allowed) (sys : System χ) (queue : ControllerQueue) :
    System.Leads cfg child allowed sys { sys with queue := queue } :=
  environment_reaches permits sys sys.child queue sys.mc.lastCommandWake sys.mc.deadlocked sys.mc.outOfDepth

theorem cycleChild_reaches (permits : PermitsUpkeep allowed) (sys : System χ) (steps : Nat) :
    System.Leads cfg child allowed sys (sys.cycleChild child steps) :=
  environment_reaches permits sys _ _ sys.mc.lastCommandWake sys.mc.deadlocked sys.mc.outOfDepth

theorem noteWake_reaches (permits : PermitsUpkeep allowed) (sys : System χ) :
    System.Leads cfg child allowed sys sys.noteWake :=
  environment_reaches permits sys sys.child sys.queue sys.now sys.mc.deadlocked sys.mc.outOfDepth

theorem startRefresh_reaches (permits : PermitsUpkeep allowed) (sys : System χ) :
    System.Leads cfg child allowed sys (sys.startRefresh cfg) :=
  Reaches.single (permits.refresh sys)

section Wakeups

variable {handle : System χ → System χ}
  (inner : ∀ sys, System.Leads cfg child allowed sys (handle sys))

include inner

theorem nextIssuableStep_reaches (state : System χ × Nat) (rankBank : Nat × Nat) :
    System.Leads cfg child allowed state.1 (System.nextIssuableStep cfg child handle state rankBank).1 := by
  show System.Leads cfg child allowed state.1 (System.refreshFirst cfg handle state rankBank.1 rankBank.2).1
  unfold System.refreshFirst
  dsimp only
  split
  · split
    · exact inner state.1
    · exact Reaches.refl state.1
  · exact Reaches.refl state.1

theorem nextIssuableWith_reaches (sys : System χ) :
    System.Leads cfg child allowed sys (System.nextIssuableWith cfg child handle sys).1 := by
  suffices ∀ (pairs : List (Nat × Nat)) (state : System χ × Nat),
      System.Leads cfg child allowed state.1 (pairs.foldl (System.nextIssuableStep cfg child handle) state).1 from
    this (System.rankBanks cfg) (sys, maxCycle)
  intro pairs
  induction pairs with
  | nil => exact fun state => Reaches.refl state.1
  | cons pair rest ih =>
    exact fun state => (nextIssuableStep_reaches inner state pair).trans (ih _)

theorem scheduleCommandWakeWith_reaches (permits : PermitsUpkeep allowed) (sys : System χ) :
    System.Leads cfg child allowed sys (System.scheduleCommandWakeWith cfg child handle sys) := by
  unfold System.scheduleCommandWakeWith
  dsimp only
  split
  · exact nextIssuableWith_reaches inner sys
  · exact (nextIssuableWith_reaches inner sys).trans (setQueue_reaches permits _ _)

end Wakeups

/-- **`HandleRefresh`**, however deep it nests, is a run of actions. -/
theorem handleRefresh_reaches (permits : PermitsUpkeep allowed) (depth : Nat) (sys : System χ) :
    System.Leads cfg child allowed sys (sys.handleRefresh cfg child depth).1 := by
  induction depth generalizing sys with
  | zero =>
    exact environment_reaches permits sys sys.child sys.queue sys.mc.lastCommandWake sys.mc.deadlocked true
  | succ depth ih =>
    unfold System.handleRefresh System.handleRefreshWith
    split
    · exact Reaches.refl sys
    · exact (startRefresh_reaches permits sys).trans (scheduleCommandWakeWith_reaches ih permits _)

theorem nextIssuable_reaches (permits : PermitsUpkeep allowed) (depth : Nat) (sys : System χ) :
    System.Leads cfg child allowed sys (sys.nextIssuable cfg child depth).1 :=
  nextIssuableWith_reaches (handleRefresh_reaches permits depth) sys

theorem scheduleCommandWake_reaches (permits : PermitsUpkeep allowed) (depth : Nat) (sys : System χ) :
    System.Leads cfg child allowed sys (sys.scheduleCommandWake cfg child depth) :=
  scheduleCommandWakeWith_reaches (handleRefresh_reaches permits depth) permits sys

theorem issueMemoryCommands_continues (permits : PermitsUpkeep allowed) (depth : Nat) (sys : System χ)
    (request : NVMainRequest) :
    System.Leads cfg child allowed (sys.startCommands cfg child request).1
      (sys.issueMemoryCommands cfg child depth request).1 := by
  unfold System.issueMemoryCommands
  generalize sys.startCommands cfg child request = started
  obtain ⟨after, result⟩ := started
  cases result with
  | cached => exact Reaches.refl after
  | queued => exact scheduleCommandWake_reaches permits depth after
  | refused => exact Reaches.refl after

/-- **`IssueMemoryCommands`** on the result of a search. -/
theorem issueMemoryCommands_reaches (permits : PermitsUpkeep allowed) (depth : Nat) {sys : System χ}
    {request : NVMainRequest} {mc : MemoryController}
    (schedule : allowed sys (.schedule finder pred)) (found : sys.find cfg child finder pred = some (request, mc)) :
    System.Leads cfg child allowed sys ({ sys with mc := mc }.issueMemoryCommands cfg child depth request).1 := by
  refine Reaches.trans ?_ (issueMemoryCommands_continues permits depth { sys with mc := mc } request)
  have scheduled : System.Leads cfg child allowed sys (sys.perform cfg child (.schedule finder pred)) :=
    Reaches.single schedule
  simpa only [System.perform, found] using scheduled

/-- **`CycleCommandQueues`** issues one head or nothing. -/
theorem cycleCommandQueues_reaches (permits : PermitsQueues allowed) (sys : System χ) :
    System.Leads cfg child allowed sys (sys.cycleCommandQueues cfg child) := by
  unfold System.cycleCommandQueues
  split
  · exact Reaches.refl sys
  · split
    · exact Reaches.refl sys
    · exact Reaches.single (permits.issue sys _)
    · exact environment_reaches permits.upkeep sys sys.child sys.queue sys.mc.lastCommandWake true
        sys.mc.outOfDepth

theorem recheckTransactions_reaches (permits : PermitsUpkeep allowed) (sys : System χ) :
    System.Leads cfg child allowed sys (sys.recheckTransactions cfg) := by
  unfold System.recheckTransactions
  split
  · exact Reaches.refl sys
  · split
    · exact setQueue_reaches permits sys _
    · exact Reaches.refl sys

/-- **`FRFCFS::Cycle`** is a run of actions. -/
theorem cycle_reaches (permits : PermitsQueues allowed) (depth : Nat) (sys : System χ)
    (schedule : ∀ finder pred, allowed sys (.schedule finder pred)) :
    System.Leads cfg child allowed sys (sys.cycle cfg child depth) := by
  unfold System.cycle
  dsimp only
  refine Reaches.trans ?_ ((cycleCommandQueues_reaches permits _).trans (recheckTransactions_reaches permits.upkeep _))
  split
  · rename_i request mc found
    obtain ⟨finder, found⟩ := findNextRequest_find found
    exact issueMemoryCommands_reaches permits.upkeep depth (schedule finder _) found
  · exact Reaches.refl sys

/-- **`CommandQueueCallback`** is a run of actions. -/
theorem commandQueueCallback_reaches (permits : PermitsQueues allowed) (depth : Nat) (sys : System χ) :
    System.Leads cfg child allowed sys (sys.commandQueueCallback cfg child depth) := by
  unfold System.commandQueueCallback
  dsimp only
  refine Reaches.trans ?_ ((cycleCommandQueues_reaches permits _).trans (cycleChild_reaches permits.upkeep _ _))
  have woken : System.Leads cfg child allowed sys (sys.noteWake.nextIssuable cfg child depth).1 :=
    (noteWake_reaches permits.upkeep sys).trans (nextIssuable_reaches permits.upkeep depth sys.noteWake)
  split
  · exact woken.trans (setQueue_reaches permits.upkeep _ _)
  · exact woken

/-- **`RefreshCallback`** is a run of actions. -/
theorem refreshCallback_reaches (permits : PermitsQueues allowed) (depth : Nat) (sys : System χ)
    {refresh : NVMainRequest} (pulse : allowed sys.noteWake (.pulse refresh)) :
    System.Leads cfg child allowed sys (sys.refreshCallback cfg child depth refresh) := by
  have counted : System.Leads cfg child allowed sys.noteWake (sys.noteWake.processRefreshPulse cfg refresh) :=
    Reaches.single pulse
  exact (noteWake_reaches permits.upkeep sys).trans (counted.trans
    ((handleRefresh_reaches permits.upkeep depth _).trans (cycleChild_reaches permits.upkeep _ _)))

/-! ### Calls -/

/-- A whole call of a function of the controller, or an action by itself. -/
inductive ControllerCall (χ : Type) where
  | issueMemoryCommands (depth : Nat) (finder : Finder) (pred : NVMainRequest → Bool)
  | handleRefresh (depth : Nat)
  | cycleCommandQueues
  | cycle (depth : Nat)
  | commandQueueCallback (depth : Nat)
  | refreshCallback (depth : Nat) (refresh : NVMainRequest)
  | other (action : Action χ)

/-- Make the call; `IssueMemoryCommands` is called on what the search finds. -/
def System.invoke (cfg : Config) (child : Child χ) (sys : System χ) : ControllerCall χ → System χ
  | .issueMemoryCommands depth finder pred =>
    match sys.find cfg child finder pred with
    | some (request, mc) => ({ sys with mc := mc }.issueMemoryCommands cfg child depth request).1
    | none => sys
  | .handleRefresh depth => (sys.handleRefresh cfg child depth).1
  | .cycleCommandQueues => sys.cycleCommandQueues cfg child
  | .cycle depth => sys.cycle cfg child depth
  | .commandQueueCallback depth => sys.commandQueueCallback cfg child depth
  | .refreshCallback depth refresh => sys.refreshCallback cfg child depth refresh
  | .other action => sys.perform cfg child action

/-- **Every call is a run of actions**, of those that it may take in the state it is made in. -/
theorem invoke_leads (permits : PermitsQueues allowed) (sys : System χ) (call : ControllerCall χ)
    (schedule : ∀ finder pred, allowed sys (.schedule finder pred))
    (pulse : ∀ depth refresh, call = .refreshCallback depth refresh → allowed sys.noteWake (.pulse refresh))
    (fits : ∀ action, call = .other action → allowed sys action) :
    System.Leads cfg child allowed sys (sys.invoke cfg child call) := by
  cases call with
  | issueMemoryCommands depth finder pred =>
    show System.Leads cfg child allowed sys (match sys.find cfg child finder pred with
      | some (request, mc) => ({ sys with mc := mc }.issueMemoryCommands cfg child depth request).1
      | none => sys)
    split
    · rename_i request mc found
      exact issueMemoryCommands_reaches permits.upkeep depth (schedule finder pred) found
    · exact Reaches.refl sys
  | handleRefresh depth => exact handleRefresh_reaches permits.upkeep depth sys
  | cycleCommandQueues => exact cycleCommandQueues_reaches permits sys
  | cycle depth => exact cycle_reaches permits depth sys schedule
  | commandQueueCallback depth => exact commandQueueCallback_reaches permits depth sys
  | refreshCallback depth refresh => exact refreshCallback_reaches permits depth sys (pulse depth refresh rfl)
  | other action => exact Reaches.single (fits action rfl)

theorem invoke_reaches (permits : Permits allowed) (sys : System χ) (call : ControllerCall χ)
    (fits : ∀ action, call = .other action → allowed sys action) :
    System.Leads cfg child allowed sys (sys.invoke cfg child call) :=
  invoke_leads permits.toPermitsQueues sys call (permits.schedule sys) (fun _ refresh _ => permits.pulse _ refresh) fits

end Runs

/-! ### A small controller -/

/-- One rank with two banks of two subarrays; a physical address is
`8 * (col + 8 * subarray + 16 * bank + 32 * row)`. -/
def smallConfig (queueModel : QueueModel) (closePage : Nat) : Config where
  self := 0
  decoder :=
    { method :=
        { TranslationMethod.create with
          bitWidths := fun
            | .row => 2
            | .col => 3
            | .bank => 1
            | .rank => 0
            | .channel => 0
            | .subarray => 1 }
      busWidth := 64
      burstLength := 1 }
  queueModel := queueModel
  ranks := 1
  banks := 2
  rows := 8
  matHeight := some 4
  rbSize := 8
  closePage := closePage
  scheduleScheme := 2
  usePrecharge := true
  useRefresh := true
  banksPerRefresh := 1
  delayedRefreshThreshold := 1
  tREFW := 800
  refreshRows := 1
  writePausing := false
  pauseMode := .normal
  deadlockTimer := 1000
  starvationThreshold := 4
  queueSize := 8

/-- An interconnect that takes every command at once and has nothing cached. -/
def promptChild : Child Unit where
  isIssuable _ _ request := request.type ≠ .cachedRead && request.type ≠ .cachedWrite
  nextIssuable _ now _ := now
  findSubArray _ _ := none
  issueCommand _ _ _ := ((), [])
  cycle _ _ _ := ((), [])

/-- An interconnect that takes no command before cycle 210. -/
def busyChild : Child Unit :=
  { promptChild with
    isIssuable := fun below now request => decide (210 ≤ now) && promptChild.isIssuable below now request }

def pulseOf (bank : Nat) : NVMainRequest := makeRefreshRequest (smallConfig .perBank 0) 0 0 bank 0 0 0

def NVMainRequest.incoming (handle : Nat) (type : OpType) (physical : Nat) : NVMainRequest :=
  { NVMainRequest.make type ⟨physical, 0, 0, 0, 0, 0⟩ 0 with handle := some handle }

/-- Time passes. -/
def Action.wait (cycle : Nat) : Action Unit :=
  .environment () { EventQueue.create with currentCycle := cycle } 0 false false

end Emas.Nvmain

/-
**The types of transactions.**

`MakeCachedRequest` asserts that its argument is a READ or a WRITE. It is called on the requests that
`FindCachedAddress` looks at, which are those of the transaction queue, and by `IssueMemoryCommands` on the request
that a search has taken out of it. `MakeImplicitPrechargeRequest` changes the type of the request itself, and
`RequestComplete` puts a cancelled or paused write back with the type that it has.

* `asserts_hold_iff`: **these are the runs in which the assertion holds.**
-/

import Emas.Nvmain.QueueRotation

namespace Emas.Nvmain

variable {χ : Type}

/-! ### What the assertion asks for -/

/-- "This method should be called on *transaction* queue requests, thus only READ/WRITE possible." -/
def NVMainRequest.IsTransaction (request : NVMainRequest) : Prop := request.type = .read ∨ request.type = .write

instance (request : NVMainRequest) : Decidable request.IsTransaction :=
  inferInstanceAs (Decidable (request.type = .read ∨ request.type = .write))

/-- The transaction queue only holds READ and WRITE requests. -/
def Transactions (mc : MemoryController) : Prop := ∀ request ∈ mc.transactionQueue, request.IsTransaction

/-- The assertion holds in `FindCachedAddress`, and in `IssueMemoryCommands` after any search. -/
structure AssertsHold (cfg : Config) (child : Child χ) (sys : System χ) : Prop where
  scanned : Transactions sys.mc
  issued : ∀ finder pred request mc, sys.find cfg child finder pred = some (request, mc) → request.IsTransaction

/-! ### What comes in and what comes back -/

/-- The command that was sent last with a handle. -/
def System.lastSent (sys : System χ) (handle : Option Nat) : Option NVMainRequest :=
  sys.sent.reverse.find? (·.handle = handle)

/-- **The request was sent**: it is the object that was sent last with its handle, of the type that it had then, and
marked as it was then. -/
def System.Returned (sys : System χ) (request : NVMainRequest) : Prop :=
  (sys.lastSent request.handle).map (fun command => (command.type, command.lastRequest)) =
    some (request.type, request.lastRequest)

instance (sys : System χ) (request : NVMainRequest) : Decidable (sys.Returned request) :=
  inferInstanceAs (Decidable ((sys.lastSent request.handle).map
    (fun command => (command.type, command.lastRequest)) = some (request.type, request.lastRequest)))

/-- What the controller is called with. READs and WRITEs come in, that no search has marked; a write comes back
cancelled or paused if it was sent and writes may be paused; `IssueMemoryCommands` is called on what a search has
found. -/
def HandedCall (cfg : Config) (sys : System χ) : ControllerCall χ → Prop
  | .other (.accept request) => request.IsTransaction ∧ request.lastRequest = false
  | .other (.complete request) => request.PutBack → cfg.writePausing = true ∧ sys.Returned request
  | .other (.queue _) => False
  | _ => True

/-- The same of the actions. -/
def HandedAction (cfg : Config) (sys : System χ) : Action χ → Prop
  | .accept request => request.IsTransaction ∧ request.lastRequest = false
  | .complete request => request.PutBack → cfg.writePausing = true ∧ sys.Returned request
  | .queue _ => False
  | _ => True

/-- **A write that is cancelled or paused was sent as a WRITE**, and not as the WRITE_PRECHARGE that
`MakeImplicitPrechargeRequest` may have made of it. -/
def PutsBackWrites (sys : System χ) : ControllerCall χ → Prop
  | .other (.complete request) => request.PutBack → (sys.lastSent request.handle).map (·.type) = some .write
  | _ => True

/-- Writes are made into WRITE_PRECHARGEs, and are cancelled or paused. -/
structure Config.PausesPrecharges (cfg : Config) : Prop where
  usePrecharge : cfg.usePrecharge = true
  closePage : cfg.closePage ≠ 0
  writePausing : cfg.writePausing = true

instance (cfg : Config) : Decidable cfg.PausesPrecharges :=
  decidable_of_iff (cfg.usePrecharge = true ∧ cfg.closePage ≠ 0 ∧ cfg.writePausing = true)
    ⟨fun ⟨precharge, page, pausing⟩ => ⟨precharge, page, pausing⟩,
      fun all => ⟨all.usePrecharge, all.closePage, all.writePausing⟩⟩

theorem handedAction_permits (cfg : Config) : Permits (HandedAction (χ := χ) cfg) where
  environment _ _ _ _ _ _ := trivial
  refresh _ := trivial
  issue _ _ := trivial
  pulse _ _ := trivial
  schedule _ _ _ := trivial

theorem HandedCall.handedAction {cfg : Config} {sys : System χ} {action : Action χ}
    (handed : HandedCall cfg sys (.other action)) : HandedAction cfg sys action := by
  cases action with
  | accept request => exact handed
  | complete request => exact handed
  | queue request => exact handed
  | environment _ _ _ _ _ | pulse _ | schedule _ _ | refresh | issue _ | cleanup => trivial

theorem System.Returned.type {sys : System χ} {request : NVMainRequest} (returned : sys.Returned request) :
    (sys.lastSent request.handle).map (·.type) = some request.type := by
  obtain ⟨command, found, same⟩ := Option.map_eq_some_iff.mp returned
  rw [found]
  exact congrArg some (Prod.mk.inj same).1

theorem System.Returned.sent {sys : System χ} {request : NVMainRequest} (returned : sys.Returned request) :
    ∃ command ∈ sys.sent, command.type = request.type ∧ command.lastRequest = request.lastRequest := by
  obtain ⟨command, found, same⟩ := Option.map_eq_some_iff.mp returned
  exact ⟨command, List.mem_reverse.mp (List.mem_of_find?_eq_some found), Prod.mk.inj same⟩

/-! ### Actions -/

/-- The actions that put READs and WRITEs into the transaction queue. -/
def TransactionAction (_sys : System χ) : Action χ → Prop
  | .accept request => request.IsTransaction
  | .complete request => request.PutBack → request.type = .write
  | _ => True

theorem transactionAction_permits : Permits (TransactionAction (χ := χ)) where
  environment _ _ _ _ _ _ := trivial
  refresh _ := trivial
  issue _ _ := trivial
  pulse _ _ := trivial
  schedule _ _ _ := trivial

theorem transactions_framed : Framed Transactions NVMainRequest.IsTransaction where
  waiting typed := typed
  frame _ _ _ _ _ _ _ fit := fit

theorem Picked.isTransaction {cfg : Config} {child : Child χ} {sys : System χ} {request original : NVMainRequest}
    {mc : MemoryController} {front back : List NVMainRequest} (typed : Transactions sys.mc)
    (picked : Picked cfg child sys request mc front original back) : request.IsTransaction := by
  rw [picked.same]
  exact typed original picked.member

theorem AssertsHold.of_transactions {cfg : Config} {child : Child χ} {sys : System χ} (typed : Transactions sys.mc) :
    AssertsHold cfg child sys := by
  refine ⟨typed, fun finder pred request mc found => ?_⟩
  obtain ⟨front, original, back, picked⟩ := find_picked found
  exact picked.isTransaction typed

section Actions

variable {cfg : Config} {child : Child χ} {sys : System χ}

/-- **One action** keeps the transactions. -/
theorem perform_transactions (sys : System χ) (action : Action χ) (fits : TransactionAction sys action)
    (typed : Transactions sys.mc) : Transactions (sys.perform cfg child action).mc := by
  have started : ∀ (sys : System χ) (request : NVMainRequest), Transactions sys.mc →
      Transactions (sys.startCommands cfg child request).1.mc := by
    intro sys request typed
    unfold Transactions
    rwa [startCommands_transactions]
  refine transactions_framed.perform typed ?_
  cases action with
  | environment below queue lastCommandWake deadlocked outOfDepth => trivial
  | accept request => exact fits
  | complete request => exact fun back => Or.inr (fits back)
  | pulse refresh => trivial
  | schedule finder pred => exact fun request mc front original back picked typed' _ => started _ request typed'
  | queue request => exact started sys request typed
  | refresh =>
    intro i j _
    unfold Transactions
    rwa [(MemoryController.queueRefresh_frame cfg sys.mc i j sys.now).1]
  | issue queueId =>
    intro queueHead rest queue
    obtain ⟨flags, failed, issued, current, -, changed⟩ := issueHead_changes cfg child queue
    rw [changed]
    exact typed
  | cleanup => exact typed

end Actions

/-! ### Without implicit precharges -/

/-- The command is no WRITE_PRECHARGE, and is not made into one. -/
structure NVMainRequest.Unmarked (cfg : Config) (command : NVMainRequest) : Prop where
  type : command.type ≠ .writePrecharge
  lastRequest : cfg.usePrecharge = true → command.lastRequest = false

/-- Nothing that waits or was sent is a WRITE_PRECHARGE or can be made into one. -/
structure Unmarked (cfg : Config) (sys : System χ) : Prop where
  waiting : ∀ request ∈ sys.mc.transactionQueue, request.Unmarked cfg
  queued : ∀ queueId, ∀ command ∈ sys.mc.commandQueues queueId, command.Unmarked cfg
  sent : ∀ command ∈ sys.sent, command.Unmarked cfg

section Unmarked

variable {cfg : Config} {child : Child χ} {sys : System χ} {mc after : MemoryController}

theorem NVMainRequest.Unmarked.queuedRequest {request : NVMainRequest} (unmarked : request.Unmarked cfg) (now : Nat) :
    (MemoryController.queuedRequest cfg request now).Unmarked cfg := by
  unfold MemoryController.queuedRequest
  rw [if_neg]
  · exact ⟨unmarked.type, unmarked.lastRequest⟩
  · intro implicit
    obtain ⟨last, precharge⟩ := Bool.and_eq_true_iff.mp implicit
    rw [unmarked.lastRequest precharge] at last
    cases last

theorem NVMainRequest.Unmarked.make (type : OpType) (other : type ≠ .writePrecharge) (address : NVMAddress)
    (now : Nat) : (NVMainRequest.make type address now).Unmarked cfg :=
  ⟨other, fun _ => rfl⟩

theorem unmarked_of_pushes {pushed : List (Nat × NVMainRequest)} (pushes : mc.Pushes after pushed)
    (before : ∀ queueId, ∀ command ∈ mc.commandQueues queueId, command.Unmarked cfg)
    (new : ∀ item ∈ pushed, item.2.Unmarked cfg) :
    ∀ queueId, ∀ command ∈ after.commandQueues queueId, command.Unmarked cfg := by
  intro queueId command member
  rw [pushes queueId] at member
  rcases List.mem_append.mp member with old | last
  · exact before queueId command old
  · exact new (queueId, command) (MemoryController.mem_pushedTo.mp last)

/-- **`IssueMemoryCommands`** queues such a request as it is. -/
theorem queueCommands_unmarked {request : NVMainRequest} (unmarked : request.Unmarked cfg) (cached writing : Bool)
    (now : Nat) (before : ∀ queueId, ∀ command ∈ mc.commandQueues queueId, command.Unmarked cfg) :
    ∀ queueId, ∀ command ∈ (mc.queueCommands cfg request cached writing now).1.commandQueues queueId,
      command.Unmarked cfg := by
  have own : NVMainRequest.Unmarked cfg { request with issueCycle := now } := ⟨unmarked.type, unmarked.lastRequest⟩
  have activate : (makeActivateRequest request writing now).Unmarked cfg := ⟨nofun, fun _ => rfl⟩
  rcases queueCommands_cases cfg mc request cached writing now with
    ⟨-, -, same⟩ | ⟨-, -, -, same⟩ | ⟨-, -, -, same⟩ | ⟨-, same⟩ | ⟨-, same⟩
  · rw [same]
    exact unmarked_of_pushes (MemoryController.Pushes.pushBack _ _ _) before (by simpa using own)
  · rw [same]
    refine unmarked_of_pushes (MemoryController.queueClosedBank_pushes cfg mc request writing now) before ?_
    simpa using ⟨activate, unmarked.queuedRequest now⟩
  · rw [same]
    refine unmarked_of_pushes (MemoryController.queueRowMiss_pushes cfg mc request writing now) before ?_
    intro item member
    obtain ⟨command, present, rfl⟩ := List.mem_map.mp member
    rcases List.mem_append.mp present with pre | others
    · unfold MemoryController.rowPrecharge at pre
      split at pre
      · rw [List.mem_singleton.mp pre]
        exact .make .precharge nofun _ now
      · cases pre
    · rcases List.mem_cons.mp others with rfl | last
      · exact activate
      · rw [List.mem_singleton.mp last]
        exact own
  · rw [same]
    refine unmarked_of_pushes (MemoryController.queueRowHit_pushes cfg mc request now) before ?_
    simpa using unmarked.queuedRequest now
  · rw [same]
    exact before

theorem queueRefresh_unmarked (i j now : Nat)
    (before : ∀ queueId, ∀ command ∈ mc.commandQueues queueId, command.Unmarked cfg) :
    ∀ queueId, ∀ command ∈ (mc.queueRefresh cfg i j now).commandQueues queueId, command.Unmarked cfg := by
  obtain ⟨banks, -, precharges⟩ := MemoryController.prechargeGroup_pushes cfg mc i j now
  refine unmarked_of_pushes (precharges.trans (MemoryController.queueRefresh_pushes cfg mc i j now)) before ?_
  intro item member
  rcases List.mem_append.mp member with precharge | refresh
  · obtain ⟨bank, -, rfl⟩ := List.mem_map.mp precharge
    exact .make .prechargeAll nofun _ now
  · rw [List.mem_singleton.mp refresh]
    exact .make .refresh nofun _ now

/-- **One action**, when no write is made into a WRITE_PRECHARGE. -/
theorem perform_unmarked (off : cfg.usePrecharge = true → cfg.closePage = 0) (sys : System χ) (action : Action χ)
    (handed : HandedAction cfg sys action) (unmarked : Unmarked cfg sys) :
    Unmarked cfg (sys.perform cfg child action) := by
  have framed : Framed (fun mc => (∀ request ∈ mc.transactionQueue, request.Unmarked cfg) ∧
      ∀ queueId, ∀ command ∈ mc.commandQueues queueId, command.Unmarked cfg) (NVMainRequest.Unmarked cfg) :=
    ⟨And.left, fun _ _ _ _ _ _ both fit => ⟨fit, both.2⟩⟩
  have queues := fun keeps : Keeps cfg child _ _ sys action => framed.perform ⟨unmarked.waiting, unmarked.queued⟩ keeps
  have sent : UnissuedAction sys action → (sys.perform cfg child action).sent = sys.sent := fun unissued =>
    (perform_sameTurn sys unissued).1
  cases action with
  | environment below queue lastCommandWake deadlocked outOfDepth =>
    exact ⟨(queues trivial).1, (queues trivial).2, unmarked.sent⟩
  | accept request =>
    have fit : request.Unmarked cfg := by
      refine ⟨fun type => ?_, fun _ => handed.2⟩
      rcases handed.1 with read | write
      · rw [read] at type
        cases type
      · rw [write] at type
        cases type
    obtain ⟨waiting, queued⟩ := queues ⟨fit.type, fit.lastRequest⟩
    exact ⟨waiting, queued, by rw [sent trivial]; exact unmarked.sent⟩
  | complete request =>
    obtain ⟨waiting, queued⟩ := queues fun back => by
      obtain ⟨command, member, type, last⟩ := (handed back).2.sent
      have fit := unmarked.sent command member
      exact ⟨type ▸ fit.type, fun precharge => last ▸ fit.lastRequest precharge⟩
    exact ⟨waiting, queued, by rw [sent trivial]; exact unmarked.sent⟩
  | pulse refresh => exact ⟨(queues trivial).1, (queues trivial).2, by rw [sent trivial]; exact unmarked.sent⟩
  | schedule finder pred =>
    obtain ⟨waiting, queued⟩ := queues fun request mc front original back picked kept fit => by
      have found : request.Unmarked cfg := by
        refine ⟨by rw [picked.same]; exact fit.type, fun precharge => ?_⟩
        rw [picked.lastRequest_of_closePage (off precharge)]
        exact fit.lastRequest precharge
      refine ⟨?_, queueCommands_unmarked found _ _ _ kept.2⟩
      rw [startCommands_transactions]
      exact kept.1
    exact ⟨waiting, queued, by rw [sent trivial]; exact unmarked.sent⟩
  | queue request => exact handed.elim
  | refresh =>
    obtain ⟨waiting, queued⟩ := queues fun i j _ => by
      refine ⟨?_, queueRefresh_unmarked i j sys.now unmarked.queued⟩
      rw [(MemoryController.queueRefresh_frame cfg sys.mc i j sys.now).1]
      exact unmarked.waiting
    exact ⟨waiting, queued, by rw [sent trivial]; exact unmarked.sent⟩
  | issue queueId =>
    show Unmarked cfg (sys.issueHead cfg child queueId)
    cases queue : sys.mc.commandQueues queueId with
    | nil =>
      rw [issueHead_of_empty queue]
      exact unmarked
    | cons queueHead rest =>
      have head := unmarked.queued queueId queueHead (by rw [queue]; exact List.mem_cons_self ..)
      obtain ⟨flags, failed, issued, current, -, changed⟩ := issueHead_changes cfg child queue
      refine ⟨by rw [changed]; exact unmarked.waiting, fun other command member => ?_, fun command member => ?_⟩
      · obtain ⟨before, present, rfl | rfl⟩ := mem_of_mem_issueHead member
        · exact unmarked.queued other _ present
        · exact ⟨(unmarked.queued other before present).type, (unmarked.queued other before present).lastRequest⟩
      · rw [(issueHead_eq queue).2.1] at member
        rcases List.mem_append.mp member with old | new
        · exact unmarked.sent command old
        · rw [List.mem_singleton.mp new]
          exact head
  | cleanup =>
    obtain ⟨waiting, queued⟩ := queues ⟨unmarked.waiting, fun queueId command member =>
      unmarked.queued queueId command (MemoryController.mem_of_mem_cleanup member)⟩
    exact ⟨waiting, queued, by rw [sent trivial]; exact unmarked.sent⟩

end Unmarked

/-! ### Calls -/

section Calls

variable {cfg : Config} {child : Child χ} {sys : System χ}

theorem invoke_unmarked (off : cfg.usePrecharge = true → cfg.closePage = 0) (sys : System χ)
    (call : ControllerCall χ) (handed : HandedCall cfg sys call) (unmarked : Unmarked cfg sys) :
    Unmarked cfg (sys.invoke cfg child call) := by
  refine (invoke_reaches (handedAction_permits cfg) sys call fun action is => ?_).invariant (Unmarked cfg)
    (perform_unmarked off) unmarked
  rw [is] at handed
  exact handed.handedAction

/-- A write that comes back to a controller that makes none into a WRITE_PRECHARGE is a WRITE. -/
theorem Unmarked.putsBackWrites {call : ControllerCall χ} (handed : HandedCall cfg sys call)
    (unmarked : Unmarked cfg sys) : PutsBackWrites sys call := by
  cases call with
  | other action =>
    cases action with
    | complete request =>
      intro back
      obtain ⟨-, returned⟩ := handed back
      obtain ⟨command, member, type, -⟩ := returned.sent
      have plain := (unmarked.sent command member).type
      rw [type] at plain
      rw [returned.type, back.1.resolve_right plain]
    | _ => trivial
  | _ => trivial

/-- **The configuration** may see to it that every write that comes back is a WRITE. -/
theorem putsBackWrites_of_not (off : ¬cfg.PausesPrecharges) (unmarked : Unmarked cfg sys)
    {calls : List (ControllerCall χ)} (handed : AllowedRun (System.invoke cfg child) (HandedCall cfg) sys calls) :
    AllowedRun (System.invoke cfg child) PutsBackWrites sys calls := by
  by_cases pausing : cfg.writePausing = true
  · have plain : cfg.usePrecharge = true → cfg.closePage = 0 := fun precharge => by
      by_contra page
      exact off ⟨precharge, page, pausing⟩
    exact handed.mono_invariant (Unmarked cfg) (invoke_unmarked plain) (fun _ _ fits unmarked =>
      unmarked.putsBackWrites fits) unmarked
  · refine handed.mono fun sys call fits => ?_
    cases call with
    | other action =>
      cases action with
      | complete request => exact fun back => absurd (fits back).1 pausing
      | _ => trivial
    | _ => trivial

theorem putsBackWrites_iff {request : NVMainRequest} (handed : HandedCall cfg sys (.other (.complete request))) :
    PutsBackWrites sys (.other (.complete request)) ↔ (request.PutBack → request.type = .write) := by
  refine forall_congr' fun back => ?_
  rw [(handed back).2.type, Option.some.injEq]

theorem requestComplete_head {request : NVMainRequest} (back : request.PutBack) :
    ∃ queued ∈ (sys.requestComplete request).mc.transactionQueue, queued.type = request.type := by
  rw [show sys.requestComplete request = sys.prequeue request from if_pos back]
  exact ⟨_, List.mem_cons_self .., rfl⟩

theorem invoke_transactions {call : ControllerCall χ} (handed : HandedCall cfg sys call)
    (writes : PutsBackWrites sys call) (typed : Transactions sys.mc) : Transactions (sys.invoke cfg child call).mc := by
  refine (invoke_reaches transactionAction_permits sys call fun action is => ?_).invariant
    (fun sys => Transactions sys.mc) (fun sys action fits typed => perform_transactions sys action fits typed) typed
  subst is
  cases action with
  | accept request => exact handed.1
  | complete request => exact (putsBackWrites_iff handed).mp writes
  | _ => trivial

/-- **One call**: only a write that comes back and is no WRITE spoils the queue. -/
theorem invoke_transactions_iff (sys : System χ) (call : ControllerCall χ) (handed : HandedCall cfg sys call)
    (typed : Transactions sys.mc) : Transactions (sys.invoke cfg child call).mc ↔ PutsBackWrites sys call := by
  refine ⟨fun after => ?_, fun writes => invoke_transactions handed writes typed⟩
  cases call with
  | other action =>
    cases action with
    | complete request =>
      refine (putsBackWrites_iff handed).mpr fun back => ?_
      obtain ⟨queued, member, same⟩ := @requestComplete_head χ sys _ back
      have either : queued.type = .read ∨ queued.type = .write := after queued member
      rw [same] at either
      rcases back.1 with write | precharge
      · exact write
      · simp [precharge] at either
    | _ => trivial
  | _ => trivial

end Calls

/-- **Where the assertion of `MakeCachedRequest` holds.** The transaction queue holds READs and WRITEs in every state of
a run, and a search finds one of them, if and only if no write that was sent as a WRITE_PRECHARGE is cancelled or
paused. Without `UsePrecharge`, with `ClosePage` 0 or without `WritePausing` there is no such write, whatever the
run. -/
theorem asserts_hold_iff (cfg : Config) (child : Child χ) (below : χ) (queue : ControllerQueue)
    (calls : List (ControllerCall χ))
    (handed : AllowedRun (System.invoke cfg child) (HandedCall cfg) (System.setConfig cfg below queue) calls) :
    (∀ passed rest, passed ++ rest = calls →
        AssertsHold cfg child (runActions (System.invoke cfg child) (System.setConfig cfg below queue) passed)) ↔
      (cfg.PausesPrecharges →
        AllowedRun (System.invoke cfg child) PutsBackWrites (System.setConfig cfg below queue) calls) := by
  have decided := AllowedRun.iff_forall_prefix_of (fun sys : System χ => Transactions sys.mc)
    invoke_transactions_iff handed (fun _ none => absurd none List.not_mem_nil)
  have start : Unmarked cfg (System.setConfig cfg below queue) :=
    ⟨fun _ none => absurd none List.not_mem_nil, fun _ _ none => absurd none List.not_mem_nil,
      fun _ none => absurd none List.not_mem_nil⟩
  constructor
  · exact fun all _ => decided.mp fun passed rest split => (all passed rest split).scanned
  · intro writes passed rest split
    refine .of_transactions (decided.mpr ?_ passed rest split)
    by_cases on : cfg.PausesPrecharges
    · exact writes on
    · exact putsBackWrites_of_not on start handed

def cancellingConfig (closePage : Nat) : Config := { smallConfig .perBank closePage with writePausing := true }

/-- The write of `cancellingCalls` as it comes back, with the type that it was sent with. -/
def cancelledWrite (type : OpType) : NVMainRequest :=
  { NVMainRequest.incoming 1 type 0 with
    issueCycle := 5
    lastRequest := type = .writePrecharge
    issued := true
    cancelled := true }

/-- A write is issued; a read of another row of its bank is activated, which cancels the write. -/
def cancellingCalls (type : OpType) : List (ControllerCall Unit) :=
  [.other (.accept (.incoming 1 .write 0)), .other (.wait 5), .cycle 4, .other (.wait 6), .other .cleanup,
    .cycleCommandQueues, .other (.accept (.incoming 2 .read 256)), .other (.wait 7), .other .cleanup, .cycle 4,
    .other (.complete (cancelledWrite type))]

theorem asserts_hold_iff_openPage :
    AssertsHold (cancellingConfig 0) promptChild (runActions (System.invoke (cancellingConfig 0) promptChild)
      (System.setConfig (cancellingConfig 0) () .create) (cancellingCalls .write)) := by
  refine (asserts_hold_iff (cancellingConfig 0) promptChild () .create (cancellingCalls .write) ?_).mpr ?_ _ []
    (List.append_nil _)
  · simp only [cancellingCalls, AllowedRun, HandedCall, Action.wait]
    decide
  · exact fun on => absurd rfl on.closePage

/-- **A WRITE_PRECHARGE comes back.** With relaxed close-page the write is the last request of its row, and is sent as
a WRITE_PRECHARGE; cancelled, it is put at the head of the transaction queue. -/
theorem precharging_write_put_back :
    let sys := runActions (System.invoke (cancellingConfig 1) promptChild)
      (System.setConfig (cancellingConfig 1) () .create) (cancellingCalls .writePrecharge)
    AllowedRun (System.invoke (cancellingConfig 1) promptChild) (HandedCall (cancellingConfig 1))
        (System.setConfig (cancellingConfig 1) () .create) (cancellingCalls .writePrecharge) ∧
      sys.sent.map (·.type) = [.activate, .writePrecharge, .activate] ∧
      sys.mc.transactionQueue.map (·.type) = [.writePrecharge] ∧ ¬AssertsHold (cancellingConfig 1) promptChild sys := by
  refine ⟨?_, by decide, by decide, fun holds => ?_⟩
  · simp only [cancellingCalls, AllowedRun, HandedCall, Action.wait]
    decide
  · exact absurd (holds.scanned (cancelledWrite .writePrecharge) (by decide)) (by decide)

end Emas.Nvmain

/-
**The root of the memory system and its prefetch buffer.**

`class NVMain`: requests come in through `IssueCommand` and `IssueAtomic`, are looked up in the buffer of
completed prefetches and otherwise handed to the controller of their channel; `RequestComplete` fills the buffer
and retries the requests that a DRAM cache left pending.

* What `NVMain` calls is a parameter (`Surroundings`): the decoder, the controllers with their state `σ`, the
  prefetcher with its state `π`. A null prefetcher is one that never prefetches: the buffer then stays empty.
* `handed` records every call of a controller, and `generated` whether the request is one that
  `GeneratePrefetches` allocated. `calls` records every call of `IssueCommand` and `IssueAtomic`: what it handed
  down, what it returned, and by `nextId` which prefetches had been generated before.
* `RequestComplete` is two actions, since its middle part (`GetParent( )->RequestComplete`) may call back.

`CheckPrefetch` compares addresses and not types, so a write that finds a prefetched copy of its address is
answered from the buffer and never reaches memory. A prefetch that is on its way when a write to its address is
accepted is put into the buffer when it completes.

* `writes_kept_iff` — **the writes of a run**: each accepted write was handed once to the controller of its
  channel, and no older copy of its address is in the buffer in any later state, if and only if no write came while
  the buffer held a copy, and no prefetch completed that is older than an accepted write.

The pre-trace and the field `bulkCmd`, which is only cleared here, are left out.
-/

import Emas.Lib.ActionRun
import Emas.Nvmain.DeviceData
import Emas.Nvmain.Migrator

namespace Emas.Nvmain.NVMain

/-! ### Data -/

/-- `class NVMAddress`: the physical address and, when `IsTranslated( )`, its fields. -/
structure Address where
  physical : Nat
  translated : Option Location

/-- `class NVMainRequest`, as far as `NVMain` uses it. `id` is the address of the object. -/
structure Request where
  id : Nat
  address : Address
  type : DeviceOp
  isPrefetch : Bool
  owner : Nat

/-- What `NVMain` calls. `doPrefetch` and `notifyAccess` return `none` for `false` and the prefetch list
otherwise; `self` is the address of the `NVMain`. -/
structure Surroundings (σ π : Type) where
  self : Nat
  prefetchBufferSize : Nat
  translate : Nat → Location
  issueCommand : Nat → Request → σ → Bool × σ
  issueAtomic : Nat → Request → σ → Bool × σ
  isIssuable : Nat → Request → σ → Bool
  doPrefetch : Request → π → Option (List Address) × π
  notifyAccess : Request → π → Option (List Address) × π

/-- A call of a controller. -/
structure Handover where
  channel : Nat
  request : Request
  generated : Bool

/-- A call of `IssueCommand` or `IssueAtomic` that has returned. -/
structure Call where
  request : Request
  accepted : Bool
  handed : List Handover
  nextId : Nat

/-- `class NVMain`, with the controllers and the prefetcher, and the address that the next `new NVMainRequest( )`
returns. -/
structure State (σ π : Type) where
  configured : Bool
  prefetchBuffer : List Request
  pendingMemoryRequests : List Request
  controllers : σ
  prefetcher : π
  responses : List Request
  totalReadRequests : Nat
  totalWriteRequests : Nat
  successfulPrefetches : Nat
  unsuccessfulPrefetches : Nat
  handed : List Handover
  calls : List Call
  nextId : Nat

variable {σ π : Type} (around : Surroundings σ π)

/-- An `NVMain` with some buffer, some pending requests, and no call recorded yet; the prefetches that are on their
way have an address below `nextId`. -/
def State.start (configured : Bool) (nextId : Nat) (prefetchBuffer pendingMemoryRequests : List Request)
    (controllers : σ) (prefetcher : π) : State σ π where
  configured := configured
  prefetchBuffer := prefetchBuffer
  pendingMemoryRequests := pendingMemoryRequests
  controllers := controllers
  prefetcher := prefetcher
  responses := []
  totalReadRequests := 0
  totalWriteRequests := 0
  successfulPrefetches := 0
  unsuccessfulPrefetches := 0
  handed := []
  calls := []
  nextId := nextId

/-! ### Functions -/

namespace Surroundings

/-- `Translate` and `SetTranslatedAddress` on a request. -/
def translateRequest (request : Request) : Request :=
  { request with
    address := { request.address with translated := some (around.translate request.address.physical) } }

/-- `GetChild( request )`: the decoder's field of `NVMain` is the channel. -/
def getChild (request : Request) : Nat :=
  match request.address.translated with
  | some fields => fields .channel
  | none => around.translate request.address.physical .channel

variable (state : State σ π)

/-- `GetChild( request )->IssueCommand( request )`. -/
def childIssueCommand (request : Request) (generated : Bool) : Bool × State σ π :=
  let channel := around.getChild request
  let answer := around.issueCommand channel request state.controllers
  (answer.1, { state with
    controllers := answer.2
    handed := state.handed ++ [⟨channel, request, generated⟩] })

/-- `memoryControllers[channel]->IssueAtomic( request )`. -/
def controllerIssueAtomic (channel : Nat) (request : Request) : Bool × State σ π :=
  let answer := around.issueAtomic channel request state.controllers
  (answer.1, { state with
    controllers := answer.2
    handed := state.handed ++ [⟨channel, request, false⟩] })

/-- One round of `GeneratePrefetches`. -/
def generatePrefetch (request : Request) (state : State σ π) (address : Address) : State σ π :=
  let pfRequest : Request :=
    { request with id := state.nextId, address := address, isPrefetch := true, owner := around.self }
  (around.childIssueCommand { state with nextId := state.nextId + 1 } pfRequest true).2

/-- `NVMain::GeneratePrefetches`. The request is translated there again, to the fields it has already. -/
def generatePrefetches (request : Request) (prefetchList : List Address) : State σ π :=
  prefetchList.foldl (around.generatePrefetch request) state

/-- `IssuePrefetch( request )`. -/
def issuePrefetch (request : Request) : State σ π :=
  if request.type = .read ∧ request.isPrefetch = false then
    let answer := around.doPrefetch request state.prefetcher
    let state := { state with prefetcher := answer.2 }
    match answer.1 with
    | some prefetchList => around.generatePrefetches state request prefetchList
    | none => state
  else state

end Surroundings

/-- `(*iter)->address.GetPhysicalAddress( ) == request->address.GetPhysicalAddress( )`. -/
def Request.sameAddress (request entry : Request) : Bool :=
  entry.address.physical = request.address.physical

namespace Surroundings

variable (state : State σ π)

/-- `NVMain::CheckPrefetch`: the entry found first is taken out. -/
def checkPrefetch (request : Request) : Bool × State σ π :=
  if state.prefetchBuffer.any request.sameAddress then
    let answer := around.notifyAccess request state.prefetcher
    let state := { state with prefetcher := answer.2 }
    let state :=
      match answer.1 with
      | some prefetchList => around.generatePrefetches state request prefetchList
      | none => state
    (true, { state with
      successfulPrefetches := state.successfulPrefetches + 1
      prefetchBuffer := state.prefetchBuffer.eraseP request.sameAddress })
  else (false, state)

/-- What follows a request that the controller took: `IssuePrefetch` and the counts. -/
def issued (request : Request) : State σ π :=
  let state := around.issuePrefetch state request
  if request.type = .read then { state with totalReadRequests := state.totalReadRequests + 1 }
  else { state with totalWriteRequests := state.totalWriteRequests + 1 }

/-- `NVMain::IssueCommand`. -/
def issueCommandBody (request : Request) : Bool × State σ π :=
  if state.configured then
    let request := around.translateRequest request
    let found := around.checkPrefetch state request
    if found.1 then (true, { found.2 with responses := found.2.responses ++ [request] })
    else
      let answer := around.childIssueCommand found.2 request false
      if answer.1 then (true, around.issued answer.2 request) else answer
  else (false, state)

/-- `NVMain::IssueAtomic`. -/
def issueAtomicBody (request : Request) : Bool × State σ π :=
  if state.configured then
    let request := around.translateRequest request
    let channel := around.translate request.address.physical .channel
    let found := around.checkPrefetch state request
    if found.1 then (true, found.2)
    else
      let answer := around.controllerIssueAtomic found.2 channel request
      if answer.1 then (true, around.issued answer.2 request) else answer
  else (false, state)

/-- A call that is recorded: what it handed down comes after what had been handed down before, and the prefetches
generated before have a smaller `id`. -/
def record (body : State σ π → Request → Bool × State σ π) (request : Request) : State σ π :=
  let answer := body state request
  { answer.2 with
    calls := state.calls ++
      [{ request := around.translateRequest request
         accepted := answer.1
         handed := answer.2.handed.drop state.handed.length
         nextId := state.nextId }] }

def issueCommandCall (request : Request) : State σ π := around.record state around.issueCommandBody request

def issueAtomicCall (request : Request) : State σ π := around.record state around.issueAtomicBody request

/-- `NVMain::RequestComplete`, up to the pending requests. -/
def requestComplete (request : Request) : State σ π :=
  if request.owner = around.self ∧ request.isPrefetch then
    if around.prefetchBufferSize ≤ state.prefetchBuffer.length then
      { state with
        unsuccessfulPrefetches := state.unsuccessfulPrefetches + 1
        prefetchBuffer := state.prefetchBuffer.tail ++ [request] }
    else { state with prefetchBuffer := state.prefetchBuffer ++ [request] }
  else state

/-- The end of `NVMain::RequestComplete`: the oldest pending request. -/
def issuePending : State σ π :=
  match state.pendingMemoryRequests with
  | [] => state
  | staleMemReq :: rest =>
    if around.isIssuable (around.translate staleMemReq.address.physical .channel) staleMemReq state.controllers
    then { around.issueCommandCall state staleMemReq with pendingMemoryRequests := rest }
    else state

end Surroundings

/-! ### Runs -/

/-- What happens to an `NVMain`. `elapse` is any progress of the controllers and the prefetcher. -/
inductive Action (σ π : Type) where
  | configure
  | issueCommand (request : Request)
  | issueAtomic (request : Request)
  | requestComplete (request : Request)
  | issuePending
  | enqueuePendingMemoryRequests (request : Request)
  | elapse (controllers : σ) (prefetcher : π)

/-- The call is a write that was accepted. -/
def Call.Wrote (call : Call) : Prop := call.request.type = .write ∧ call.accepted = true

/-- The entry is a copy of the address of the call that was prefetched before it. -/
def Call.Outdates (call : Call) (entry : Request) : Prop :=
  entry.address.physical = call.request.address.physical ∧ entry.id < call.nextId

namespace Surroundings

/-- What an action leaves. -/
def act (state : State σ π) : Action σ π → State σ π
  | .configure => { state with configured := true }
  | .issueCommand request => around.issueCommandCall state request
  | .issueAtomic request => around.issueAtomicCall state request
  | .requestComplete request => around.requestComplete state request
  | .issuePending => around.issuePending state
  | .enqueuePendingMemoryRequests request =>
    { state with pendingMemoryRequests := state.pendingMemoryRequests ++ [request] }
  | .elapse controllers prefetcher => { state with controllers := controllers, prefetcher := prefetcher }

/-- The call handed the request itself once, to the controller of its channel. -/
def HandedOnce (call : Call) : Prop :=
  call.handed.filter (fun handover => !handover.generated) =
    [⟨around.translate call.request.address.physical .channel, call.request, false⟩]

/-- Every accepted write was handed once to the controller of its channel, and no stale copy of its address is in the
buffer. -/
def WritesKept (state : State σ π) : Prop :=
  ∀ call ∈ state.calls, call.Wrote → around.HandedOnce call ∧ ∀ entry ∈ state.prefetchBuffer, ¬ call.Outdates entry

/-- The request is no write to an address that the buffer holds. -/
def NoCopy (state : State σ π) (request : Request) : Prop :=
  state.configured = true → request.type = .write →
    ∀ entry ∈ state.prefetchBuffer, entry.address.physical ≠ request.address.physical

/-- No write is issued while the buffer holds a copy of its address, and no prefetch completes that was generated
before an accepted write to its address. -/
def Clear (state : State σ π) : Action σ π → Prop
  | .issueCommand request | .issueAtomic request => NoCopy state request
  | .issuePending =>
    ∀ staleMemReq ∈ state.pendingMemoryRequests.head?,
      around.isIssuable (around.translate staleMemReq.address.physical .channel) staleMemReq
        state.controllers = true → NoCopy state staleMemReq
  | .requestComplete request =>
    request.owner = around.self → request.isPrefetch = true → ∀ call ∈ state.calls, call.Wrote → ¬ call.Outdates request
  | _ => True

/-! ### What a call hands down -/

/-- The controllers are called with generated requests only. -/
structure OnlyGenerated (before after : State σ π) : Prop where
  buffer : after.prefetchBuffer = before.prefetchBuffer
  handed : ∃ more, after.handed = before.handed ++ more ∧ ∀ handover ∈ more, handover.generated = true

theorem generatePrefetches_onlyGenerated (request : Request) (prefetchList : List Address) :
    ∀ state : State σ π, OnlyGenerated state (around.generatePrefetches state request prefetchList) := by
  induction prefetchList with
  | nil => exact fun state => ⟨rfl, [], (List.append_nil _).symm, by simp⟩
  | cons address rest ih =>
    intro state
    obtain ⟨sameBuffer, more, handed, generated⟩ := ih (around.generatePrefetch request state address)
    refine ⟨sameBuffer, _ :: more, handed.trans (List.append_assoc ..), ?_⟩
    intro handover member
    rcases List.mem_cons.mp member with rfl | later
    · rfl
    · exact generated handover later

variable {around}

variable {state : State σ π}

variable {request : Request}

theorem any_sameAddress : state.prefetchBuffer.any request.sameAddress = true ↔
      ∃ entry ∈ state.prefetchBuffer, entry.address.physical = request.address.physical := by
  simp [Request.sameAddress]

theorem checkPrefetch_of_copy (copy : state.prefetchBuffer.any request.sameAddress = true) :
    (around.checkPrefetch state request).1 = true ∧
      ∃ more, (around.checkPrefetch state request).2.handed = state.handed ++ more ∧
        ∀ handover ∈ more, handover.generated = true := by
  simp only [checkPrefetch, copy, if_true]
  refine ⟨trivial, ?_⟩
  cases (around.notifyAccess request state.prefetcher).1 with
  | none => exact ⟨[], (List.append_nil _).symm, by simp⟩
  | some prefetchList => exact (around.generatePrefetches_onlyGenerated request prefetchList _).handed

theorem checkPrefetch_buffer (state : State σ π) (request : Request) :
    ∀ entry ∈ (around.checkPrefetch state request).2.prefetchBuffer, entry ∈ state.prefetchBuffer := by
  intro entry member
  unfold checkPrefetch at member
  split at member
  · replace member := List.mem_of_mem_eraseP member
    cases prefetches : (around.notifyAccess request state.prefetcher).1 with
    | none =>
      rw [prefetches] at member
      exact member
    | some prefetchList =>
      rw [prefetches] at member
      dsimp only at member
      rwa [(around.generatePrefetches_onlyGenerated request prefetchList _).buffer] at member
  · exact member

theorem issued_buffer (state : State σ π) (request : Request) :
    (around.issued state request).prefetchBuffer = state.prefetchBuffer := by
  have same : (around.issuePrefetch state request).prefetchBuffer = state.prefetchBuffer := by
    unfold issuePrefetch
    split
    · dsimp only
      cases (around.doPrefetch request state.prefetcher).1 with
      | none => rfl
      | some prefetchList => exact (around.generatePrefetches_onlyGenerated request prefetchList _).buffer
    · rfl
  unfold issued
  split
  · exact same
  · exact same

theorem checkPrefetch_of_none (none : state.prefetchBuffer.any request.sameAddress = false) :
    around.checkPrefetch state request = (false, state) := by
  simp [checkPrefetch, none]

theorem issued_of_write (state : State σ π) (write : request.type = .write) :
    around.issued state request = { state with totalWriteRequests := state.totalWriteRequests + 1 } := by
  simp [issued, issuePrefetch, write]

/-- What the two ways of issuing have in common: a write that finds a copy is accepted and not handed down,
another one is handed down once, to the controller of its channel. -/
structure Issues (around : Surroundings σ π) (body : State σ π → Request → Bool × State σ π) : Prop where
  shrinks : ∀ (state : State σ π) (request : Request), ∀ entry ∈ (body state request).2.prefetchBuffer,
    entry ∈ state.prefetchBuffer
  rejects : ∀ {state : State σ π} (request : Request), state.configured = false → (body state request).1 = false
  swallows : ∀ {state : State σ π} {request : Request}, state.configured = true →
    state.prefetchBuffer.any (around.translateRequest request).sameAddress = true →
    (body state request).1 = true ∧
      ∃ more, (body state request).2.handed = state.handed ++ more ∧ ∀ handover ∈ more, handover.generated = true
  hands : ∀ {state : State σ π} {request : Request}, state.configured = true → request.type = .write →
    state.prefetchBuffer.any (around.translateRequest request).sameAddress = false →
    (body state request).2.prefetchBuffer = state.prefetchBuffer ∧
      (body state request).2.handed = state.handed ++
        [⟨around.translate request.address.physical .channel, around.translateRequest request, false⟩]

theorem issueCommandBody_issues : Issues around around.issueCommandBody where
  shrinks state request entry member := by
    unfold issueCommandBody at member
    split at member
    · dsimp only at member
      split at member
      · exact checkPrefetch_buffer _ _ entry member
      · split at member
        · rw [issued_buffer] at member
          exact checkPrefetch_buffer _ _ entry member
        · exact checkPrefetch_buffer _ _ entry member
    · exact member
  rejects request off := by simp [issueCommandBody, off]
  swallows configured copy := by
    obtain ⟨yes, handed⟩ := @checkPrefetch_of_copy _ _ around _ _ copy
    simp only [issueCommandBody, configured, if_true, yes]
    exact ⟨trivial, handed⟩
  hands {state request} configured write none := by
    simp only [issueCommandBody, configured, if_true, checkPrefetch_of_none none, Bool.false_eq_true, if_false]
    split
    · have sameType : (around.translateRequest request).type = .write := write
      rw [issued_of_write _ sameType]
      exact ⟨rfl, rfl⟩
    · exact ⟨rfl, rfl⟩

theorem issueAtomicBody_issues : Issues around around.issueAtomicBody where
  shrinks state request entry member := by
    unfold issueAtomicBody at member
    split at member
    · dsimp only at member
      split at member
      · exact checkPrefetch_buffer _ _ entry member
      · split at member
        · rw [issued_buffer] at member
          exact checkPrefetch_buffer _ _ entry member
        · exact checkPrefetch_buffer _ _ entry member
    · exact member
  rejects request off := by simp [issueAtomicBody, off]
  swallows configured copy := by
    obtain ⟨yes, handed⟩ := @checkPrefetch_of_copy _ _ around _ _ copy
    simp only [issueAtomicBody, configured, if_true, yes]
    exact ⟨trivial, handed⟩
  hands {state request} configured write none := by
    simp only [issueAtomicBody, configured, if_true, checkPrefetch_of_none none, Bool.false_eq_true, if_false]
    split
    · have sameType : (around.translateRequest request).type = .write := write
      rw [issued_of_write _ sameType]
      exact ⟨rfl, rfl⟩
    · exact ⟨rfl, rfl⟩

/-! ### The calls of a run -/

theorem Issues.record_kept_iff {body : State σ π → Request → Bool × State σ π} (issues : Issues around body)
    (kept : around.WritesKept state) (request : Request) :
    around.WritesKept (around.record state body request) ↔ NoCopy state request := by
  rw [WritesKept, record, List.forall_mem_append, List.forall_mem_singleton]
  have before : ∀ call ∈ state.calls, call.Wrote →
      around.HandedOnce call ∧ ∀ entry ∈ (body state request).2.prefetchBuffer, ¬ call.Outdates entry :=
    fun call member wrote => ⟨(kept call member wrote).1,
      fun entry inside => (kept call member wrote).2 entry (issues.shrinks state request entry inside)⟩
  refine (and_iff_right before).trans ?_
  constructor
  · intro kept configured write entry member same
    have copy : state.prefetchBuffer.any (around.translateRequest request).sameAddress = true :=
      any_sameAddress.mpr ⟨entry, member, same⟩
    obtain ⟨accepted, more, handed, generated⟩ := issues.swallows configured copy
    have handedDown := (kept ⟨write, accepted⟩).1
    rw [HandedOnce, handed, List.drop_left] at handedDown
    have none : more.filter (fun handover => !handover.generated) = [] :=
      List.filter_eq_nil_iff.mpr fun handover member => by simp [generated handover member]
    exact absurd (none.symm.trans handedDown) (by simp)
  · rintro noCopy ⟨isWrite, accepted⟩
    have write : request.type = .write := isWrite
    by_cases configured : state.configured = true
    · have none : state.prefetchBuffer.any (around.translateRequest request).sameAddress = false := by
        rw [← Bool.not_eq_true, any_sameAddress]
        rintro ⟨entry, member, same⟩
        exact noCopy configured write entry member same
      obtain ⟨left, handed⟩ := issues.hands configured write none
      refine ⟨?_, ?_⟩
      · simp only [HandedOnce, handed, List.drop_left]
        rfl
      · intro entry member outdated
        exact noCopy configured write entry (left ▸ member) outdated.1
    · have refused := issues.rejects request (by simpa using configured)
      exact absurd (accepted.symm.trans refused) (by simp)

/-- A prefetch that completes is in the buffer then, with entries that were in it before. -/
theorem requestComplete_kept_iff (kept : around.WritesKept state) (request : Request) :
    around.WritesKept (around.requestComplete state request) ↔
      (request.owner = around.self → request.isPrefetch = true →
        ∀ call ∈ state.calls, call.Wrote → ¬ call.Outdates request) := by
  have placed : ∀ {buffer : List Request}, (∀ entry ∈ buffer, entry ∈ state.prefetchBuffer) →
      ((∀ call ∈ state.calls, call.Wrote →
        around.HandedOnce call ∧ ∀ entry ∈ buffer ++ [request], ¬ call.Outdates entry) ↔
        ∀ call ∈ state.calls, call.Wrote → ¬ call.Outdates request) := by
    intro buffer inside
    constructor
    · exact fun all call member wrote => (all call member wrote).2 request (by simp)
    · intro fresh call member wrote
      refine ⟨(kept call member wrote).1, fun entry here => ?_⟩
      rcases List.mem_append.mp here with old | new
      · exact (kept call member wrote).2 entry (inside entry old)
      · exact List.mem_singleton.mp new ▸ fresh call member wrote
  rw [requestComplete]
  split
  next own =>
    have both : (request.owner = around.self → request.isPrefetch = true →
        ∀ call ∈ state.calls, call.Wrote → ¬ call.Outdates request) ↔
        ∀ call ∈ state.calls, call.Wrote → ¬ call.Outdates request :=
      ⟨fun fresh => fresh own.1 own.2, fun fresh _ _ => fresh⟩
    rw [both]
    split
    · exact placed fun _ => List.mem_of_mem_tail
    · exact placed fun _ => id
  next other => exact iff_of_true kept fun mine prefetched => absurd ⟨mine, prefetched⟩ other

variable (around)

theorem act_kept_iff (state : State σ π) (action : Action σ π) (kept : around.WritesKept state) :
    around.WritesKept (around.act state action) ↔ around.Clear state action := by
  cases action with
  | configure | enqueuePendingMemoryRequests | elapse => exact iff_of_true kept trivial
  | issueCommand request => exact issueCommandBody_issues.record_kept_iff kept request
  | issueAtomic request => exact issueAtomicBody_issues.record_kept_iff kept request
  | requestComplete request => exact requestComplete_kept_iff kept request
  | issuePending =>
    cases pending : state.pendingMemoryRequests with
    | nil => simp [act, issuePending, Clear, pending, kept]
    | cons staleMemReq rest =>
      by_cases issuable : around.isIssuable (around.translate staleMemReq.address.physical .channel)
          staleMemReq state.controllers = true
      · simp only [act, issuePending, Clear, pending, List.head?_cons, Option.mem_some_iff, forall_eq',
          issuable, if_true, true_imp_iff]
        exact issueCommandBody_issues.record_kept_iff kept staleMemReq
      · simp [act, issuePending, Clear, pending, issuable, kept]

/-- **The writes of a run.** From any prefetch buffer, and for every order of requests, completions and retries: in
every state of the run each write that was accepted had been handed down once, to the controller of its channel, and
no copy of its address that was prefetched before it is in the buffer, if and only if no write was issued while the
buffer held a copy of its address, and no prefetch completed that was generated before an accepted write. -/
theorem writes_kept_iff (configured : Bool) (nextId : Nat) (prefetchBuffer pendingMemoryRequests : List Request)
    (controllers : σ) (prefetcher : π) (actions : List (Action σ π)) :
    (∀ passed rest, passed ++ rest = actions → around.WritesKept (runActions around.act
        (.start configured nextId prefetchBuffer pendingMemoryRequests controllers prefetcher) passed)) ↔
      AllowedRun around.act around.Clear
        (.start configured nextId prefetchBuffer pendingMemoryRequests controllers prefetcher) actions :=
  AllowedRun.iff_forall_prefix around.WritesKept around.act_kept_iff (by simp [WritesKept, State.start]) actions

end Surroundings

/-- One channel, controllers that take everything, and a prefetcher that asks for the block at 64 after a read. -/
def oneChannel : Surroundings Unit Unit where
  self := 0
  prefetchBufferSize := 32
  translate := fun _ _ => 0
  issueCommand := fun _ _ _ => (true, ())
  issueAtomic := fun _ _ _ => (true, ())
  isIssuable := fun _ _ _ => true
  doPrefetch := fun _ _ => (some [⟨64, none⟩], ())
  notifyAccess := fun _ _ => (none, ())

/-- A request of the processor. -/
def Request.ofBlock (type : DeviceOp) (physical : Nat) : Request where
  id := 7
  address := ⟨physical, none⟩
  type := type
  isPrefetch := false
  owner := 1

/-- The first prefetch of the block at 64. -/
def Request.prefetch : Request := { ofBlock .read 64 with id := 0, isPrefetch := true, owner := 0 }

/-- **A swallowed write, and a stale copy.** The prefetch of a block completes, then the block is written: the write is
accepted, and no controller has seen it. Or the block is written while the prefetch is on its way: the controller gets
the write, and then the old block is put into the buffer, from which the next read of it is served. -/
theorem prefetched_write_swallowed :
    (¬ ∀ passed rest, passed ++ rest = [.issueCommand (.ofBlock .read 0), .requestComplete .prefetch,
        .issueCommand (.ofBlock .write 64)] →
      oneChannel.WritesKept (runActions oneChannel.act (.start true 0 [] [] () ()) passed)) ∧
    ¬ ∀ passed rest, passed ++ rest = [.issueCommand (.ofBlock .read 0), .issueCommand (.ofBlock .write 64),
        .requestComplete .prefetch] →
      oneChannel.WritesKept (runActions oneChannel.act (.start true 0 [] [] () ()) passed) := by
  constructor
  · intro kept
    have swallowed := (kept _ [] (List.append_nil _) _ (.tail _ (List.mem_singleton.mpr rfl)) ⟨rfl, rfl⟩).1
    exact absurd (congrArg List.length swallowed) (by decide)
  · intro kept
    have fresh := (kept _ [] (List.append_nil _) _ (.tail _ (List.mem_singleton.mpr rfl)) ⟨rfl, rfl⟩).2
    exact fresh .prefetch (List.mem_singleton.mpr rfl) ⟨rfl, by decide⟩

end Emas.Nvmain.NVMain

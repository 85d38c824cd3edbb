/-
**What the controller appends to its command queues.**

Outside of the issue and the cleanup of commands, the controller only ever appends to its command
queues. `Pushes before after pushed` says which commands, with their queue numbers and in order. The
branches of `IssueMemoryCommands` push at most a precharge, an activate and the request
(`queueClosedBank_pushes`, `queueRowMiss_pushes`, `queueRowHit_pushes`); a refresh pushes a
`PRECHARGE_ALL` for every active bank of the group and the `REFRESH` (`queueRefresh_pushes`).
-/

import Emas.Nvmain.ControllerActions

namespace Emas.Nvmain

open Table

namespace MemoryController

/-- The commands for one queue, in order. -/
def pushedTo (queueId : Nat) (pushed : List (Nat × NVMainRequest)) : List NVMainRequest :=
  (pushed.filter (·.1 = queueId)).map Prod.snd

theorem mem_pushedTo {queueId : Nat} {pushed : List (Nat × NVMainRequest)} {request : NVMainRequest} :
    request ∈ pushedTo queueId pushed ↔ (queueId, request) ∈ pushed := by
  simp [pushedTo]

theorem pushedTo_append (queueId : Nat) (first second : List (Nat × NVMainRequest)) :
    pushedTo queueId (first ++ second) = pushedTo queueId first ++ pushedTo queueId second := by
  simp [pushedTo]

theorem pushedTo_map (queueId queueId' : Nat) (requests : List NVMainRequest) :
    pushedTo queueId (requests.map (queueId', ·)) = if queueId = queueId' then requests else [] := by
  by_cases same : queueId = queueId'
  · subst same
    rw [if_pos rfl]
    induction requests with
    | nil => rfl
    | cons first rest ih => simpa [pushedTo] using ih
  · rw [if_neg same]
    have none : ∀ requests : List NVMainRequest, pushedTo queueId (requests.map (queueId', ·)) = [] := by
      intro requests
      simp [pushedTo, Ne.symm same]
    exact none requests

/-- The command queues have got what was pushed, each at its end, and nothing else. -/
def Pushes (before after : MemoryController) (pushed : List (Nat × NVMainRequest)) : Prop :=
  ∀ queueId, after.commandQueues queueId = before.commandQueues queueId ++ pushedTo queueId pushed

namespace Pushes

variable {before middle after : MemoryController} {pushed first second : List (Nat × NVMainRequest)}

theorem of_eq (same : after.commandQueues = before.commandQueues) : Pushes before after [] := by
  intro queueId
  rw [same]
  exact (List.append_nil _).symm

theorem trans (left : Pushes before middle first) (right : Pushes middle after second) :
    Pushes before after (first ++ second) := by
  intro queueId
  rw [right queueId, left queueId, pushedTo_append, List.append_assoc]

theorem congr (pushes : Pushes before middle pushed)
    (same : after.commandQueues = middle.commandQueues) : Pushes before after pushed := by
  intro queueId
  rw [same]
  exact pushes queueId

theorem of_congr (same : middle.commandQueues = before.commandQueues)
    (pushes : Pushes middle after pushed) : Pushes before after pushed := by
  intro queueId
  rw [← same]
  exact pushes queueId

theorem pushBack (mc : MemoryController) (queueId : Nat) (request : NVMainRequest) :
    Pushes mc (mc.pushBack queueId request) [(queueId, request)] := by
  intro queueId'
  show set1 mc.commandQueues queueId _ queueId' = _
  rw [set1_apply]
  by_cases same : queueId' = queueId
  · subst same
    simp [pushedTo]
  · rw [if_neg same]
    simp [pushedTo, Ne.symm same]

end Pushes

/-- The commands at the end of a queue that were not in it before. -/
def newCommands (before after : MemoryController) (queueId : Nat) : List NVMainRequest :=
  (after.commandQueues queueId).drop (before.commandQueues queueId).length

theorem newCommands_of_pushes {before after : MemoryController} {pushed : List (Nat × NVMainRequest)}
    (pushes : Pushes before after pushed) (queueId : Nat) :
    newCommands before after queueId = pushedTo queueId pushed := by
  rw [newCommands, pushes queueId, List.drop_left]

theorem newCommands_of_length_le {before after : MemoryController} {queueId : Nat}
    (fewer : (after.commandQueues queueId).length ≤ (before.commandQueues queueId).length) :
    newCommands before after queueId = [] :=
  List.drop_eq_nil_of_le fewer

/-! ### IssueMemoryCommands -/

variable (cfg : Config) (mc : MemoryController) (request : NVMainRequest)

/-- The request as `IssueMemoryCommands` queues it: with an implicit precharge when it is the last one
for its row. -/
def queuedRequest (now : Nat) : NVMainRequest :=
  if request.lastRequest && cfg.usePrecharge then
    makeImplicitPrechargeRequest { request with issueCycle := now } now
  else { request with issueCycle := now }

theorem queueClosedBank_pushes (writing : Bool) (now : Nat) :
    Pushes mc (mc.queueClosedBank cfg request writing now)
      [(cfg.getCommandQueueId request.address, makeActivateRequest request writing now),
        (cfg.getCommandQueueId request.address, queuedRequest cfg request now)] := by
  unfold queueClosedBank queuedRequest
  dsimp only
  split
  · exact (((Pushes.pushBack _ _ _).trans (Pushes.pushBack _ _ _)).congr rfl).of_congr rfl
  · exact ((Pushes.pushBack _ _ _).trans (Pushes.pushBack _ _ _)).of_congr rfl

/-- The precharge of the row that is open, with `UsePrecharge`. -/
def rowPrecharge (now : Nat) : List NVMainRequest :=
  if mc.activeSubArray request.address.rank request.address.bank request.address.subarray && cfg.usePrecharge then
    [makePrechargeRequest cfg (mc.effectiveRow request.address.rank request.address.bank request.address.subarray) 0
      request.address.bank request.address.rank request.address.subarray now]
  else []

theorem queueRowMiss_pushes (writing : Bool) (now : Nat) :
    Pushes mc (mc.queueRowMiss cfg request writing now)
      (((rowPrecharge cfg mc request now) ++ [makeActivateRequest request writing now,
        { request with issueCycle := now }]).map (cfg.getCommandQueueId request.address, ·)) := by
  unfold queueRowMiss rowPrecharge
  dsimp only
  split
  · rename_i active
    have active : (mc.activeSubArray request.address.rank request.address.bank
      request.address.subarray && cfg.usePrecharge) = true := active
    rw [if_pos active]
    exact ((((Pushes.pushBack _ _ _).trans (Pushes.pushBack _ _ _)).trans
      (Pushes.pushBack _ _ _)).congr rfl).of_congr rfl
  · rename_i inactive
    have inactive : ¬(mc.activeSubArray request.address.rank request.address.bank
      request.address.subarray && cfg.usePrecharge) = true := inactive
    rw [if_neg inactive]
    exact (((Pushes.pushBack _ _ _).trans (Pushes.pushBack _ _ _)).congr rfl).of_congr rfl

theorem queueRowHit_pushes (now : Nat) :
    Pushes mc (mc.queueRowHit cfg request now)
      [(cfg.getCommandQueueId request.address, queuedRequest cfg request now)] := by
  unfold queueRowHit queuedRequest releaseRow check
  dsimp only
  split
  · split
    · split <;> exact ((Pushes.pushBack _ _ _).congr rfl).of_congr rfl
    · split <;> exact ((Pushes.pushBack _ _ _).congr rfl).of_congr rfl
  · exact (Pushes.pushBack _ _ _).of_congr rfl

/-- The commands queued for a request: some of the controller's own, and then the request itself. -/
structure CommandsFor (request : NVMainRequest) (made : List NVMainRequest) (own : NVMainRequest) :
    Prop where
  made : ∀ command ∈ made, command.handle = none ∧ command.issued = false ∧
    (command.type = .precharge ∨ command.type = .activate)
  handle : own.handle = request.handle
  issued : own.issued = request.issued
  address : own.address = request.address
  type : own.type = request.type ∨ own.type = .readPrecharge ∨ own.type = .writePrecharge

theorem CommandsFor.refreshless {request own : NVMainRequest} {made : List NVMainRequest}
    (commands : CommandsFor request made own) (type : request.type ≠ .refresh) :
    ∀ command ∈ made ++ [own], command.type ≠ .refresh := by
  intro command member
  rcases List.mem_append.mp member with first | last
  · rcases (commands.made command first).2.2 with kind | kind <;> simp [kind]
  · rw [List.mem_singleton.mp last]
    rcases commands.type with kind | kind | kind
    · rw [kind]
      exact type
    · simp [kind]
    · simp [kind]

theorem queuedRequest_commandsFor (now : Nat) : CommandsFor request [] (queuedRequest cfg request now) := by
  unfold queuedRequest
  split
  · refine ⟨by simp, rfl, rfl, rfl, ?_⟩
    cases request.type <;> simp [makeImplicitPrechargeRequest]
  · exact ⟨by simp, rfl, rfl, rfl, Or.inl rfl⟩

/-- **`IssueMemoryCommands` queues the request**, behind commands of its own, in the queue
`GetCommandQueueId` gives; or it refuses and queues nothing, when that queue is not empty. -/
theorem queueCommands_pushes (cached writing : Bool) (now : Nat) :
    let result := mc.queueCommands cfg request cached writing now
    (result.2 ≠ .refused ∧ ∃ made own, CommandsFor request made own ∧
      Pushes mc result.1 ((made ++ [own]).map (cfg.getCommandQueueId request.address, ·))) ∨
    result = (mc, .refused) ∧ mc.commandQueues (cfg.getCommandQueueId request.address) ≠ [] := by
  rcases queueCommands_cases cfg mc request cached writing now with
    ⟨-, -, same⟩ | ⟨-, -, -, same⟩ | ⟨-, -, -, same⟩ | ⟨-, same⟩ | ⟨full, same⟩
  · rw [same]
    exact Or.inl ⟨nofun, [], { request with issueCycle := now },
      ⟨by simp, rfl, rfl, rfl, Or.inl rfl⟩, Pushes.pushBack _ _ _⟩
  · rw [same]
    have own := queuedRequest_commandsFor cfg request now
    exact Or.inl ⟨nofun, [makeActivateRequest request writing now], queuedRequest cfg request now,
      ⟨by simp [makeActivateRequest, NVMainRequest.make], own.handle, own.issued, own.address, own.type⟩,
      queueClosedBank_pushes cfg mc request writing now⟩
  · rw [same]
    refine Or.inl ⟨nofun, rowPrecharge cfg mc request now ++ [makeActivateRequest request writing now],
      { request with issueCycle := now }, ⟨fun command member => ?_, rfl, rfl, rfl, Or.inl rfl⟩, ?_⟩
    · rcases List.mem_append.mp member with pre | act
      · unfold rowPrecharge at pre
        split at pre
        · rw [List.mem_singleton.mp pre]
          exact ⟨rfl, rfl, Or.inl rfl⟩
        · cases pre
      · rw [List.mem_singleton.mp act]
        exact ⟨rfl, rfl, Or.inr rfl⟩
    · rw [List.append_assoc]
      exact queueRowMiss_pushes cfg mc request writing now
  · rw [same]
    exact Or.inl ⟨nofun, [], queuedRequest cfg request now, queuedRequest_commandsFor cfg request now,
      queueRowHit_pushes cfg mc request now⟩
  · exact Or.inr ⟨same, full⟩

/-! ### HandleRefresh -/

theorem prechargeBank_pushes (rank bank now : Nat) :
    Pushes mc (mc.prechargeBank cfg rank bank now)
      (if mc.activateQueued rank bank then
        [(cfg.getCommandQueueId (.translated 0 0 bank rank 0), makePrechargeAllRequest cfg 0 0 bank rank 0 now)]
      else []) := by
  unfold prechargeBank
  split
  · refine (Pushes.pushBack _ _ _).congr ?_
    exact List.foldlRecOn (motive := fun after : MemoryController => after.commandQueues =
      (mc.pushBack (cfg.getCommandQueueId (.translated 0 0 bank rank 0))
        (makePrechargeAllRequest cfg 0 0 bank rank 0 now)).commandQueues)
      _ _ rfl fun after same subarray _ => same
  · exact Pushes.of_eq rfl

theorem prechargeGroup_pushes (i j now : Nat) : ∃ banks : List Nat,
    (∀ bank ∈ banks, ∃ tmpBank < cfg.banksPerRefresh, bank = refBank cfg j tmpBank) ∧
      Pushes mc (mc.prechargeGroup cfg i j now) (banks.map fun bank =>
        (cfg.getCommandQueueId (.translated 0 0 bank i 0), makePrechargeAllRequest cfg 0 0 bank i 0 now)) := by
  unfold prechargeGroup
  split
  · refine List.foldlRecOn (motive := fun after : MemoryController => ∃ banks : List Nat,
        (∀ bank ∈ banks, ∃ tmpBank < cfg.banksPerRefresh, bank = refBank cfg j tmpBank) ∧
          Pushes mc after (banks.map fun bank => (cfg.getCommandQueueId (.translated 0 0 bank i 0),
            makePrechargeAllRequest cfg 0 0 bank i 0 now)))
      _ _ ⟨[], by simp, Pushes.of_eq rfl⟩ ?_
    rintro after ⟨banks, group, pushes⟩ tmpBank member
    have next := pushes.trans (prechargeBank_pushes cfg after i (refBank cfg j tmpBank) now)
    split at next
    · refine ⟨banks ++ [refBank cfg j tmpBank], fun bank present => ?_, by simpa using next⟩
      rcases List.mem_append.mp present with old | new
      · exact group bank old
      · exact ⟨tmpBank, List.mem_range.mp member, List.mem_singleton.mp new⟩
    · exact ⟨banks, group, by simpa using next⟩
  · exact ⟨[], by simp, Pushes.of_eq rfl⟩

theorem queueRefresh_pushes (i j now : Nat) : Pushes (mc.prechargeGroup cfg i j now) (mc.queueRefresh cfg i j now)
    [(cfg.getCommandQueueId (.translated 0 0 j i 0), makeRefreshRequest cfg 0 0 j i 0 now)] := by
  refine (Pushes.pushBack _ _ _).congr ?_
  unfold queueRefresh advanceRefresh
  dsimp only
  split <;> split <;> rfl

theorem queueRefresh_pushed (i j now : Nat) : ∃ pushed, Pushes mc (mc.queueRefresh cfg i j now) pushed ∧
    ∀ item ∈ pushed, item.2.handle = none ∧ item.2.issued = false ∧
      ∃ bank, item.1 = cfg.getCommandQueueId (.translated 0 0 bank i 0) ∧
        (bank = j ∨ ∃ tmpBank, bank = refBank cfg j tmpBank) := by
  obtain ⟨banks, group, precharges⟩ := prechargeGroup_pushes cfg mc i j now
  refine ⟨_, precharges.trans (queueRefresh_pushes cfg mc i j now), fun item member => ?_⟩
  rcases List.mem_append.mp member with precharge | refresh
  · obtain ⟨bank, present, rfl⟩ := List.mem_map.mp precharge
    obtain ⟨tmpBank, -, same⟩ := group bank present
    exact ⟨rfl, rfl, bank, rfl, Or.inr ⟨tmpBank, same⟩⟩
  · rw [List.mem_singleton.mp refresh]
    exact ⟨rfl, rfl, j, rfl, Or.inl rfl⟩

variable {cfg mc} in
theorem refreshTarget_range {i j : Nat} (target : mc.refreshTarget cfg = some (i, j)) :
    i < cfg.ranks ∧ j < cfg.banks := by
  have member := List.mem_of_find?_eq_some target
  simp only [refreshCandidates, List.mem_flatMap, List.mem_map, List.mem_range, Prod.mk.injEq] at member
  obtain ⟨rankIdx, rank, bankIdx, small, rfl, rfl⟩ := member
  have banks : 0 < cfg.banks := by
    by_contra none
    have : cfg.banks = 0 := by omega
    rw [Config.refreshBankNum, this, Nat.zero_div] at small
    omega
  exact ⟨Nat.mod_lt _ (by omega), Nat.mod_lt _ banks⟩

/-! ### What is left alone -/

theorem queueCommands_asserts (cached writing : Bool) (now : Nat) :
    Assertion.refreshQueued ∈ (mc.queueCommands cfg request cached writing now).1.failedAsserts →
      Assertion.refreshQueued ∈ mc.failedAsserts := by
  rcases queueCommands_cases cfg mc request cached writing now with
    ⟨-, -, same⟩ | ⟨-, -, -, same⟩ | ⟨-, -, -, same⟩ | ⟨-, same⟩ | ⟨-, same⟩
  · rw [same]
    exact id
  · rw [same]
    unfold queueClosedBank
    dsimp only
    split <;> exact id
  · rw [same]
    unfold queueRowMiss
    dsimp only
    split <;> exact id
  · rw [same]
    unfold queueRowHit releaseRow check
    dsimp only
    split
    · split
      · split <;> exact id
      · split <;> exact fun failed => (List.mem_append.mp failed).resolve_right (by simp)
    · exact id
  · rw [same]
    exact id

theorem prechargeGroup_keeps (inv : MemoryController → Prop) (i j now : Nat)
    (step : ∀ mc, ∀ tmpBank < cfg.banksPerRefresh, inv mc →
      inv (prechargeBank cfg mc i (refBank cfg j tmpBank) now)) (start : inv mc) :
    inv (mc.prechargeGroup cfg i j now) := by
  unfold prechargeGroup
  split
  · exact List.foldlRecOn _ _ start fun mc kept tmpBank member =>
      step mc tmpBank (List.mem_range.mp member) kept
  · exact start

theorem queueCommands_changes (cached writing : Bool) (now : Nat) :
    ∃ queues queued active rows muxed starvation failed,
      (mc.queueCommands cfg request cached writing now).1 = { mc with
      commandQueues := queues
      activateQueued := queued
      activeSubArray := active
      effectiveRow := rows
      effectiveMuxedRow := muxed
      starvationCounter := starvation
      failedAsserts := failed } := by
  rcases queueCommands_cases cfg mc request cached writing now with
    ⟨-, -, same⟩ | ⟨-, -, -, same⟩ | ⟨-, -, -, same⟩ | ⟨-, same⟩ | ⟨-, same⟩
  · rw [same]
    exact ⟨_, _, _, _, _, _, _, rfl⟩
  · rw [same]
    unfold queueClosedBank
    dsimp only
    split <;> exact ⟨_, _, _, _, _, _, _, rfl⟩
  · rw [same]
    unfold queueRowMiss
    dsimp only
    split <;> exact ⟨_, _, _, _, _, _, _, rfl⟩
  · rw [same]
    unfold queueRowHit releaseRow check
    dsimp only
    split
    · split <;> split <;> exact ⟨_, _, _, _, _, _, _, rfl⟩
    · exact ⟨_, _, _, _, _, _, _, rfl⟩
  · rw [same]
    exact ⟨_, _, _, _, _, _, _, rfl⟩

/-- Only what a precharge changes has changed. -/
def Precharged (after : MemoryController) : Prop :=
  ∃ queues queued active rows muxed, after = { mc with
    commandQueues := queues
    activateQueued := queued
    activeSubArray := active
    effectiveRow := rows
    effectiveMuxedRow := muxed }

theorem prechargeBank_changes {before : MemoryController} (kept : before.Precharged mc) (rank bank now : Nat) :
    before.Precharged (mc.prechargeBank cfg rank bank now) := by
  unfold prechargeBank
  split
  · have closed : before.Precharged ((List.range cfg.subArrayNum).foldl
        (fun mc subarray => mc.closeRow cfg rank bank subarray)
        (mc.pushBack (cfg.getCommandQueueId (.translated 0 0 bank rank 0))
          (makePrechargeAllRequest cfg 0 0 bank rank 0 now))) := by
      refine List.foldlRecOn (motive := before.Precharged) _ _ ?_ fun later kept subarray _ => ?_
      · obtain ⟨queues, queued, active, rows, muxed, rfl⟩ := kept
        exact ⟨_, _, _, _, _, rfl⟩
      · obtain ⟨queues, queued, active, rows, muxed, rfl⟩ := kept
        exact ⟨_, _, _, _, _, rfl⟩
    obtain ⟨queues, queued, active, rows, muxed, same⟩ := closed
    dsimp only
    rw [same]
    exact ⟨_, _, _, _, _, rfl⟩
  · exact kept

theorem prechargeGroup_changes (i j now : Nat) : mc.Precharged (mc.prechargeGroup cfg i j now) :=
  prechargeGroup_keeps cfg mc mc.Precharged i j now
    (fun after tmpBank _ kept => prechargeBank_changes cfg after kept i (refBank cfg j tmpBank) now)
    ⟨_, _, _, _, _, rfl⟩

theorem prechargeBank_frame (rank bank now : Nat) :
    (mc.prechargeBank cfg rank bank now).transactionQueue = mc.transactionQueue ∧
      (mc.prechargeBank cfg rank bank now).failedAsserts = mc.failedAsserts := by
  obtain ⟨queues, queued, active, rows, muxed, same⟩ :=
    prechargeBank_changes cfg mc ⟨_, _, _, _, _, rfl⟩ rank bank now
  rw [same]
  exact ⟨rfl, rfl⟩

theorem queueRefresh_frame (i j now : Nat) :
    (mc.queueRefresh cfg i j now).transactionQueue = mc.transactionQueue ∧
      (mc.queueRefresh cfg i j now).failedAsserts = mc.failedAsserts := by
  obtain ⟨queues, queued, active, rows, muxed, same⟩ := prechargeGroup_changes cfg mc i j now
  unfold queueRefresh advanceRefresh
  rw [same]
  dsimp only
  split <;> split <;> exact ⟨rfl, rfl⟩

/-- Fields that neither commands nor precharges touch. -/
structure RefreshState where
  refreshQueued : Nat → Nat → Bool
  nextRefreshBank : Nat
  transactionQueue : List NVMainRequest
  lastIssueCycle : Nat

/-- These fields of a controller. -/
def refreshState : RefreshState :=
  ⟨mc.refreshQueued, mc.nextRefreshBank, mc.transactionQueue, mc.lastIssueCycle⟩

theorem queueCommands_refreshState (cached writing : Bool) (now : Nat) :
    (mc.queueCommands cfg request cached writing now).1.refreshState = mc.refreshState := by
  obtain ⟨queues, queued, active, rows, muxed, starvation, failed, same⟩ :=
    queueCommands_changes cfg mc request cached writing now
  rw [same]
  rfl

theorem prechargeGroup_refreshState (i j now : Nat) :
    (mc.prechargeGroup cfg i j now).refreshState = mc.refreshState := by
  obtain ⟨queues, queued, active, rows, muxed, same⟩ := prechargeGroup_changes cfg mc i j now
  rw [same]
  rfl

theorem queueRefresh_fields (i j now : Nat) :
    (mc.queueRefresh cfg i j now).refreshQueued = (List.range cfg.banksPerRefresh).foldl
        (fun flags tmpBank => set2 flags i (refBank cfg j tmpBank) true) mc.refreshQueued ∧
      ((mc.queueRefresh cfg i j now).nextRefreshBank = 0 ∨
        (mc.queueRefresh cfg i j now).nextRefreshBank = mc.nextRefreshBank + cfg.banksPerRefresh) ∧
      (mc.queueRefresh cfg i j now).lastIssueCycle = mc.lastIssueCycle ∧
      (mc.queueRefresh cfg i j now).handledRefresh = now := by
  have state := prechargeGroup_refreshState cfg mc i j now
  have flags : (mc.prechargeGroup cfg i j now).refreshQueued = mc.refreshQueued :=
    congrArg RefreshState.refreshQueued state
  have next : (mc.prechargeGroup cfg i j now).nextRefreshBank = mc.nextRefreshBank :=
    congrArg RefreshState.nextRefreshBank state
  have last : (mc.prechargeGroup cfg i j now).lastIssueCycle = mc.lastIssueCycle :=
    congrArg RefreshState.lastIssueCycle state
  rw [← flags, ← next, ← last]
  unfold queueRefresh advanceRefresh
  dsimp only
  split
  · split
    · exact ⟨rfl, Or.inl rfl, rfl, rfl⟩
    · exact ⟨rfl, Or.inr rfl, rfl, rfl⟩
  · split
    · exact ⟨rfl, Or.inl rfl, rfl, rfl⟩
    · exact ⟨rfl, Or.inr rfl, rfl, rfl⟩

/-! ### What the issue of a command leaves alone -/

theorem resetRefreshQueued_changes (bank rank : Nat) : ∃ flags failed,
    Assertion.closePage ∉ failed ∧ mc.resetRefreshQueued cfg bank rank =
      { mc with refreshQueued := flags, failedAsserts := mc.failedAsserts ++ failed } := by
  refine List.foldlRecOn (motive := fun after : MemoryController => ∃ flags failed,
      Assertion.closePage ∉ failed ∧
        after = { mc with refreshQueued := flags, failedAsserts := mc.failedAsserts ++ failed })
    _ _ ⟨mc.refreshQueued, [], List.not_mem_nil, by rw [List.append_nil]⟩ ?_
  rintro after ⟨flags, failed, others, rfl⟩ i -
  dsimp only
  unfold check
  split
  · exact ⟨set2 flags rank (bankHead cfg bank + i) false, failed, others, rfl⟩
  · refine ⟨set2 flags rank (bankHead cfg bank + i) false, failed ++ [.refreshQueued],
      by simpa using others, ?_⟩
    rw [← List.append_assoc]

end MemoryController

open MemoryController

section System

variable {χ : Type} {cfg : Config} {child : Child χ}

/-- **Nothing that a search finds is refused**, and the request goes to the queue of its address. -/
theorem startCommands_picked {sys : System χ} {request original : NVMainRequest} {mc : MemoryController}
    {front back : List NVMainRequest} (picked : Picked cfg child sys request mc front original back) :
    ({ sys with mc := mc }.startCommands cfg child request).2 ≠ .refused ∧
      ∃ made own, CommandsFor request made own ∧
        Pushes sys.mc ({ sys with mc := mc }.startCommands cfg child request).1.mc
          ((made ++ [own]).map (cfg.getCommandQueueId request.address, ·)) := by
  rw [startCommands_eq]
  rcases queueCommands_pushes cfg mc request (System.cachedAnswer child { sys with mc := mc } request)
    (System.writingAnswer child { sys with mc := mc } request) sys.now with
    ⟨queued, made, own, commands, pushes⟩ | ⟨-, full⟩
  · exact ⟨queued, made, own, commands, pushes.of_congr (by rw [picked.rest]; rfl)⟩
  · refine absurd ?_ full
    rw [picked.rest]
    exact picked.empty

theorem startCommands_transactions (sys : System χ) (request : NVMainRequest) :
    (sys.startCommands cfg child request).1.mc.transactionQueue = sys.mc.transactionQueue :=
  congrArg RefreshState.transactionQueue (queueCommands_refreshState cfg sys.mc request _ _ _)

end System

/-- The issue of a head flags it, and otherwise writes no field of the bookkeeping but the refresh
flags. -/
theorem issueHead_changes {χ : Type} (cfg : Config) (child : Child χ) {sys : System χ} {queueId : Nat}
    {queueHead : NVMainRequest} {rest : List NVMainRequest}
    (queue : sys.mc.commandQueues queueId = queueHead :: rest) : ∃ flags failed issued current,
    Assertion.closePage ∉ failed ∧ (sys.issueHead cfg child queueId).mc = { sys.mc with
      commandQueues := set1 sys.mc.commandQueues queueId ({ queueHead with issued := true } :: rest)
      refreshQueued := flags
      failedAsserts := sys.mc.failedAsserts ++ failed
      lastIssueCycle := issued
      curQueue := current } := by
  rw [(issueHead_eq queue).1]
  have marked : ∃ flags failed, Assertion.closePage ∉ failed ∧
      sys.mc.markIssued cfg queueId queueHead rest (sys.sendCommand child queueHead).now = { sys.mc with
        commandQueues := set1 sys.mc.commandQueues queueId ({ queueHead with issued := true } :: rest)
        refreshQueued := flags
        failedAsserts := sys.mc.failedAsserts ++ failed
        lastIssueCycle := (sys.sendCommand child queueHead).now } := by
    unfold MemoryController.markIssued
    dsimp only
    split
    · obtain ⟨flags, failed, others, same⟩ := MemoryController.resetRefreshQueued_changes cfg
        (sys.mc.setQueue queueId ({ queueHead with issued := true } :: rest)) queueHead.address.bank
        queueHead.address.rank
      rw [same]
      exact ⟨flags, failed, others, rfl⟩
    · exact ⟨sys.mc.refreshQueued, [], List.not_mem_nil, by rw [List.append_nil]; rfl⟩
  obtain ⟨flags, failed, others, same⟩ := marked
  rw [same]
  unfold MemoryController.moveCurrentQueue
  split
  · exact ⟨flags, failed, _, _, others, rfl⟩
  · exact ⟨flags, failed, _, _, others, rfl⟩

/-- The commands after an issue are those before it, one of them perhaps flagged. -/
theorem mem_of_mem_issueHead {χ : Type} {cfg : Config} {child : Child χ} {sys : System χ} {queueId query : Nat}
    {command : NVMainRequest} (member : command ∈ (sys.issueHead cfg child queueId).mc.commandQueues query) :
    ∃ before ∈ sys.mc.commandQueues query, command = before ∨ command = { before with issued := true } := by
  cases queue : sys.mc.commandQueues queueId with
  | nil =>
    rw [issueHead_of_empty queue] at member
    exact ⟨command, member, .inl rfl⟩
  | cons queueHead rest =>
    obtain ⟨flags, failed, issued, current, -, changed⟩ := issueHead_changes cfg child queue
    rw [changed] at member
    have member : command ∈ set1 sys.mc.commandQueues queueId ({ queueHead with issued := true } :: rest) query := member
    rw [set1_apply] at member
    split at member
    · rename_i same
      rw [same, queue]
      rcases List.mem_cons.mp member with rfl | behind
      · exact ⟨queueHead, List.mem_cons_self .., .inr rfl⟩
      · exact ⟨command, List.mem_cons_of_mem _ behind, .inl rfl⟩
    · exact ⟨command, member, .inl rfl⟩

end Emas.Nvmain

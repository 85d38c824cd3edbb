/-
**The array elements of the refresh code.**

`delayedRefreshCounter[rank]` has one element for each of the `BANKS / BanksPerRefresh` bank groups, the
other arrays have one for each bank. `...Uses` lists the elements that a function of the refresh code
reads or writes, in the order of the source, with what it calls; `callUses` is the list for a whole call of
the controller, nested `HandleRefresh` included.
-/

import Emas.Nvmain.RefreshFlags

namespace Emas.Nvmain

open Table MemoryController

variable {χ : Type}

/-! ### Elements -/

/-- An element of an array of the controller. `subArrays` are those of `activeSubArray`, `effectiveRow` and
`effectiveMuxedRow`. -/
inductive Access where
  | delayedRefreshCounter (rank group : Nat)
  | bankNeedRefresh (rank bank : Nat)
  | refreshQueued (rank bank : Nat)
  | activateQueued (rank bank : Nat)
  | subArrays (rank bank subarray : Nat)
  deriving DecidableEq, Repr

/-- The element is one of those `SetConfig` allocates. -/
def Access.Inside (cfg : Config) : Access → Prop
  | delayedRefreshCounter rank group => rank < cfg.ranks ∧ group < cfg.refreshBankNum
  | bankNeedRefresh rank bank | refreshQueued rank bank | activateQueued rank bank =>
    rank < cfg.ranks ∧ bank < cfg.banks
  | subArrays rank bank subarray =>
    rank < cfg.ranks ∧ bank < cfg.banks ∧ subarray < cfg.subArrayNum

instance (cfg : Config) : ∀ access, Decidable (Access.Inside cfg access)
  | .delayedRefreshCounter rank group =>
    inferInstanceAs (Decidable (rank < cfg.ranks ∧ group < cfg.refreshBankNum))
  | .bankNeedRefresh rank bank | .refreshQueued rank bank | .activateQueued rank bank =>
    inferInstanceAs (Decidable (rank < cfg.ranks ∧ bank < cfg.banks))
  | .subArrays rank bank subarray =>
    inferInstanceAs (Decidable (rank < cfg.ranks ∧ bank < cfg.banks ∧ subarray < cfg.subArrayNum))

/-! ### What the functions use -/

section Uses

variable (cfg : Config)

/-- The counter of the group of a bank, in `IncrementRefreshCounter` and `DecrementRefreshCounter`. -/
def counterUses (bank rank : Nat) : List Access :=
  [.delayedRefreshCounter rank (bank / cfg.banksPerRefresh)]

/-- `NeedRefresh( bank, rank )`. -/
def needRefreshUses (bank rank : Nat) : List Access :=
  if cfg.useRefresh then counterUses cfg bank rank else []

/-- The elements of the banks of a group. -/
def groupUses (array : Nat → Nat → Access) (bank rank : Nat) : List Access :=
  (List.range cfg.banksPerRefresh).map fun i => array rank (bankHead cfg bank + i)

/-- `SetRefresh( bank, rank )` and `ResetRefresh( bank, rank )`. -/
def setRefreshUses (bank rank : Nat) : List Access := groupUses cfg .bankNeedRefresh bank rank

/-- `ResetRefreshQueued( bank, rank )`. -/
def resetRefreshQueuedUses (bank rank : Nat) : List Access := groupUses cfg .refreshQueued bank rank

/-- One turn of the precharge loop of `HandleRefresh`. -/
def prechargeBankUses (mc : MemoryController) (rank bank : Nat) : List Access :=
  .activateQueued rank bank ::
    if mc.activateQueued rank bank then
      (List.range cfg.subArrayNum).map fun subarray => .subArrays rank bank subarray
    else []

/-- The search of `HandleRefresh` for a bank group. -/
def refreshTargetUses (mc : MemoryController) : List (Nat × Nat) → List Access
  | [] => []
  | (i, j) :: rest =>
    needRefreshUses cfg j i ++ if mc.needRefresh cfg j i then [] else refreshTargetUses mc rest

/-- The body of `HandleRefresh` for rank `i` and bank `j`. The second `NeedRefresh` is asked after the
counter was decremented. -/
def queueRefreshUses (mc : MemoryController) (i j : Nat) : List Access :=
  (if cfg.usePrecharge then
    (List.range cfg.banksPerRefresh).flatMap fun tmpBank =>
      prechargeBankUses cfg mc i (refBank cfg j tmpBank)
  else []) ++
  ((List.range cfg.banksPerRefresh).map fun tmpBank => .refreshQueued i (refBank cfg j tmpBank)) ++
  counterUses cfg j i ++ needRefreshUses cfg j i ++
  if (mc.decrementRefreshCounter cfg j i).needRefresh cfg j i then [] else setRefreshUses cfg j i

/-- `HandleRefresh( )` up to its call of `ScheduleCommandWake`. -/
def startRefreshUses (mc : MemoryController) : List Access :=
  refreshTargetUses cfg mc (mc.refreshCandidates cfg) ++
    match mc.refreshTarget cfg with
    | none => []
    | some (i, j) => queueRefreshUses cfg mc i j

/-- `ProcessRefreshPulse( refresh )`. -/
def countRefreshUses (mc : MemoryController) (refresh : NVMainRequest) : List Access :=
  let bank := refresh.address.bank
  let rank := refresh.address.rank
  counterUses cfg bank rank ++ needRefreshUses cfg bank rank ++
    if (mc.incrementRefreshCounter cfg bank rank).needRefresh cfg bank rank then
      setRefreshUses cfg bank rank
    else []

variable (child : Child χ)

namespace System

/-- The loop of `NextIssuable`: `NeedRefresh` for every bank, and the calls of `HandleRefresh`. -/
def nextIssuableUsesWith (handleRefresh : System χ → System χ) (handleRefreshUses : System χ → List Access) :
    List (Nat × Nat) → System χ × Nat → List Access
  | [], _ => []
  | rankBank :: rest, state =>
    needRefreshUses cfg rankBank.2 rankBank.1 ++
    (if state.1.mc.needRefresh cfg rankBank.2 rankBank.1 &&
        state.1.mc.isRefreshBankQueueEmpty cfg rankBank.2 rankBank.1 &&
        state.1.mc.lastIssueCycle ≠ state.1.now then
      handleRefreshUses state.1
    else []) ++
    nextIssuableUsesWith handleRefresh handleRefreshUses rest
      (nextIssuableStep cfg child handleRefresh state rankBank)

/-- `HandleRefresh( )`, nested at most `depth` deep. -/
def handleRefreshUses : Nat → System χ → List Access
  | 0, _ => []
  | depth + 1, sys =>
    startRefreshUses cfg sys.mc ++
      match sys.mc.refreshTarget cfg with
      | none => []
      | some _ =>
        nextIssuableUsesWith cfg child (fun sys => (sys.handleRefresh cfg child depth).1)
          (handleRefreshUses depth) (rankBanks cfg) (sys.startRefresh cfg, maxCycle)

/-- `NextIssuable( )`, which is all that `ScheduleCommandWake( )` uses. -/
def nextIssuableUses (depth : Nat) (sys : System χ) : List Access :=
  nextIssuableUsesWith cfg child (fun sys => (sys.handleRefresh cfg child depth).1)
    (handleRefreshUses cfg child depth) (rankBanks cfg) (sys, maxCycle)

/-- `IssueMemoryCommands( req )`. -/
def issueMemoryCommandsUses (depth : Nat) (sys : System χ) (request : NVMainRequest) : List Access :=
  match sys.startCommands cfg child request with
  | (sys, .queued) => sys.nextIssuableUses cfg child depth
  | (_, .cached) | (_, .refused) => []

/-- What the issue of the head of a queue uses. -/
def issueHeadUses (sys : System χ) (queueId : Nat) : List Access :=
  match sys.mc.commandQueues queueId with
  | [] => []
  | queueHead :: _ =>
    if queueHead.type = .refresh then
      resetRefreshQueuedUses cfg queueHead.address.bank queueHead.address.rank
    else []

/-- `CycleCommandQueues( )`. -/
def cycleCommandQueuesUses (sys : System χ) : List Access :=
  if sys.mc.handledRefresh = sys.now then []
  else
    match sys.selectQueue cfg child (queueOrder cfg sys.mc) with
    | .idle | .deadlock => []
    | .issue queueId => sys.issueHeadUses cfg queueId

/-- `FRFCFS::Cycle( )`. -/
def cycleUses (depth : Nat) (sys : System χ) : List Access :=
  match sys.findNextRequest cfg child with
  | some (request, mc) =>
    { sys with mc := mc }.issueMemoryCommandsUses cfg child depth request ++
      cycleCommandQueuesUses cfg child ({ sys with mc := mc }.issueMemoryCommands cfg child depth request).1
  | none => sys.cycleCommandQueuesUses cfg child

/-- `CommandQueueCallback( )`. -/
def commandQueueCallbackUses (depth : Nat) (sys : System χ) : List Access :=
  let (after, nextWakeup) := sys.noteWake.nextIssuable cfg child depth
  let after :=
    if !after.callbackScheduled cfg .commandQueueCallback nextWakeup commandQueuePriority && nextWakeup ≠ maxCycle then
      after.insertCallback cfg .commandQueueCallback nextWakeup commandQueuePriority
    else after
  sys.noteWake.nextIssuableUses cfg child depth ++ after.cycleCommandQueuesUses cfg child

/-- `RefreshCallback( data )`. -/
def refreshCallbackUses (depth : Nat) (sys : System χ) (refresh : NVMainRequest) : List Access :=
  countRefreshUses cfg sys.mc refresh ++
    handleRefreshUses cfg child depth (sys.noteWake.processRefreshPulse cfg refresh)

/-- A whole call. The actions by themselves are those that use none of it (`RefreshCall`). -/
def callUses (sys : System χ) : ControllerCall χ → List Access
  | .issueMemoryCommands depth finder pred =>
    match sys.find cfg child finder pred with
    | some (request, mc) => { sys with mc := mc }.issueMemoryCommandsUses cfg child depth request
    | none => []
  | .handleRefresh depth => handleRefreshUses cfg child depth sys
  | .cycleCommandQueues => sys.cycleCommandQueuesUses cfg child
  | .cycle depth => sys.cycleUses cfg child depth
  | .commandQueueCallback depth => sys.commandQueueCallbackUses cfg child depth
  | .refreshCallback depth refresh => sys.refreshCallbackUses cfg child depth refresh
  | .other _ => []

end System

end Uses

/-! ### Where the refreshes are -/

/-- **Every `REFRESH` is for the head of a bank group**, and the next one will be. -/
structure RefreshPlaced (cfg : Config) (mc : MemoryController) : Prop where
  aligned : cfg.banksPerRefresh ∣ mc.nextRefreshBank
  heads : ∀ queueId, ∀ command ∈ mc.commandQueues queueId, command.type = .refresh →
    cfg.useRefresh = true ∧ command.address.rank < cfg.ranks ∧
      cfg.banksPerRefresh ∣ command.address.bank ∧ command.address.bank < cfg.banks
  reads : ∀ request ∈ mc.transactionQueue, request.type ≠ .refresh

/-- No `REFRESH` is handed in from outside. -/
def RefreshlessAction (_sys : System χ) : Action χ → Prop
  | .accept request | .queue request => request.type ≠ .refresh
  | _ => True

theorem refreshlessAction_permits : Permits (RefreshlessAction (χ := χ)) where
  environment _ _ _ _ _ _ := trivial
  refresh _ := trivial
  issue _ _ := trivial
  pulse _ _ := trivial
  schedule _ _ _ := trivial

theorem useRefresh_of_target {cfg : Config} {mc : MemoryController} {target : Nat × Nat}
    (found : mc.refreshTarget cfg = some target) : cfg.useRefresh = true := by
  have needed := List.find?_some found
  unfold MemoryController.needRefresh at needed
  rw [Bool.and_eq_true] at needed
  exact needed.1

namespace RefreshPlaced

variable {cfg : Config} {mc after : MemoryController}

theorem create (cfg : Config) : RefreshPlaced cfg (.create cfg) where
  aligned := Nat.dvd_zero _
  heads _ _ member := absurd member List.not_mem_nil
  reads _ member := absurd member List.not_mem_nil

theorem frame (placed : RefreshPlaced cfg mc) (next : after.nextRefreshBank = mc.nextRefreshBank)
    (fewer : ∀ queueId, ∀ command ∈ after.commandQueues queueId, ∃ old ∈ mc.commandQueues queueId,
      command.type = old.type ∧ command.address = old.address)
    (reads : ∀ request ∈ after.transactionQueue, request.type ≠ .refresh) :
    RefreshPlaced cfg after where
  aligned := next ▸ placed.aligned
  heads queueId command member type := by
    obtain ⟨old, present, sameType, address⟩ := fewer queueId command member
    rw [address]
    exact placed.heads queueId old present (sameType ▸ type)
  reads := reads

theorem same (placed : RefreshPlaced cfg mc) (next : after.nextRefreshBank = mc.nextRefreshBank)
    (commands : after.commandQueues = mc.commandQueues)
    (reads : ∀ request ∈ after.transactionQueue, request.type ≠ .refresh) : RefreshPlaced cfg after :=
  placed.frame next (fun queueId command member =>
    ⟨command, by rw [← commands]; exact member, rfl, rfl⟩) reads

theorem push (placed : RefreshPlaced cfg mc) {pushed : List (Nat × NVMainRequest)}
    (pushes : Pushes mc after pushed) (next : after.nextRefreshBank = mc.nextRefreshBank)
    (others : ∀ item ∈ pushed, item.2.type ≠ .refresh)
    (reads : ∀ request ∈ after.transactionQueue, request.type ≠ .refresh) :
    RefreshPlaced cfg after where
  aligned := next ▸ placed.aligned
  heads queueId command member type := by
    rw [pushes queueId] at member
    rcases List.mem_append.mp member with old | new
    · exact placed.heads queueId command old type
    · exact absurd type (others _ (mem_pushedTo.mp new))
  reads := reads

theorem queueCommands (placed : RefreshPlaced cfg mc) {request : NVMainRequest}
    (type : request.type ≠ .refresh) (cached writing : Bool) (now : Nat) :
    RefreshPlaced cfg (mc.queueCommands cfg request cached writing now).1 := by
  have state := queueCommands_refreshState cfg mc request cached writing now
  have next := congrArg RefreshState.nextRefreshBank state
  have transactions := congrArg RefreshState.transactionQueue state
  rcases queueCommands_pushes cfg mc request cached writing now with
    ⟨-, made, own, commands, pushes⟩ | ⟨refused, -⟩
  · refine placed.push pushes next (fun item member => ?_) ?_
    · obtain ⟨command, present, rfl⟩ := List.mem_map.mp member
      exact commands.refreshless type command present
    · rw [show (mc.queueCommands cfg request cached writing now).1.transactionQueue
        = mc.transactionQueue from transactions]
      exact placed.reads
  · rw [refused]
    exact placed

theorem queueRefresh (whole : cfg.useRefresh = true → cfg.banksPerRefresh ∣ cfg.banks)
    (placed : RefreshPlaced cfg mc) {i j : Nat} (target : mc.refreshTarget cfg = some (i, j)) (now : Nat) :
    RefreshPlaced cfg (mc.queueRefresh cfg i j now) := by
  have used := useRefresh_of_target target
  obtain ⟨head, inside⟩ := refreshTarget_head (whole used) placed.aligned target
  obtain ⟨-, next, -, -⟩ := queueRefresh_fields cfg mc i j now
  obtain ⟨banks, -, precharges⟩ := prechargeGroup_pushes cfg mc i j now
  have pushes := precharges.trans (queueRefresh_pushes cfg mc i j now)
  refine ⟨?_, fun queueId command member type => ?_, ?_⟩
  · rcases next with start | further
    · rw [start]
      exact Nat.dvd_zero _
    · rw [further]
      exact Nat.dvd_add placed.aligned (Nat.dvd_refl _)
  · rw [pushes queueId] at member
    rcases List.mem_append.mp member with old | new
    · exact placed.heads queueId command old type
    · rcases List.mem_append.mp (mem_pushedTo.mp new) with precharge | refresh
      · obtain ⟨bank, -, made⟩ := List.mem_map.mp precharge
        obtain ⟨-, rfl⟩ := Prod.mk.inj made
        cases type
      · obtain ⟨-, rfl⟩ := Prod.mk.inj (List.mem_singleton.mp refresh)
        exact ⟨used, (refreshTarget_range target).1, head, inside⟩
  · rw [(queueRefresh_frame cfg mc i j now).1]
    exact placed.reads

end RefreshPlaced

/-- **Every action keeps the refreshes at the heads of their groups.** -/
theorem perform_refreshPlaced {cfg : Config} {child : Child χ}
    (whole : cfg.useRefresh = true → cfg.banksPerRefresh ∣ cfg.banks) (sys : System χ)
    (action : Action χ) (fits : RefreshlessAction sys action) (placed : RefreshPlaced cfg sys.mc) :
    RefreshPlaced cfg (sys.perform cfg child action).mc := by
  have framed : Framed (RefreshPlaced cfg) fun waiting => waiting.type ≠ .refresh :=
    ⟨RefreshPlaced.reads, fun _ _ _ _ _ _ placed reads => placed.same rfl rfl reads⟩
  refine framed.perform placed ?_
  cases action with
  | environment below queue lastCommandWake deadlocked outOfDepth => trivial
  | accept request => exact fits
  | complete request =>
    intro back
    rcases back.1 with type | type <;> simp [type]
  | pulse refresh => trivial
  | schedule finder pred =>
    intro request mc front original back picked rest read
    have type : request.type = original.type := by rw [picked.same]
    exact rest.queueCommands (type ▸ read) _ _ _
  | queue request => exact placed.queueCommands fits _ _ _
  | refresh => exact fun i j target => placed.queueRefresh whole target _
  | issue queueId =>
    intro queueHead rest queue
    obtain ⟨flags, failed, issued, current, -, changed⟩ := issueHead_changes cfg child queue
    refine placed.frame (by rw [changed]) (fun query command member => ?_) (by rw [changed]; exact placed.reads)
    obtain ⟨before, present, rfl | rfl⟩ := mem_of_mem_issueHead member
    · exact ⟨_, present, rfl, rfl⟩
    · exact ⟨before, present, rfl, rfl⟩
  | cleanup =>
    exact placed.frame rfl
      (fun _ command member => ⟨command, MemoryController.mem_of_mem_cleanup member, rfl, rfl⟩) placed.reads

theorem leads_refreshPlaced {cfg : Config} {child : Child χ} {before after : System χ}
    (whole : cfg.useRefresh = true → cfg.banksPerRefresh ∣ cfg.banks)
    (leads : System.Leads cfg child RefreshlessAction before after)
    (placed : RefreshPlaced cfg before.mc) : RefreshPlaced cfg after.mc :=
  leads.invariant (fun sys => RefreshPlaced cfg sys.mc) (perform_refreshPlaced whole) placed

/-! ### Inside the arrays -/

/-- All elements are inside their arrays. -/
def AllInside (cfg : Config) (uses : List Access) : Prop := ∀ access ∈ uses, access.Inside cfg

/-- What `SetConfig` accepts. -/
structure RefreshAccepted (cfg : Config) : Prop where
  ranks : 0 < cfg.ranks
  positive : 0 < cfg.banksPerRefresh
  fits : cfg.banksPerRefresh ≤ cfg.banks

section Inside

variable {cfg : Config} {first second : List Access} {bank rank : Nat}

@[simp] theorem allInside_nil : AllInside cfg [] := fun _ member => absurd member List.not_mem_nil

@[simp] theorem allInside_append : AllInside cfg (first ++ second) ↔ AllInside cfg first ∧ AllInside cfg second :=
  List.forall_mem_append

theorem allInside_map {ι : Type} {items : List ι} {access : ι → Access}
    (each : ∀ item ∈ items, (access item).Inside cfg) : AllInside cfg (items.map access) := by
  intro used member
  obtain ⟨item, present, rfl⟩ := List.mem_map.mp member
  exact each item present

theorem counterUses_inside (divides : cfg.banksPerRefresh ∣ cfg.banks) (small : rank < cfg.ranks)
    (inside : bank < cfg.banks) : AllInside cfg (counterUses cfg bank rank) := by
  intro access member
  rw [List.mem_singleton.mp member]
  exact ⟨small, Nat.div_lt_div_of_lt_of_dvd divides inside⟩

theorem groupUses_inside (array : Nat → Nat → Access)
    (shape : ∀ rank bank, rank < cfg.ranks → bank < cfg.banks → (array rank bank).Inside cfg)
    (divides : cfg.banksPerRefresh ∣ cfg.banks) (small : rank < cfg.ranks)
    (inside : bank < cfg.banks) : AllInside cfg (groupUses cfg array bank rank) := by
  refine allInside_map fun i member => shape _ _ small ?_
  have head : bankHead cfg bank < cfg.banks := Nat.lt_of_le_of_lt (Nat.div_mul_le_self _ _) inside
  have room : bankHead cfg bank + cfg.banksPerRefresh ≤ cfg.banks :=
    head_add_le divides (Nat.dvd_mul_left _ _) head
  have := List.mem_range.mp member
  omega

section Whole

variable (whole : cfg.useRefresh = true → cfg.banksPerRefresh ∣ cfg.banks)

include whole

theorem needRefreshUses_inside (small : rank < cfg.ranks) (inside : bank < cfg.banks) :
    AllInside cfg (needRefreshUses cfg bank rank) := by
  unfold needRefreshUses
  split
  · rename_i used
    exact counterUses_inside (whole used) small inside
  · exact allInside_nil

theorem refreshTargetUses_inside (mc : MemoryController) (candidates : List (Nat × Nat))
    (range : ∀ candidate ∈ candidates, candidate.1 < cfg.ranks ∧ candidate.2 < cfg.banks) :
    AllInside cfg (refreshTargetUses cfg mc candidates) := by
  induction candidates with
  | nil => exact allInside_nil
  | cons candidate rest ih =>
    obtain ⟨i, j⟩ := candidate
    obtain ⟨rank, bank⟩ := range (i, j) (List.mem_cons_self ..)
    rw [refreshTargetUses, allInside_append]
    refine ⟨needRefreshUses_inside whole rank bank, ?_⟩
    split
    · exact allInside_nil
    · exact ih fun other member => range other (List.mem_cons_of_mem _ member)

theorem queueRefreshUses_inside {mc : MemoryController} {i j : Nat}
    (target : mc.refreshTarget cfg = some (i, j)) : AllInside cfg (queueRefreshUses cfg mc i j) := by
  obtain ⟨rank, bank⟩ := refreshTarget_range target
  have divides := whole (useRefresh_of_target target)
  have banks : ∀ tmpBank, refBank cfg j tmpBank < cfg.banks :=
    fun tmpBank => Nat.mod_lt _ (Nat.zero_lt_of_lt bank)
  unfold queueRefreshUses
  simp only [allInside_append]
  refine ⟨⟨⟨⟨?_, ?_⟩, counterUses_inside divides rank bank⟩, needRefreshUses_inside whole rank bank⟩, ?_⟩
  · split
    · intro access member
      obtain ⟨tmpBank, -, used⟩ := List.mem_flatMap.mp member
      rcases List.mem_cons.mp used with rfl | closed
      · exact ⟨rank, banks tmpBank⟩
      · split at closed
        · obtain ⟨subarray, small, rfl⟩ := List.mem_map.mp closed
          exact ⟨rank, banks tmpBank, List.mem_range.mp small⟩
        · cases closed
    · exact allInside_nil
  · exact allInside_map fun tmpBank _ => ⟨rank, banks tmpBank⟩
  · split
    · exact allInside_nil
    · exact groupUses_inside _ (fun _ _ rank bank => ⟨rank, bank⟩) divides rank bank

theorem startRefreshUses_inside (accepted : RefreshAccepted cfg) (mc : MemoryController) :
    AllInside cfg (startRefreshUses cfg mc) := by
  have banks : 0 < cfg.banks := Nat.lt_of_lt_of_le accepted.positive accepted.fits
  unfold startRefreshUses
  rw [allInside_append]
  refine ⟨refreshTargetUses_inside whole mc _ fun candidate member => ?_, ?_⟩
  · simp only [refreshCandidates, List.mem_flatMap, List.mem_map] at member
    obtain ⟨rankIdx, -, bankIdx, -, rfl⟩ := member
    exact ⟨Nat.mod_lt _ accepted.ranks, Nat.mod_lt _ banks⟩
  · split
    · exact allInside_nil
    · rename_i i j target
      exact queueRefreshUses_inside whole target

end Whole

end Inside

section Calls

variable {cfg : Config} {child : Child χ}
  (whole : cfg.useRefresh = true → cfg.banksPerRefresh ∣ cfg.banks) (accepted : RefreshAccepted cfg)

include whole

theorem nextIssuableUsesWith_inside {handle : System χ → System χ} {handleUses : System χ → List Access}
    (inner : ∀ sys, AllInside cfg (handleUses sys)) (pairs : List (Nat × Nat))
    (range : ∀ pair ∈ pairs, pair.1 < cfg.ranks ∧ pair.2 < cfg.banks) (state : System χ × Nat) :
    AllInside cfg (System.nextIssuableUsesWith cfg child handle handleUses pairs state) := by
  induction pairs generalizing state with
  | nil => exact allInside_nil
  | cons pair rest ih =>
    obtain ⟨rank, bank⟩ := range pair (List.mem_cons_self ..)
    rw [System.nextIssuableUsesWith, allInside_append, allInside_append]
    refine ⟨⟨needRefreshUses_inside whole rank bank, ?_⟩,
      ih (fun other member => range other (List.mem_cons_of_mem _ member)) _⟩
    split
    · exact inner state.1
    · exact allInside_nil

omit whole in
theorem rankBanks_range {pair : Nat × Nat} (member : pair ∈ System.rankBanks cfg) :
    pair.1 < cfg.ranks ∧ pair.2 < cfg.banks := by
  simp only [System.rankBanks, List.mem_flatMap, List.mem_map, List.mem_range] at member
  obtain ⟨rank, small, bank, inside, rfl⟩ := member
  exact ⟨small, inside⟩

include accepted

/-- **`HandleRefresh`**, however deep it nests. -/
theorem handleRefreshUses_inside (depth : Nat) (sys : System χ) :
    AllInside cfg (System.handleRefreshUses cfg child depth sys) := by
  induction depth generalizing sys with
  | zero => exact allInside_nil
  | succ depth ih =>
    rw [System.handleRefreshUses, allInside_append]
    refine ⟨startRefreshUses_inside whole accepted sys.mc, ?_⟩
    split
    · exact allInside_nil
    · exact nextIssuableUsesWith_inside whole ih _ (fun _ => rankBanks_range) _

theorem nextIssuableUses_inside (depth : Nat) (sys : System χ) : AllInside cfg (sys.nextIssuableUses cfg child depth) :=
  nextIssuableUsesWith_inside whole (handleRefreshUses_inside whole accepted depth) _
    (fun _ => rankBanks_range) _

theorem issueMemoryCommandsUses_inside (depth : Nat) (sys : System χ) (request : NVMainRequest) :
    AllInside cfg (sys.issueMemoryCommandsUses cfg child depth request) := by
  unfold System.issueMemoryCommandsUses
  split
  · exact nextIssuableUses_inside whole accepted depth _
  · exact allInside_nil
  · exact allInside_nil

omit accepted in
theorem cycleCommandQueuesUses_inside {sys : System χ} (placed : RefreshPlaced cfg sys.mc) :
    AllInside cfg (sys.cycleCommandQueuesUses cfg child) := by
  unfold System.cycleCommandQueuesUses
  split
  · exact allInside_nil
  · split
    · exact allInside_nil
    · exact allInside_nil
    · rename_i queueId selected
      unfold System.issueHeadUses
      split
      · exact allInside_nil
      · rename_i queueHead rest queue
        split
        · rename_i type
          obtain ⟨used, rank, -, bank⟩ := placed.heads queueId queueHead
            (by rw [queue]; exact List.mem_cons_self ..) type
          exact groupUses_inside _ (fun _ _ rank bank => ⟨rank, bank⟩) (whole used) rank bank
        · exact allInside_nil

/-- A pulse of the controller: one that `SetConfig` makes. -/
def IsPulse (cfg : Config) (refresh : NVMainRequest) : Prop :=
  cfg.useRefresh = true ∧ ∃ group ∈ System.refreshGroups cfg,
    refresh.address.rank = group.1 ∧ refresh.address.bank = group.2 * cfg.banksPerRefresh

/-- The calls of a run: of the controller's functions, with pulses of its own; and requests from outside,
completions, cleanups and what happens around the controller. -/
def RefreshCall (cfg : Config) (_sys : System χ) : ControllerCall χ → Prop
  | .refreshCallback _ refresh => IsPulse cfg refresh
  | .other (.accept request) => request.type ≠ .refresh
  | .other (.environment ..) | .other (.complete _) | .other .cleanup => True
  | .other _ => False
  | _ => True

omit whole accepted in
theorem isPulse_range {refresh : NVMainRequest} (pulse : IsPulse cfg refresh) :
    refresh.address.rank < cfg.ranks ∧ refresh.address.bank < cfg.banks := by
  obtain ⟨-, group, member, rank, bank⟩ := pulse
  simp only [System.refreshGroups, List.mem_flatMap, List.mem_map, List.mem_range] at member
  obtain ⟨i, small, j, inside, rfl⟩ := member
  have whole : (j + 1) * cfg.banksPerRefresh ≤ cfg.banks :=
    (Nat.mul_le_mul_right _ inside).trans (Nat.div_mul_le_self _ _)
  have positive : 0 < cfg.banksPerRefresh := by
    by_contra none
    have : cfg.banksPerRefresh = 0 := by omega
    rw [Config.refreshBankNum, this, Nat.div_zero] at inside
    omega
  rw [rank, bank]
  rw [Nat.succ_mul] at whole
  exact ⟨small, show j * cfg.banksPerRefresh < cfg.banks by omega⟩

omit accepted in
/-- **Every call keeps the refreshes at the heads of their groups.** -/
theorem invoke_refreshPlaced (sys : System χ) (call : ControllerCall χ) (fits : RefreshCall cfg sys call)
    (placed : RefreshPlaced cfg sys.mc) : RefreshPlaced cfg (sys.invoke cfg child call).mc := by
  refine leads_refreshPlaced whole (invoke_reaches refreshlessAction_permits sys call ?_) placed
  rintro action rfl
  cases action with
  | accept request => exact fits
  | queue request => exact fits.elim
  | environment _ _ _ _ _ | complete _ | pulse _ | schedule _ _ | refresh | issue _ | cleanup => trivial

/-- **A call stays inside the arrays.** -/
theorem callUses_inside (sys : System χ) (call : ControllerCall χ) (fits : RefreshCall cfg sys call)
    (placed : RefreshPlaced cfg sys.mc) : AllInside cfg (sys.callUses cfg child call) := by
  have permits : PermitsQueues (RefreshlessAction (χ := χ)) := refreshlessAction_permits.toPermitsQueues
  cases call with
  | issueMemoryCommands depth finder pred =>
    unfold System.callUses
    dsimp only
    split
    · exact issueMemoryCommandsUses_inside whole accepted depth _ _
    · exact allInside_nil
  | handleRefresh depth => exact handleRefreshUses_inside whole accepted depth sys
  | cycleCommandQueues => exact cycleCommandQueuesUses_inside whole placed
  | cycle depth =>
    unfold System.callUses System.cycleUses
    dsimp only
    split
    · rename_i request mc found
      rw [allInside_append]
      refine ⟨issueMemoryCommandsUses_inside whole accepted depth _ _, cycleCommandQueuesUses_inside whole ?_⟩
      obtain ⟨finder, search⟩ := findNextRequest_find found
      exact leads_refreshPlaced whole
        (issueMemoryCommands_reaches refreshlessAction_permits.toPermitsQueues.upkeep depth
          (refreshlessAction_permits.schedule _ _ _) search) placed
    · exact cycleCommandQueuesUses_inside whole placed
  | commandQueueCallback depth =>
    unfold System.callUses System.commandQueueCallbackUses
    dsimp only
    rw [allInside_append]
    refine ⟨nextIssuableUses_inside whole accepted depth _, cycleCommandQueuesUses_inside whole ?_⟩
    have woken : RefreshPlaced cfg (sys.noteWake.nextIssuable cfg child depth).1.mc :=
      leads_refreshPlaced whole ((noteWake_reaches permits.upkeep sys).trans
        (nextIssuable_reaches permits.upkeep depth sys.noteWake)) placed
    split
    · exact woken
    · exact woken
  | refreshCallback depth refresh =>
    obtain ⟨rank, bank⟩ := isPulse_range fits
    have divides := whole fits.1
    unfold System.callUses System.refreshCallbackUses countRefreshUses
    simp only [allInside_append]
    refine ⟨⟨⟨counterUses_inside divides rank bank, needRefreshUses_inside whole rank bank⟩, ?_⟩,
      handleRefreshUses_inside whole accepted depth _⟩
    split
    · exact groupUses_inside _ (fun _ _ rank bank => ⟨rank, bank⟩) divides rank bank
    · exact allInside_nil
  | other action => exact allInside_nil

end Calls

/-! ### Runs -/

theorem needRefreshUses_subset (cfg : Config) (child : Child χ) {handle : System χ → System χ}
    {handleUses : System χ → List Access} {pair : Nat × Nat} {pairs : List (Nat × Nat)}
    (member : pair ∈ pairs) (state : System χ × Nat) :
    needRefreshUses cfg pair.2 pair.1 ⊆ System.nextIssuableUsesWith cfg child handle handleUses pairs state := by
  induction pairs generalizing state with
  | nil => cases member
  | cons first rest ih =>
    intro access used
    rw [System.nextIssuableUsesWith]
    rcases List.mem_cons.mp member with rfl | later
    · exact List.mem_append_left _ (List.mem_append_left _ used)
    · exact List.mem_append_right _ (ih later _ used)

theorem divides_of_last {banks group : Nat} (positive : 0 < banks)
    (counted : (banks - 1) / group < banks / group) : group ∣ banks := by
  obtain ⟨last, rfl⟩ := Nat.exists_eq_succ_of_ne_zero (Nat.ne_of_gt positive)
  rw [Nat.succ_sub_one, Nat.succ_div] at counted
  by_contra broken
  rw [if_neg broken] at counted
  omega

/-- What is asked of a state: whatever is called in it stays inside the arrays, and every `REFRESH` in a
command queue is one that `StandardRank::Refresh` accepts. -/
structure RefreshSafe (cfg : Config) (child : Child χ) (sys : System χ) : Prop where
  inside : ∀ call, RefreshCall cfg sys call → AllInside cfg (sys.callUses cfg child call)
  groups : ∀ queueId, ∀ command ∈ sys.mc.commandQueues queueId, command.type = .refresh →
    command.address.bank + cfg.banksPerRefresh ≤ cfg.banks

/-- **The refresh code stays inside its arrays exactly if the groups fill the banks.** For every
configuration that `SetConfig` accepts: every state of every run is safe, if and only if refreshes are not
used or `BanksPerRefresh` divides `BANKS`. -/
theorem refresh_indices_iff (cfg : Config) (child : Child χ) (below : χ) (queue : ControllerQueue)
    (accepted : RefreshAccepted cfg) :
    (∀ calls, AllowedRun (System.invoke cfg child) (RefreshCall cfg) (System.setConfig cfg below queue) calls →
      RefreshSafe cfg child (runActions (System.invoke cfg child) (System.setConfig cfg below queue) calls)) ↔
    (cfg.useRefresh = true → cfg.banksPerRefresh ∣ cfg.banks) := by
  have banks : 0 < cfg.banks := Nat.lt_of_lt_of_le accepted.positive accepted.fits
  constructor
  · intro safe used
    -- the callback asks for the counter of the last bank of rank 0
    have inside := (safe [] trivial).inside (.commandQueueCallback 0) trivial
    have member : (0, cfg.banks - 1) ∈ System.rankBanks cfg := by
      simp only [System.rankBanks, List.mem_flatMap, List.mem_map, List.mem_range]
      exact ⟨0, accepted.ranks, cfg.banks - 1, by omega, rfl⟩
    have asked : Access.delayedRefreshCounter 0 ((cfg.banks - 1) / cfg.banksPerRefresh) ∈
        needRefreshUses cfg (cfg.banks - 1) 0 := by
      unfold needRefreshUses
      rw [if_pos used]
      exact List.mem_singleton_self _
    obtain ⟨-, counted⟩ := inside _ (List.mem_append_left _ (needRefreshUses_subset cfg child member _ asked))
    exact divides_of_last banks counted
  · intro whole calls run
    have placed := run.invariant (fun sys => RefreshPlaced cfg sys.mc) (invoke_refreshPlaced whole)
      (RefreshPlaced.create cfg)
    refine ⟨fun call fits => callUses_inside whole accepted _ call fits placed, fun queueId command member type => ?_⟩
    obtain ⟨used, -, head, inside⟩ := placed.heads queueId command member type
    exact head_add_le (whole used) head inside

def refreshCalls : List (ControllerCall Unit) :=
  [.other (.wait 100), .refreshCallback 4 (pulseOf 0), .other (.accept (.incoming 1 .read 128)),
    .cycle 4, .other (.wait 150), .refreshCallback 4 (pulseOf 1)]

theorem refresh_indices_refreshCalls :
    RefreshSafe (smallConfig .perBank 0) promptChild
      (runActions (System.invoke (smallConfig .perBank 0) promptChild)
        (System.setConfig (smallConfig .perBank 0) () .create) refreshCalls) := by
  refine (refresh_indices_iff (smallConfig .perBank 0) promptChild () .create
    ⟨by decide, by decide, by decide⟩).mpr (fun _ => by decide) refreshCalls ?_
  exact ⟨trivial, ⟨rfl, (0, 0), by decide, rfl, rfl⟩, nofun, trivial, trivial,
    ⟨rfl, (0, 1), by decide, rfl, rfl⟩, trivial⟩

/-- Three banks, refreshed two at a time. -/
def unevenConfig : Config := { smallConfig .perBank 0 with banks := 3, banksPerRefresh := 2 }

/-- **A counter that does not exist.** The first pulse of the only group makes `HandleRefresh` schedule a
wakeup, and `NextIssuable` asks for the counter of the group of bank 2: the second of an array of one. -/
theorem missing_counter :
    RefreshAccepted unevenConfig ∧ RefreshCall unevenConfig
      (System.setConfig unevenConfig () .create) (.refreshCallback 4 (pulseOf 0)) ∧
    Access.delayedRefreshCounter 0 1 ∈ System.callUses unevenConfig promptChild
      (System.setConfig unevenConfig () .create) (.refreshCallback 4 (pulseOf 0)) ∧
    ¬Access.Inside unevenConfig (.delayedRefreshCounter 0 1) :=
  ⟨⟨by decide, by decide, by decide⟩, ⟨rfl, (0, 0), by decide, rfl, rfl⟩, by decide, by decide⟩

end Emas.Nvmain

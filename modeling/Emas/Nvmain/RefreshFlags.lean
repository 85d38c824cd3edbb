/-
**The refresh-queued flags of the memory controller.**

`refreshQueued` is meant to be set for the banks of a group exactly while a `REFRESH` for the group
waits in a command queue. `HandleRefresh` sets it and the issue of the `REFRESH` clears it, but a flag
cannot count: `RefreshCallback` calls `HandleRefresh` without a look at the command queues, so a second
`REFRESH` may be queued while the first one waits, and the issue of the first then clears the flags of
both.
-/

import Emas.Nvmain.CommandPushes

namespace Emas.Nvmain

open Table

variable {χ : Type}

/-! ### Bank groups -/

section Groups

variable {cfg : Config}

theorem mem_bankGroup (positive : 0 < cfg.banksPerRefresh) (bank bank' : Nat) :
    bank' ∈ (List.range cfg.banksPerRefresh).map (MemoryController.bankHead cfg bank + ·) ↔
      bank' / cfg.banksPerRefresh = bank / cfg.banksPerRefresh := by
  simp only [List.mem_map, List.mem_range, MemoryController.bankHead]
  constructor
  · rintro ⟨i, small, rfl⟩
    rw [Nat.mul_comm, Nat.mul_add_div positive, Nat.div_eq_of_lt small, Nat.add_zero]
  · intro same
    refine ⟨bank' % cfg.banksPerRefresh, Nat.mod_lt _ positive, ?_⟩
    rw [← same, Nat.mul_comm]
    exact Nat.div_add_mod _ _

theorem head_add_le (divides : cfg.banksPerRefresh ∣ cfg.banks) {j : Nat}
    (head : cfg.banksPerRefresh ∣ j) (inside : j < cfg.banks) : j + cfg.banksPerRefresh ≤ cfg.banks := by
  obtain ⟨groups, whole⟩ := divides
  obtain ⟨group, rfl⟩ := head
  rw [whole] at inside ⊢
  have below : group < groups := Nat.lt_of_mul_lt_mul_left inside
  calc cfg.banksPerRefresh * group + cfg.banksPerRefresh
      = cfg.banksPerRefresh * (group + 1) := (Nat.mul_succ ..).symm
    _ ≤ cfg.banksPerRefresh * groups := Nat.mul_le_mul_left _ below

theorem mem_refBanks (positive : 0 < cfg.banksPerRefresh) (divides : cfg.banksPerRefresh ∣ cfg.banks)
    {j : Nat} (head : cfg.banksPerRefresh ∣ j) (inside : j < cfg.banks) (bank : Nat) :
    bank ∈ (List.range cfg.banksPerRefresh).map (MemoryController.refBank cfg j) ↔
      bank / cfg.banksPerRefresh = j / cfg.banksPerRefresh := by
  have room := head_add_le divides head inside
  rw [← mem_bankGroup positive j bank]
  have aligned : MemoryController.bankHead cfg j = j := Nat.div_mul_cancel head
  refine iff_of_eq (congrArg (bank ∈ ·) (List.map_congr_left fun tmpBank member => ?_))
  have small := List.mem_range.mp member
  show (tmpBank + j) % cfg.banks = MemoryController.bankHead cfg j + tmpBank
  rw [aligned, Nat.mod_eq_of_lt (by omega), Nat.add_comm]

theorem refreshTarget_head {mc : MemoryController} (divides : cfg.banksPerRefresh ∣ cfg.banks)
    (aligned : cfg.banksPerRefresh ∣ mc.nextRefreshBank) {i j : Nat}
    (target : mc.refreshTarget cfg = some (i, j)) : cfg.banksPerRefresh ∣ j ∧ j < cfg.banks := by
  refine ⟨?_, (MemoryController.refreshTarget_range target).2⟩
  have member := List.mem_of_find?_eq_some target
  simp only [MemoryController.refreshCandidates, List.mem_flatMap, List.mem_map, List.mem_range,
    Prod.mk.injEq] at member
  obtain ⟨rankIdx, -, bankIdx, -, -, rfl⟩ := member
  exact (Nat.dvd_mod_iff divides).mpr (Nat.dvd_add aligned (Nat.dvd_mul_left _ _))

end Groups

/-! ### Waiting refreshes -/

namespace MemoryController

/-- A `REFRESH` that has not been issued. -/
def isWaitingRefresh (command : NVMainRequest) : Bool := command.type = .refresh && !command.issued

/-- The `REFRESH` commands that wait in a queue. -/
def waitingRefreshes (mc : MemoryController) (queueId : Nat) : List NVMainRequest :=
  (mc.commandQueues queueId).filter isWaitingRefresh

/-- A `REFRESH` for the group of the bank is in a command queue and not yet issued. -/
def RefreshWaits (cfg : Config) (mc : MemoryController) (rank bank : Nat) : Prop :=
  ∃ queueId, ∃ command ∈ mc.commandQueues queueId, command.type = .refresh ∧ command.issued = false ∧
    command.address.rank = rank ∧
    command.address.bank / cfg.banksPerRefresh = bank / cfg.banksPerRefresh

theorem refreshWaits_iff (cfg : Config) (mc : MemoryController) (rank bank : Nat) :
    mc.RefreshWaits cfg rank bank ↔ ∃ queueId, ∃ command ∈ mc.waitingRefreshes queueId, command.address.rank = rank ∧
        command.address.bank / cfg.banksPerRefresh = bank / cfg.banksPerRefresh := by
  unfold RefreshWaits waitingRefreshes isWaitingRefresh
  refine exists_congr fun queueId => exists_congr fun command => ?_
  rw [List.mem_filter, Bool.and_eq_true, decide_eq_true_eq, Bool.not_eq_true']
  tauto

/-- A `REFRESH` for bank `j` of rank `i` waits in the queue it is put in. -/
def RefreshQueuedAt (cfg : Config) (mc : MemoryController) (i j : Nat) : Prop :=
  ∃ command ∈ mc.waitingRefreshes (cfg.getCommandQueueId (.translated 0 0 j i 0)),
    command.address.rank = i ∧ command.address.bank = j

instance (cfg : Config) (mc : MemoryController) (i j : Nat) : Decidable (mc.RefreshQueuedAt cfg i j) :=
  inferInstanceAs (Decidable (∃ command ∈ _, _))

end MemoryController

open MemoryController

/-- **The flags are exact.** -/
structure FlagsExact (cfg : Config) (mc : MemoryController) : Prop where
  aligned : cfg.banksPerRefresh ∣ mc.nextRefreshBank
  placed : ∀ queueId, ∀ command ∈ mc.waitingRefreshes queueId,
    queueId = cfg.getCommandQueueId (.translated 0 0 command.address.bank command.address.rank 0) ∧
      cfg.banksPerRefresh ∣ command.address.bank ∧ command.address.bank < cfg.banks
  once : ∀ queueId, (mc.waitingRefreshes queueId).Pairwise fun first second =>
    ¬(first.address.rank = second.address.rank ∧ first.address.bank = second.address.bank)
  exact : ∀ rank bank, bank < cfg.banks → (mc.refreshQueued rank bank = true ↔ mc.RefreshWaits cfg rank bank)
  asserted : Assertion.refreshQueued ∉ mc.failedAsserts
  reads : ∀ request ∈ mc.transactionQueue, request.type ≠ .refresh

namespace FlagsExact

variable {cfg : Config} {mc after : MemoryController}

theorem create (cfg : Config) : FlagsExact cfg (.create cfg) where
  aligned := Nat.dvd_zero _
  placed _ _ member := absurd member List.not_mem_nil
  once _ := List.Pairwise.nil
  exact _ _ _ :=
    ⟨fun flag => (by cases flag), fun ⟨_, _, member, _⟩ => absurd member List.not_mem_nil⟩
  asserted := List.not_mem_nil
  reads _ member := absurd member List.not_mem_nil

theorem frame (exact : FlagsExact cfg mc)
    (waiting : ∀ queueId, after.waitingRefreshes queueId = mc.waitingRefreshes queueId)
    (flags : after.refreshQueued = mc.refreshQueued) (next : after.nextRefreshBank = mc.nextRefreshBank)
    (asserts : Assertion.refreshQueued ∈ after.failedAsserts → Assertion.refreshQueued ∈ mc.failedAsserts)
    (reads : ∀ request ∈ after.transactionQueue, request.type ≠ .refresh) : FlagsExact cfg after where
  aligned := next ▸ exact.aligned
  placed queueId command member := exact.placed queueId command (waiting queueId ▸ member)
  once queueId := by rw [waiting queueId]; exact exact.once queueId
  exact rank bank inside := by
    rw [flags, exact.exact rank bank inside, refreshWaits_iff, refreshWaits_iff]
    simp only [waiting]
  asserted failed := exact.asserted (asserts failed)
  reads := reads

theorem same_place (exact : FlagsExact cfg mc) {queueId queueId' : Nat}
    {first second : NVMainRequest} (here : first ∈ mc.waitingRefreshes queueId)
    (there : second ∈ mc.waitingRefreshes queueId') (rank : first.address.rank = second.address.rank)
    (group : first.address.bank / cfg.banksPerRefresh = second.address.bank / cfg.banksPerRefresh) :
    queueId = queueId' ∧ first.address.bank = second.address.bank := by
  obtain ⟨place, head, -⟩ := exact.placed queueId first here
  obtain ⟨place', head', -⟩ := exact.placed queueId' second there
  have bank : first.address.bank = second.address.bank := by
    rw [← Nat.div_mul_cancel head, group, Nat.div_mul_cancel head']
  exact ⟨by rw [place, place', bank, rank], bank⟩

/-! ### Pushing commands -/

theorem waiting_of_pushes {pushed : List (Nat × NVMainRequest)} (pushes : Pushes mc after pushed)
    (others : ∀ item ∈ pushed, item.2.type ≠ .refresh) (queueId : Nat) :
    after.waitingRefreshes queueId = mc.waitingRefreshes queueId := by
  unfold waitingRefreshes
  rw [pushes queueId, List.filter_append]
  have none : (pushedTo queueId pushed).filter isWaitingRefresh = [] := by
    refine List.filter_eq_nil_iff.mpr fun command member => ?_
    have other := others (queueId, command) (mem_pushedTo.mp member)
    simp only [isWaitingRefresh, Bool.and_eq_true, decide_eq_true_eq, not_and]
    exact fun refresh => absurd refresh other
  rw [none, List.append_nil]

theorem queueCommands (exact : FlagsExact cfg mc) {request : NVMainRequest}
    (other : request.type ≠ .refresh) (cached writing : Bool) (now : Nat) :
    FlagsExact cfg (mc.queueCommands cfg request cached writing now).1 := by
  have state := queueCommands_refreshState cfg mc request cached writing now
  have queue : (mc.queueCommands cfg request cached writing now).1.transactionQueue =
    mc.transactionQueue := congrArg RefreshState.transactionQueue state
  refine exact.frame ?_ (congrArg RefreshState.refreshQueued state)
    (congrArg RefreshState.nextRefreshBank state)
    (queueCommands_asserts cfg mc request cached writing now) (queue ▸ exact.reads)
  rcases queueCommands_pushes cfg mc request cached writing now with
    ⟨-, made, own, commands, pushes⟩ | ⟨same, -⟩
  · refine waiting_of_pushes pushes fun item member => ?_
    obtain ⟨command, present, rfl⟩ := List.mem_map.mp member
    rcases List.mem_append.mp present with mine | last
    · rcases (commands.made command mine).2.2 with type | type <;> simp [type]
    · rw [List.mem_singleton.mp last]
      rcases commands.type with type | type | type <;> simp [type, other]
  · intro queueId
    rw [same]

/-! ### HandleRefresh -/

theorem waiting_queueRefresh (cfg : Config) (mc : MemoryController) (i j now queueId : Nat) :
    (mc.queueRefresh cfg i j now).waitingRefreshes queueId = mc.waitingRefreshes queueId ++
      if queueId = cfg.getCommandQueueId (.translated 0 0 j i 0) then
        [makeRefreshRequest cfg 0 0 j i 0 now]
      else [] := by
  obtain ⟨banks, -, precharges⟩ := prechargeGroup_pushes cfg mc i j now
  have before : (mc.prechargeGroup cfg i j now).waitingRefreshes queueId = mc.waitingRefreshes queueId := by
    refine waiting_of_pushes precharges (fun item member => ?_) queueId
    obtain ⟨bank, -, rfl⟩ := List.mem_map.mp member
    exact nofun
  have refresh := queueRefresh_pushes cfg mc i j now queueId
  rw [← before]
  unfold waitingRefreshes
  rw [refresh, List.filter_append]
  by_cases here : queueId = cfg.getCommandQueueId (.translated 0 0 j i 0)
  · rw [if_pos here, here]
    simp [pushedTo, isWaitingRefresh, makeRefreshRequest, NVMainRequest.make]
  · rw [if_neg here]
    simp [pushedTo, Ne.symm here]

theorem queueRefresh (exact : FlagsExact cfg mc) (positive : 0 < cfg.banksPerRefresh)
    (divides : cfg.banksPerRefresh ∣ cfg.banks) {i j : Nat} (head : cfg.banksPerRefresh ∣ j)
    (inside : j < cfg.banks) (free : ¬mc.RefreshQueuedAt cfg i j) (now : Nat) :
    FlagsExact cfg (mc.queueRefresh cfg i j now) := by
  obtain ⟨flags, next, -, -⟩ := queueRefresh_fields cfg mc i j now
  obtain ⟨queue, asserts⟩ := queueRefresh_frame cfg mc i j now
  have waiting := waiting_queueRefresh cfg mc i j now
  refine ⟨?_, fun queueId command member => ?_, fun queueId => ?_, fun rank bank bounded => ?_,
    asserts ▸ exact.asserted, queue ▸ exact.reads⟩
  · rcases next with zero | advanced
    · rw [zero]
      exact Nat.dvd_zero _
    · rw [advanced]
      exact Nat.dvd_add exact.aligned (Nat.dvd_refl _)
  · rw [waiting, List.mem_append] at member
    rcases member with old | new
    · exact exact.placed queueId command old
    · split at new
      · rename_i here
        rw [List.mem_singleton.mp new]
        exact ⟨here, head, inside⟩
      · cases new
  · rw [waiting]
    split
    · rename_i here
      refine List.pairwise_append.mpr ⟨exact.once queueId, List.pairwise_singleton _ _, ?_⟩
      intro first old second new
      rw [List.mem_singleton.mp new]
      exact fun same => free ⟨first, here ▸ old, same⟩
    · rw [List.append_nil]
      exact exact.once queueId
  · rw [flags, foldl_set2_apply, refreshWaits_iff]
    have group := mem_refBanks positive divides head inside bank
    by_cases here : rank = i ∧ bank / cfg.banksPerRefresh = j / cfg.banksPerRefresh
    · rw [if_pos ⟨here.1, group.mpr here.2⟩]
      refine iff_of_true rfl ⟨cfg.getCommandQueueId (.translated 0 0 j i 0),
        makeRefreshRequest cfg 0 0 j i 0 now, ?_, here.1.symm, here.2.symm⟩
      rw [waiting, if_pos rfl]
      exact List.mem_append_right _ (List.mem_singleton_self _)
    · rw [if_neg fun there => here ⟨there.1, group.mp there.2⟩, exact.exact rank bank bounded,
        refreshWaits_iff]
      refine exists_congr fun queueId => ⟨?_, ?_⟩
      · rintro ⟨command, member, same⟩
        refine ⟨command, ?_, same⟩
        rw [waiting]
        exact List.mem_append_left _ member
      · rintro ⟨command, member, same⟩
        refine ⟨command, ?_, same⟩
        rw [waiting, List.mem_append] at member
        refine member.resolve_right fun new => here ?_
        split at new
        · rw [List.mem_singleton.mp new] at same
          exact ⟨same.1.symm, same.2.symm⟩
        · cases new

/-! ### The issue of a command -/

theorem resetLoop_eq (rank start : Nat) {items : List Nat} (distinct : items.Nodup)
    {mc : MemoryController} (set : ∀ i ∈ items, mc.refreshQueued rank (start + i) = true) :
    items.foldl (fun mc i =>
        let mc := mc.check .refreshQueued (mc.refreshQueued rank (start + i))
        { mc with refreshQueued := set2 mc.refreshQueued rank (start + i) false }) mc =
      { mc with
        refreshQueued := items.foldl (fun flags i => set2 flags rank (start + i) false) mc.refreshQueued } := by
  induction items generalizing mc with
  | nil => rfl
  | cons first rest ih =>
    obtain ⟨fresh, distinct⟩ := List.nodup_cons.mp distinct
    rw [List.foldl_cons]
    have passed : mc.check .refreshQueued (mc.refreshQueued rank (start + first)) = mc := by
      rw [set first (List.mem_cons_self ..)]
      rfl
    dsimp only
    rw [passed]
    refine ih distinct fun i member => ?_
    show set2 mc.refreshQueued rank (start + first) false rank (start + i) = true
    have other : i ≠ first := fun same => fresh (same ▸ member)
    rw [set2_apply, if_neg (by omega)]
    exact set i (List.mem_cons_of_mem _ member)

theorem resetRefreshQueued_eq {bank rank : Nat}
    (set : ∀ i < cfg.banksPerRefresh, mc.refreshQueued rank (bankHead cfg bank + i) = true) :
    mc.resetRefreshQueued cfg bank rank = { mc with refreshQueued := setGroup cfg mc.refreshQueued bank rank false } :=
  resetLoop_eq rank (bankHead cfg bank) List.nodup_range fun i member =>
    set i (List.mem_range.mp member)

theorem waiting_flagged (mc : MemoryController) (queueId : Nat) (queueHead : NVMainRequest)
    (rest : List NVMainRequest) (query : Nat) :
    (mc.setQueue queueId ({ queueHead with issued := true } :: rest)).waitingRefreshes query =
      if query = queueId then rest.filter isWaitingRefresh else mc.waitingRefreshes query := by
  show (set1 mc.commandQueues queueId ({ queueHead with issued := true } :: rest) query).filter isWaitingRefresh = _
  rw [set1_apply]
  split
  · rw [List.filter_cons_of_neg (by simp [isWaitingRefresh])]
  · rfl

variable {queueHead : NVMainRequest} {rest : List NVMainRequest}

theorem waitingRefreshes_head {queueId : Nat}
    (queue : mc.commandQueues queueId = queueHead :: rest) (refresh : queueHead.type = .refresh)
    (fresh : queueHead.issued = false) : mc.waitingRefreshes queueId = queueHead :: rest.filter isWaitingRefresh := by
  unfold waitingRefreshes
  rw [queue, List.filter_cons_of_pos (by simp [isWaitingRefresh, refresh, fresh])]

theorem left_waiting (exact : FlagsExact cfg mc) {queueId : Nat}
    (headed : mc.waitingRefreshes queueId = queueHead :: rest.filter isWaitingRefresh) (query : Nat)
    (command : NVMainRequest)
    (member : command ∈ if query = queueId then rest.filter isWaitingRefresh else mc.waitingRefreshes query) :
    command ∈ mc.waitingRefreshes query ∧
      ¬(command.address.rank = queueHead.address.rank ∧ command.address.bank / cfg.banksPerRefresh =
        queueHead.address.bank / cfg.banksPerRefresh) := by
  have present : queueHead ∈ mc.waitingRefreshes queueId := by
    rw [headed]
    exact List.mem_cons_self ..
  split at member
  · rename_i here
    have old : command ∈ mc.waitingRefreshes queueId := by
      rw [headed]
      exact List.mem_cons_of_mem _ member
    refine ⟨here ▸ old, fun same => ?_⟩
    have once := exact.once queueId
    rw [headed] at once
    have bank := (exact.same_place old present same.1 same.2).2
    exact (List.pairwise_cons.mp once).1 command member ⟨same.1.symm, bank.symm⟩
  · rename_i there
    exact ⟨member, fun same => there (exact.same_place member present same.1 same.2).1⟩

/-- The head of a queue is issued: a refresh clears the flags of its group, which has no other one
waiting. -/
theorem markIssued (exact : FlagsExact cfg mc) (positive : 0 < cfg.banksPerRefresh)
    (divides : cfg.banksPerRefresh ∣ cfg.banks) {queueId : Nat} (queue : mc.commandQueues queueId = queueHead :: rest)
    (fresh : queueHead.issued = false) (now : Nat) : FlagsExact cfg (mc.markIssued cfg queueId queueHead rest now) := by
  have waiting := waiting_flagged mc queueId queueHead rest
  unfold MemoryController.markIssued
  dsimp only
  split
  · rename_i refresh
    have headed := waitingRefreshes_head queue refresh fresh
    have left := exact.left_waiting headed
    have present : queueHead ∈ mc.waitingRefreshes queueId := by
      rw [headed]
      exact List.mem_cons_self ..
    obtain ⟨place, head, inside⟩ := exact.placed queueId queueHead present
    have aligned : bankHead cfg queueHead.address.bank = queueHead.address.bank :=
      Nat.div_mul_cancel head
    have room := head_add_le divides head inside
    rw [resetRefreshQueued_eq]
    swap
    · intro i small
      have group := (mem_bankGroup positive queueHead.address.bank (bankHead cfg queueHead.address.bank + i)
        ).mp (List.mem_map.mpr ⟨i, List.mem_range.mpr small, rfl⟩)
      refine (exact.exact _ _ (by omega)).mpr ((refreshWaits_iff ..).mpr ⟨queueId, queueHead, present, rfl, group.symm⟩)
    refine ⟨exact.aligned, fun query command member => ?_, fun query => ?_, fun rank bank bounded => ?_,
      exact.asserted, exact.reads⟩
    · have member : command ∈ if query = queueId then rest.filter isWaitingRefresh
          else mc.waitingRefreshes query := waiting query ▸ member
      exact exact.placed query command (left query command member).1
    · show ((mc.setQueue queueId _).waitingRefreshes query).Pairwise _
      rw [waiting query]
      split
      · have once := exact.once queueId
        rw [headed] at once
        exact (List.pairwise_cons.mp once).2
      · exact exact.once query
    · show setGroup cfg mc.refreshQueued queueHead.address.bank queueHead.address.rank false rank bank =
        true ↔ _
      rw [setGroup, foldl_set2_apply, refreshWaits_iff]
      have group := mem_bankGroup positive queueHead.address.bank bank
      by_cases here : rank = queueHead.address.rank ∧
          bank / cfg.banksPerRefresh = queueHead.address.bank / cfg.banksPerRefresh
      · rw [if_pos ⟨here.1, group.mpr here.2⟩]
        refine iff_of_false (by simp) ?_
        rintro ⟨query, command, member, rank', group'⟩
        obtain ⟨old, different⟩ := left query command (waiting query ▸ member)
        exact different ⟨rank'.trans here.1, group'.trans here.2⟩
      · rw [if_neg fun there => here ⟨there.1, group.mp there.2⟩, exact.exact rank bank bounded,
          refreshWaits_iff]
        refine exists_congr fun query => ⟨?_, ?_⟩
        · rintro ⟨command, member, rank', group'⟩
          refine ⟨command, ?_, rank', group'⟩
          show command ∈ (mc.setQueue queueId _).waitingRefreshes query
          rw [waiting query]
          split
          · rename_i same
            rw [same, headed] at member
            refine (List.mem_cons.mp member).resolve_left fun first => here ?_
            rw [← rank', ← group', first]
            exact ⟨rfl, rfl⟩
          · exact member
        · rintro ⟨command, member, same⟩
          exact ⟨command, (left query command (waiting query ▸ member)).1, same⟩
  · rename_i other
    refine exact.frame (fun query => (waiting query).trans ?_) rfl rfl id exact.reads
    split
    · rename_i here
      rw [here]
      unfold waitingRefreshes
      rw [queue, List.filter_cons_of_neg (by simp [isWaitingRefresh, other])]
    · rfl

end FlagsExact

/-! ### Runs -/

/-- The actions of a run: the requests are reads and writes, and a command is issued once (the cleanup
of an issued head comes before anything else of the next cycle). -/
def RefreshAction (sys : System χ) : Action χ → Prop
  | .accept request => request.type = .read ∨ request.type = .write
  | .queue request => request.type = .read ∨ request.type = .write
  | .issue queueId => ∀ queueHead ∈ (sys.mc.commandQueues queueId).head?, queueHead.issued = false
  | _ => True

/-- The group `HandleRefresh` is about to refresh has no `REFRESH` waiting. -/
def NoRefreshWaiting (cfg : Config) (sys : System χ) : Action χ → Prop
  | .refresh => ∀ target ∈ sys.mc.refreshTarget cfg, ¬sys.mc.RefreshQueuedAt cfg target.1 target.2
  | _ => True

instance (sys : System χ) : (action : Action χ) → Decidable (RefreshAction sys action)
  | .accept request => inferInstanceAs (Decidable (request.type = .read ∨ request.type = .write))
  | .queue request => inferInstanceAs (Decidable (request.type = .read ∨ request.type = .write))
  | .issue queueId => inferInstanceAs
      (Decidable (∀ queueHead ∈ (sys.mc.commandQueues queueId).head?, queueHead.issued = false))
  | .environment .. | .complete _ | .pulse _ | .schedule _ _ | .refresh | .cleanup => isTrue trivial

instance (cfg : Config) (sys : System χ) : (action : Action χ) → Decidable (NoRefreshWaiting cfg sys action)
  | .refresh => inferInstanceAs
      (Decidable (∀ target ∈ sys.mc.refreshTarget cfg, ¬sys.mc.RefreshQueuedAt cfg target.1 target.2))
  | .environment .. | .accept _ | .complete _ | .pulse _ | .schedule _ _ | .queue _ | .issue _
  | .cleanup => isTrue trivial

/-- **Every action keeps the flags exact**, as long as no group is refreshed that has a refresh
waiting. -/
theorem perform_flagsExact {cfg : Config} {child : Child χ} (positive : 0 < cfg.banksPerRefresh)
    (divides : cfg.banksPerRefresh ∣ cfg.banks) (sys : System χ) (action : Action χ)
    (fits : RefreshAction sys action ∧ NoRefreshWaiting cfg sys action)
    (exact : FlagsExact cfg sys.mc) : FlagsExact cfg (sys.perform cfg child action).mc := by
  have unlike : ∀ {type : OpType}, type = .read ∨ type = .write → type ≠ .refresh := by
    rintro type (rfl | rfl) <;> exact nofun
  have framed : Framed (FlagsExact cfg) fun waiting => waiting.type ≠ .refresh :=
    ⟨FlagsExact.reads, fun _ _ _ _ _ _ exact reads => exact.frame (fun _ => rfl) rfl rfl id reads⟩
  refine framed.perform exact ?_
  cases action with
  | environment below queue lastCommandWake deadlocked outOfDepth => trivial
  | accept request => exact unlike fits.1
  | complete request =>
    intro back
    rcases back.1 with type | type <;> simp [type]
  | pulse refresh => trivial
  | schedule finder pred =>
    intro request mc front original back picked rest read
    have type : request.type = original.type := by rw [picked.same]
    exact rest.queueCommands (type ▸ read) _ _ _
  | queue request => exact exact.queueCommands (unlike fits.1) _ _ _
  | refresh =>
    intro i j target
    obtain ⟨head, inside⟩ := refreshTarget_head divides exact.aligned target
    exact exact.queueRefresh positive divides head inside (fits.2 (i, j) target) _
  | issue queueId =>
    intro queueHead rest queue
    have fresh : queueHead.issued = false := fits.1 queueHead (by rw [queue]; rfl)
    rw [(issueHead_eq queue).1]
    have marked := exact.markIssued positive divides queue fresh (sys.sendCommand child queueHead).now
    unfold MemoryController.moveCurrentQueue
    split
    · exact marked.frame (fun _ => rfl) rfl rfl id marked.reads
    · exact marked
  | cleanup =>
    refine exact.frame (fun queueId => ?_) rfl rfl id exact.reads
    show (if queueId < cfg.commandQueueCount then (sys.mc.commandQueues queueId).filter (!·.issued)
      else sys.mc.commandQueues queueId).filter isWaitingRefresh = _
    unfold waitingRefreshes
    split
    · rw [List.filter_filter]
      refine List.filter_congr fun command _ => ?_
      unfold isWaitingRefresh
      cases command.issued <;> simp
    · rfl

/-- **The flags are exact in every run that does not refresh a group twice.** With a number of banks
per refresh that divides the number of banks, as long as `HandleRefresh` is not reached for a group
that has a `REFRESH` waiting: `refreshQueued` is set for a bank iff a `REFRESH` of its group is in a
command queue and not issued, and the assertion of `ResetRefreshQueued` has not failed. -/
theorem refresh_flags_exact (cfg : Config) (child : Child χ) (below : χ) (queue : ControllerQueue)
    (positive : 0 < cfg.banksPerRefresh) (divides : cfg.banksPerRefresh ∣ cfg.banks) (actions : List (Action χ))
    (run : AllowedRun (System.perform cfg child)
      (fun sys action => RefreshAction sys action ∧ NoRefreshWaiting cfg sys action)
      (System.setConfig cfg below queue) actions) :
    let mc := (runActions (System.perform cfg child) (System.setConfig cfg below queue) actions).mc
    (∀ rank bank, bank < cfg.banks → (mc.refreshQueued rank bank = true ↔ mc.RefreshWaits cfg rank bank)) ∧
    Assertion.refreshQueued ∉ mc.failedAsserts := by
  have exact := run.invariant (fun sys => FlagsExact cfg sys.mc)
    (perform_flagsExact positive divides) (FlagsExact.create cfg)
  exact ⟨exact.exact, exact.asserted⟩

/-- Two refreshes of bank 0, the second once the first is issued, with a read in between. -/
def timelyRefreshes : List (Action Unit) :=
  [.wait 100, .pulse (pulseOf 0), .refresh, .accept (.incoming 1 .read 128), .issue 0, .wait 101,
    .cleanup, .schedule .closedBankRequest fun _ => true, .wait 200, .pulse (pulseOf 0), .refresh]

theorem refresh_flags_exact_timelyRefreshes :
    let mc := (runActions (System.perform (smallConfig .perBank 0) promptChild)
      (System.setConfig (smallConfig .perBank 0) () .create) timelyRefreshes).mc
    (mc.refreshQueued 0 0 = true ↔ mc.RefreshWaits (smallConfig .perBank 0) 0 0) ∧
      mc.refreshQueued 0 0 = true ∧ Assertion.refreshQueued ∉ mc.failedAsserts := by
  have exact := refresh_flags_exact (smallConfig .perBank 0) promptChild () .create (by decide)
    (by decide) timelyRefreshes (by decide)
  exact ⟨exact.1 0 0 (by decide), by decide, exact.2⟩

/-- The pulses of both groups, a second one of group 0, and the issue of one command. -/
def hurriedRefreshes : List (ControllerCall Unit) :=
  [.other (.wait 100), .refreshCallback 4 (pulseOf 0), .other (.wait 150),
    .refreshCallback 4 (pulseOf 1), .other (.wait 200), .refreshCallback 4 (pulseOf 0),
    .other (.wait 210), .cycleCommandQueues]

/-- The next issue. -/
def nextIssues : List (ControllerCall Unit) :=
  [.other (.wait 211), .other .cleanup, .cycleCommandQueues, .other (.wait 212), .other .cleanup, .cycleCommandQueues]

/-- **The flag is cleared while a refresh waits.** The second pulse of bank 0 queues a second `REFRESH`
behind the first; when the first is issued the flag of the bank goes, and when the second is issued
the assertion fails. -/
theorem second_refresh :
    let sys := runActions (System.invoke (smallConfig .perBank 0) busyChild)
      (System.setConfig (smallConfig .perBank 0) () .create) hurriedRefreshes
    ¬(sys.mc.refreshQueued 0 0 = true ↔ sys.mc.RefreshWaits (smallConfig .perBank 0) 0 0) ∧
      Assertion.refreshQueued ∈
        (runActions (System.invoke (smallConfig .perBank 0) busyChild) sys nextIssues).mc.failedAsserts := by
  refine ⟨fun exact => ?_, by decide⟩
  have waits : MemoryController.RefreshWaits (smallConfig .perBank 0)
      (runActions (System.invoke (smallConfig .perBank 0) busyChild)
        (System.setConfig (smallConfig .perBank 0) () .create) hurriedRefreshes).mc 0 0 :=
    ⟨0, by decide⟩
  have flag := exact.mpr waits
  revert flag
  decide

end Emas.Nvmain

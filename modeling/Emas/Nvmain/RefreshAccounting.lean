/-
**Pulses and refreshes of a bank group.**

`delayedRefreshCounter` is to be what a bank group is owed: the pulses that have come for it, less the
`REFRESH` commands that were created for it. `RefreshCallback` counts a pulse and lets `HandleRefresh` look for one group at the threshold.

* `refresh_accounting`: **counters, flags and `HandleRefresh` agree in every state of every run**.
-/

import Emas.Nvmain.RefreshBounds
import Emas.Lib.Ring

namespace Emas.Nvmain

open Table MemoryController

variable {χ : Type}

/-! ### The ledger -/

/-- The fields that account for refreshes. -/
structure RefreshLedger where
  delayedRefreshCounter : Nat → Nat → Nat
  bankNeedRefresh : Nat → Nat → Bool
  nextRefreshRank : Nat
  nextRefreshBank : Nat

namespace MemoryController

variable (cfg : Config) (mc : MemoryController)

/-- Those fields of a controller. -/
def refreshLedger : RefreshLedger :=
  ⟨mc.delayedRefreshCounter, mc.bankNeedRefresh, mc.nextRefreshRank, mc.nextRefreshBank⟩

/-- The refreshes that a group is owed. -/
def owed (rank group : Nat) : Nat := mc.delayedRefreshCounter rank group

theorem queueCommands_ledger (request : NVMainRequest) (cached writing : Bool) (now : Nat) :
    (mc.queueCommands cfg request cached writing now).1.refreshLedger = mc.refreshLedger := by
  obtain ⟨queues, queued, active, rows, muxed, starvation, failed, same⟩ :=
    queueCommands_changes cfg mc request cached writing now
  rw [same]
  rfl

theorem prechargeGroup_ledger (i j now : Nat) : (mc.prechargeGroup cfg i j now).refreshLedger = mc.refreshLedger := by
  obtain ⟨queues, queued, active, rows, muxed, same⟩ := prechargeGroup_changes cfg mc i j now
  rw [same]
  rfl

theorem setGroup_apply (positive : 0 < cfg.banksPerRefresh) (flags : Nat → Nat → Bool) (bank rank : Nat)
    (value : Bool) (rank' bank' : Nat) : setGroup cfg flags bank rank value rank' bank' =
      if rank' = rank ∧ bank' / cfg.banksPerRefresh = bank / cfg.banksPerRefresh then value
      else flags rank' bank' := by
  rw [setGroup, foldl_set2_apply]
  exact if_congr (and_congr_right fun _ => mem_bankGroup positive bank bank') rfl rfl

theorem needRefresh_iff (bank rank : Nat) : mc.needRefresh cfg bank rank = true ↔
    cfg.useRefresh = true ∧ cfg.delayedRefreshThreshold ≤ mc.owed rank (bank / cfg.banksPerRefresh) := by
  rw [needRefresh, Bool.and_eq_true, decide_eq_true_eq]
  rfl

theorem advanceRefresh_counts : (mc.advanceRefresh cfg).delayedRefreshCounter = mc.delayedRefreshCounter ∧
    (mc.advanceRefresh cfg).bankNeedRefresh = mc.bankNeedRefresh := by
  unfold advanceRefresh
  dsimp only
  split <;> exact ⟨rfl, rfl⟩

theorem queueRefresh_counts (i j now : Nat) (used : cfg.useRefresh = true) :
    (mc.queueRefresh cfg i j now).delayedRefreshCounter = set2 mc.delayedRefreshCounter i (j / cfg.banksPerRefresh)
        (subCycles (mc.owed i (j / cfg.banksPerRefresh)) 1) ∧ (mc.queueRefresh cfg i j now).bankNeedRefresh =
        if cfg.delayedRefreshThreshold ≤ subCycles (mc.owed i (j / cfg.banksPerRefresh)) 1 then mc.bankNeedRefresh
        else setGroup cfg mc.bankNeedRefresh j i false := by
  have precharged := prechargeGroup_ledger cfg mc i j now
  have counters : (mc.prechargeGroup cfg i j now).delayedRefreshCounter = mc.delayedRefreshCounter :=
    congrArg RefreshLedger.delayedRefreshCounter precharged
  have needs : (mc.prechargeGroup cfg i j now).bankNeedRefresh = mc.bankNeedRefresh :=
    congrArg RefreshLedger.bankNeedRefresh precharged
  rw [owed, ← counters, ← needs]
  unfold queueRefresh
  generalize mc.prechargeGroup cfg i j now = charged
  dsimp only
  generalize decreased : ((charged.pushBack _ _).markRefreshQueued cfg i j).decrementRefreshCounter cfg j i = after
  have counter : after.delayedRefreshCounter = set2 charged.delayedRefreshCounter i (j / cfg.banksPerRefresh)
      (subCycles (charged.delayedRefreshCounter i (j / cfg.banksPerRefresh)) 1) := by
    rw [← decreased]
    rfl
  have flags : after.bankNeedRefresh = charged.bankNeedRefresh := by
    rw [← decreased]
    rfl
  have waits : after.needRefresh cfg j i = true ↔ cfg.delayedRefreshThreshold ≤
      subCycles (charged.delayedRefreshCounter i (j / cfg.banksPerRefresh)) 1 := by
    rw [needRefresh_iff, owed, counter, set2_self]
    exact and_iff_right used
  rw [← counter, ← flags]
  by_cases again : after.needRefresh cfg j i = true
  · rw [if_pos again, if_pos (waits.mp again)]
    exact advanceRefresh_counts cfg after
  · rw [if_neg again, if_neg fun reached => again (waits.mpr reached)]
    exact advanceRefresh_counts cfg (after.resetRefresh cfg j i)

theorem refreshTarget_waits {i j : Nat} (target : mc.refreshTarget cfg = some (i, j)) :
    cfg.useRefresh = true ∧ cfg.delayedRefreshThreshold ≤ mc.owed i (j / cfg.banksPerRefresh) := by
  have needs : mc.needRefresh cfg j i = true :=
    List.find?_some (p := fun target : Nat × Nat => mc.needRefresh cfg target.2 target.1) target
  exact (needRefresh_iff cfg mc j i).mp needs

/-! ### The scan -/

/-- **The scan misses no group**, from any rank and any head of a group on. -/
theorem refreshTarget_isSome_iff (positive : 0 < cfg.banksPerRefresh) (divides : cfg.banksPerRefresh ∣ cfg.banks)
    (aligned : cfg.banksPerRefresh ∣ mc.nextRefreshBank) : (mc.refreshTarget cfg).isSome = true ↔
      cfg.useRefresh = true ∧ ∃ rank < cfg.ranks, ∃ group < cfg.refreshBankNum,
        cfg.delayedRefreshThreshold ≤ mc.owed rank group := by
  have whole : cfg.banksPerRefresh * cfg.refreshBankNum = cfg.banks := Nat.mul_div_cancel' divides
  constructor
  · intro found
    obtain ⟨⟨i, j⟩, target⟩ := Option.isSome_iff_exists.mp found
    obtain ⟨rank, bank⟩ := refreshTarget_range target
    obtain ⟨used, waits⟩ := refreshTarget_waits cfg mc target
    refine ⟨used, i, rank, j / cfg.banksPerRefresh, ?_, waits⟩
    exact Nat.div_lt_of_lt_mul (whole ▸ bank)
  · rintro ⟨used, rank, inRange, group, counted, waits⟩
    obtain ⟨rankIdx, turn, reached⟩ := exists_add_mod_eq mc.nextRefreshRank inRange
    obtain ⟨bankIdx, stride, head⟩ := exists_add_mul_mod_eq aligned counted
    refine List.find?_isSome.mpr ⟨(rank, cfg.banksPerRefresh * group), ?_, ?_⟩
    · simp only [refreshCandidates, List.mem_flatMap, List.mem_map, List.mem_range, Prod.mk.injEq]
      exact ⟨rankIdx, turn, bankIdx, stride, reached, whole ▸ head⟩
    · refine (needRefresh_iff cfg mc _ _).mpr ⟨used, ?_⟩
      show cfg.delayedRefreshThreshold ≤ mc.owed rank (cfg.banksPerRefresh * group / cfg.banksPerRefresh)
      rwa [Nat.mul_div_cancel_left _ positive]

end MemoryController

/-! ### What the actions do -/

variable {action : Action χ}

section Actions

variable (cfg : Config) (child : Child χ) (sys : System χ)

/-- Any action but a pulse and a refresh. -/
def UnaccountedAction : Action χ → Prop
  | .pulse _ | .refresh => False
  | _ => True

theorem perform_ledger (unaccounted : UnaccountedAction action) :
    (sys.perform cfg child action).mc.refreshLedger = sys.mc.refreshLedger := by
  cases action with
  | environment below queue lastCommandWake deadlocked outOfDepth => rfl
  | accept request =>
    show ((sys.issueCommand cfg request).getD sys).mc.refreshLedger = _
    rcases issueCommand_eq request with full | ⟨after, taken, mc, -⟩
    · rw [full]
      rfl
    · rw [taken]
      show after.mc.refreshLedger = _
      rw [mc]
      rfl
  | complete request =>
    show (sys.requestComplete request).mc.refreshLedger = _
    rcases requestComplete_eq request with same | back
    · rw [same]
    · rw [back]
      rfl
  | pulse refresh => exact unaccounted.elim
  | schedule finder pred =>
    refine perform_schedule (fun after => after.mc.refreshLedger = sys.mc.refreshLedger) rfl
      fun request mc front original back picked => ?_
    rw [startCommands_eq]
    refine (queueCommands_ledger cfg mc request _ _ _).trans ?_
    rw [picked.rest]
    rfl
  | queue request => exact queueCommands_ledger cfg sys.mc request _ _ _
  | refresh => exact unaccounted.elim
  | issue queueId =>
    show (sys.issueHead cfg child queueId).mc.refreshLedger = _
    cases queue : sys.mc.commandQueues queueId with
    | nil => rw [issueHead_of_empty queue]
    | cons queueHead rest =>
      obtain ⟨flags, failed, issued, current, -, changed⟩ := issueHead_changes cfg child queue
      rw [changed]
      rfl
  | cleanup => rfl

/-- **A pulse** is counted, and the banks of its group are flagged if it brings them to the threshold. -/
theorem perform_pulse (refresh : NVMainRequest) {rank group : Nat} (here : refresh.address.rank = rank)
    (inGroup : refresh.address.bank / cfg.banksPerRefresh = group) (room : sys.mc.owed rank group < maxCycle) :
    (sys.perform cfg child (.pulse refresh)).mc.refreshLedger = {
      delayedRefreshCounter := set2 sys.mc.delayedRefreshCounter rank group (sys.mc.owed rank group + 1)
      bankNeedRefresh :=
        if cfg.useRefresh = true ∧ cfg.delayedRefreshThreshold ≤ sys.mc.owed rank group + 1 then
          setGroup cfg sys.mc.bankNeedRefresh refresh.address.bank rank true
        else sys.mc.bankNeedRefresh
      nextRefreshRank := sys.mc.nextRefreshRank
      nextRefreshBank := sys.mc.nextRefreshBank } := by
  have counted : addCycles (sys.mc.owed rank group) 1 = sys.mc.owed rank group + 1 :=
    Nat.mod_eq_of_lt (by unfold maxCycle at room; omega)
  have counters : (sys.mc.incrementRefreshCounter cfg refresh.address.bank rank).delayedRefreshCounter =
      set2 sys.mc.delayedRefreshCounter rank group (sys.mc.owed rank group + 1) := by
    rw [← counted, ← inGroup]
    rfl
  have waits : (sys.mc.incrementRefreshCounter cfg refresh.address.bank rank).needRefresh cfg refresh.address.bank
      rank = true ↔ cfg.useRefresh = true ∧ cfg.delayedRefreshThreshold ≤ sys.mc.owed rank group + 1 := by
    rw [needRefresh_iff, inGroup, owed, counters, set2_self]
  show (sys.countRefresh cfg refresh).mc.refreshLedger = _
  rw [System.countRefresh, here]
  dsimp only
  by_cases reached : cfg.useRefresh = true ∧ cfg.delayedRefreshThreshold ≤ sys.mc.owed rank group + 1
  · rw [if_pos (waits.mpr reached), if_pos reached, ← counters]
    rfl
  · rw [if_neg fun needs => reached (waits.mp needs), if_neg reached, ← counters]
    rfl

/-- **A refresh** is taken off the count of its group, whose flags are cleared if that is below the threshold again. -/
theorem perform_refresh {i j : Nat} (target : sys.mc.refreshTarget cfg = some (i, j))
    (positive : 1 ≤ cfg.delayedRefreshThreshold) (small : sys.mc.owed i (j / cfg.banksPerRefresh) ≤ maxCycle) :
    ∃ nextRank nextBank, (nextBank = 0 ∨ nextBank = sys.mc.nextRefreshBank + cfg.banksPerRefresh) ∧
      (sys.perform cfg child .refresh).mc.refreshLedger = {
        delayedRefreshCounter := set2 sys.mc.delayedRefreshCounter i (j / cfg.banksPerRefresh)
          (sys.mc.owed i (j / cfg.banksPerRefresh) - 1)
        bankNeedRefresh :=
          if cfg.delayedRefreshThreshold ≤ sys.mc.owed i (j / cfg.banksPerRefresh) - 1 then
            sys.mc.bankNeedRefresh
          else setGroup cfg sys.mc.bankNeedRefresh j i false
        nextRefreshRank := nextRank
        nextRefreshBank := nextBank } := by
  obtain ⟨used, waits⟩ := refreshTarget_waits cfg sys.mc target
  have counted : subCycles (sys.mc.owed i (j / cfg.banksPerRefresh)) 1 =
      sys.mc.owed i (j / cfg.banksPerRefresh) - 1 := subCycles_eq (by omega) small
  obtain ⟨-, next, -, -⟩ := queueRefresh_fields cfg sys.mc i j sys.now
  refine ⟨(sys.mc.queueRefresh cfg i j sys.now).nextRefreshRank, _, next, ?_⟩
  show (sys.startRefresh cfg).mc.refreshLedger = _
  rw [System.startRefresh, target]
  show (sys.mc.queueRefresh cfg i j sys.now).refreshLedger = _
  obtain ⟨counters, needs⟩ := queueRefresh_counts cfg sys.mc i j sys.now used
  rw [refreshLedger, counters, needs, counted]

end Actions

/-! ### The invariant -/

/-- The counters are in range, the flags say which groups are at the threshold, and the scan starts at the head of a
group. -/
structure RefreshInv (cfg : Config) (mc : MemoryController) : Prop where
  aligned : cfg.banksPerRefresh ∣ mc.nextRefreshBank
  unused : cfg.useRefresh = false → ∀ rank group, mc.owed rank group = 0
  small : ∀ rank group, mc.owed rank group ≤ maxCycle
  flags : ∀ rank bank, mc.bankNeedRefresh rank bank = true ↔
    cfg.delayedRefreshThreshold ≤ mc.owed rank (bank / cfg.banksPerRefresh)

/-- What a run consists of: any actions, with pulses that `SetConfig` has made and that do not overflow their
counter, and no `REFRESH` from outside. -/
def CountedAction (cfg : Config) (sys : System χ) : Action χ → Prop
  | .pulse refresh => IsPulse cfg refresh ∧
      sys.mc.owed refresh.address.rank (refresh.address.bank / cfg.banksPerRefresh) < maxCycle
  | action => RefreshlessAction sys action

/-- The action is a pulse for the group. -/
def isPulseFor (cfg : Config) (rank group : Nat) (_sys : System χ) : Action χ → Bool
  | .pulse refresh => refresh.address.rank = rank ∧ refresh.address.bank / cfg.banksPerRefresh = group
  | _ => false

/-- The action is a `HandleRefresh` whose scan finds the group. -/
def isRefreshFor (cfg : Config) (rank group : Nat) (sys : System χ) : Action χ → Bool
  | .refresh => (sys.mc.refreshTarget cfg).any fun target =>
      target.1 = rank ∧ target.2 / cfg.banksPerRefresh = group
  | _ => false

variable {sys : System χ}

theorem CountedAction.refreshless {cfg : Config}
    (fits : CountedAction cfg sys action) : RefreshlessAction sys action := by
  cases action with
  | pulse refresh => trivial
  | environment _ _ _ _ _ | accept _ | complete _ | schedule _ _ | queue _ | refresh | issue _ | cleanup =>
    exact fits

namespace RefreshInv

variable {cfg : Config} {child : Child χ} {sys : System χ} {mc after : MemoryController}

theorem create (positive : 1 ≤ cfg.delayedRefreshThreshold) : RefreshInv cfg (.create cfg) where
  aligned := Nat.dvd_zero _
  unused _ _ _ := rfl
  small _ _ := Nat.zero_le _
  flags _ _ := iff_of_false nofun (Nat.not_le_of_lt positive)

theorem congr (inv : RefreshInv cfg mc) (same : after.refreshLedger = mc.refreshLedger) : RefreshInv cfg after := by
  have counters : after.delayedRefreshCounter = mc.delayedRefreshCounter :=
    congrArg RefreshLedger.delayedRefreshCounter same
  have needs : after.bankNeedRefresh = mc.bankNeedRefresh := congrArg RefreshLedger.bankNeedRefresh same
  have next : after.nextRefreshBank = mc.nextRefreshBank := congrArg RefreshLedger.nextRefreshBank same
  have owed : ∀ rank group, after.owed rank group = mc.owed rank group := fun rank group =>
    congrFun₂ counters rank group
  exact ⟨next ▸ inv.aligned, fun unused rank group => (owed rank group).trans (inv.unused unused rank group),
    fun rank group => owed rank group ▸ inv.small rank group, fun rank bank => by rw [needs, owed, inv.flags]⟩

theorem write (inv : RefreshInv cfg mc) (rank bank count : Nat) (used : cfg.useRefresh = true)
    (small : count ≤ maxCycle)
    (counters : after.delayedRefreshCounter = set2 mc.delayedRefreshCounter rank (bank / cfg.banksPerRefresh) count)
    (needs : ∀ rank' bank', after.bankNeedRefresh rank' bank' =
      if rank' = rank ∧ bank' / cfg.banksPerRefresh = bank / cfg.banksPerRefresh then
        decide (cfg.delayedRefreshThreshold ≤ count)
      else mc.bankNeedRefresh rank' bank')
    (aligned : cfg.banksPerRefresh ∣ after.nextRefreshBank) : RefreshInv cfg after := by
  have owed : ∀ rank' group, after.owed rank' group =
      if rank' = rank ∧ group = bank / cfg.banksPerRefresh then count else mc.owed rank' group := by
    intro rank' group
    rw [MemoryController.owed, counters, set2_apply]
    rfl
  refine ⟨aligned, fun unused => absurd (used.symm.trans unused) nofun, fun rank' group => ?_, fun rank' bank' => ?_⟩
  · rw [owed]
    split
    · exact small
    · exact inv.small rank' group
  · rw [needs, owed]
    split
    · exact decide_eq_true_iff
    · exact inv.flags rank' bank'

theorem flags_kept (inv : RefreshInv cfg mc) {rank bank count : Nat} (same : cfg.delayedRefreshThreshold ≤ count ↔
      cfg.delayedRefreshThreshold ≤ mc.owed rank (bank / cfg.banksPerRefresh)) (rank' bank' : Nat) :
    mc.bankNeedRefresh rank' bank' =
      if rank' = rank ∧ bank' / cfg.banksPerRefresh = bank / cfg.banksPerRefresh then
        decide (cfg.delayedRefreshThreshold ≤ count)
      else mc.bankNeedRefresh rank' bank' := by
  split
  · rename_i inGroup
    rw [Bool.eq_iff_iff, inv.flags, decide_eq_true_iff, same, inGroup.1, inGroup.2]
  · rfl

theorem pulse (positive : 0 < cfg.banksPerRefresh) (inv : RefreshInv cfg sys.mc) {refresh : NVMainRequest}
    (used : cfg.useRefresh = true)
    (room : sys.mc.owed refresh.address.rank (refresh.address.bank / cfg.banksPerRefresh) < maxCycle) :
    RefreshInv cfg (sys.perform cfg child (.pulse refresh)).mc := by
  have counted := perform_pulse cfg child sys refresh rfl rfl room
  have needs := congrArg RefreshLedger.bankNeedRefresh counted
  have next : (sys.perform cfg child (.pulse refresh)).mc.nextRefreshBank = sys.mc.nextRefreshBank :=
    congrArg RefreshLedger.nextRefreshBank counted
  refine inv.write refresh.address.rank refresh.address.bank _ used room
    (congrArg RefreshLedger.delayedRefreshCounter counted) (fun rank bank => ?_) (next ▸ inv.aligned)
  refine (congrFun₂ needs rank bank).trans ?_
  dsimp only
  by_cases reached : cfg.useRefresh = true ∧ cfg.delayedRefreshThreshold ≤
      sys.mc.owed refresh.address.rank (refresh.address.bank / cfg.banksPerRefresh) + 1
  · rw [if_pos reached, decide_eq_true reached.2, setGroup_apply cfg positive]
  · rw [if_neg reached]
    have below : ¬cfg.delayedRefreshThreshold ≤
        sys.mc.owed refresh.address.rank (refresh.address.bank / cfg.banksPerRefresh) + 1 :=
      fun counted => reached ⟨used, counted⟩
    exact inv.flags_kept ⟨fun counted => absurd counted below, Nat.le_succ_of_le⟩ rank bank

theorem refresh (accepted : 0 < cfg.banksPerRefresh) (positive : 1 ≤ cfg.delayedRefreshThreshold)
    (inv : RefreshInv cfg sys.mc) : RefreshInv cfg (sys.perform cfg child .refresh).mc := by
  cases target : sys.mc.refreshTarget cfg with
  | none =>
    show RefreshInv cfg (sys.startRefresh cfg).mc
    rw [System.startRefresh, target]
    exact inv
  | some head =>
    obtain ⟨i, j⟩ := head
    obtain ⟨used, waits⟩ := refreshTarget_waits cfg sys.mc target
    obtain ⟨nextRank, nextBank, next, taken⟩ :=
      perform_refresh cfg child sys target positive (inv.small i (j / cfg.banksPerRefresh))
    have needs := congrArg RefreshLedger.bankNeedRefresh taken
    have cursor : (sys.perform cfg child .refresh).mc.nextRefreshBank = nextBank :=
      congrArg RefreshLedger.nextRefreshBank taken
    have aligned : cfg.banksPerRefresh ∣ nextBank := by
      rcases next with rfl | rfl
      · exact Nat.dvd_zero _
      · exact Nat.dvd_add inv.aligned (Nat.dvd_refl _)
    refine inv.write i j _ used ((Nat.sub_le ..).trans (inv.small i (j / cfg.banksPerRefresh)))
      (congrArg RefreshLedger.delayedRefreshCounter taken) (fun rank bank => ?_)
      (cursor ▸ aligned)
    refine (congrFun₂ needs rank bank).trans ?_
    dsimp only
    split
    · rename_i still
      exact inv.flags_kept ⟨fun _ => waits, fun _ => still⟩ rank bank
    · rename_i below
      rw [setGroup_apply cfg accepted, decide_eq_false below]

/-- **Every action keeps the invariant.** -/
theorem perform (accepted : 0 < cfg.banksPerRefresh) (positive : 1 ≤ cfg.delayedRefreshThreshold)
    (inv : RefreshInv cfg sys.mc) (fits : CountedAction cfg sys action) :
    RefreshInv cfg (sys.perform cfg child action).mc := by
  cases action with
  | pulse refresh => exact inv.pulse accepted fits.1.1 fits.2
  | refresh => exact inv.refresh accepted positive
  | environment _ _ _ _ _ | accept _ | complete _ | schedule _ _ | queue _ | issue _ | cleanup =>
    exact inv.congr (perform_ledger cfg child sys trivial)

variable (child) in
/-- **Every action keeps the account of every group**: a pulse adds one, a refresh takes one off. -/
theorem perform_owed (positive : 1 ≤ cfg.delayedRefreshThreshold)
    (inv : RefreshInv cfg sys.mc) (fits : CountedAction cfg sys action) (rank group : Nat) :
    (sys.perform cfg child action).mc.owed rank group + (isRefreshFor cfg rank group sys action).toNat =
      sys.mc.owed rank group + (isPulseFor cfg rank group sys action).toNat := by
  have same : ∀ {action : Action χ}, UnaccountedAction action →
      (sys.perform cfg child action).mc.owed rank group = sys.mc.owed rank group := fun unaccounted =>
    congrFun₂ (congrArg RefreshLedger.delayedRefreshCounter (perform_ledger cfg child sys unaccounted)) rank group
  cases action with
  | pulse refresh =>
    have counters := congrArg RefreshLedger.delayedRefreshCounter (perform_pulse cfg child sys refresh rfl rfl fits.2)
    have owed : (sys.perform cfg child (.pulse refresh)).mc.owed rank group = _ := congrFun₂ counters rank group
    dsimp only at owed
    rw [owed, set2_apply]
    by_cases here : rank = refresh.address.rank ∧ group = refresh.address.bank / cfg.banksPerRefresh
    · obtain ⟨rfl, rfl⟩ := here
      simp [isRefreshFor, isPulseFor]
    · have other : ¬(refresh.address.rank = rank ∧ refresh.address.bank / cfg.banksPerRefresh = group) :=
        fun same => here ⟨same.1.symm, same.2.symm⟩
      rw [if_neg here]
      simp [isRefreshFor, isPulseFor, other, MemoryController.owed]
  | refresh =>
    cases target : sys.mc.refreshTarget cfg with
    | none =>
      have idle : sys.perform cfg child .refresh = sys := by
        show sys.startRefresh cfg = sys
        rw [System.startRefresh, target]
      rw [idle]
      simp [isRefreshFor, isPulseFor, target]
    | some head =>
      obtain ⟨i, j⟩ := head
      obtain ⟨-, waits⟩ := refreshTarget_waits cfg sys.mc target
      obtain ⟨nextRank, nextBank, -, taken⟩ :=
        perform_refresh cfg child sys target positive (inv.small i (j / cfg.banksPerRefresh))
      have counters := congrArg RefreshLedger.delayedRefreshCounter taken
      have owed : (sys.perform cfg child .refresh).mc.owed rank group = _ := congrFun₂ counters rank group
      dsimp only at owed
      rw [owed, set2_apply]
      by_cases here : rank = i ∧ group = j / cfg.banksPerRefresh
      · obtain ⟨rfl, rfl⟩ := here
        simp only [isRefreshFor, isPulseFor, target, Option.any_some, decide_true, Bool.toNat_true,
          Bool.toNat_false, and_self, if_true]
        omega
      · have other : i = rank → ¬j / cfg.banksPerRefresh = group :=
          fun rank group => here ⟨rank.symm, group.symm⟩
        rw [if_neg here]
        simpa [isRefreshFor, isPulseFor, target, MemoryController.owed] using other
  | environment _ _ _ _ _ | accept _ | complete _ | schedule _ _ | queue _ | issue _ | cleanup =>
    exact congrArg (· + 0) (same trivial)

end RefreshInv

/-! ### The commands that are created -/

/-- The command is a `REFRESH` for the group. -/
def isRefreshOf (cfg : Config) (rank group : Nat) (command : NVMainRequest) : Bool :=
  command.type = .refresh ∧ command.address.rank = rank ∧ command.address.bank / cfg.banksPerRefresh = group

/-- The command queue of the first bank of a group, which is where its `REFRESH` commands belong. -/
def Config.refreshQueue (cfg : Config) (rank group : Nat) : Nat := cfg.queueOf rank (group * cfg.banksPerRefresh) 0

/-- How many `REFRESH` commands for the group an action puts in a command queue. -/
def createdRefreshes (cfg : Config) (child : Child χ) (rank group queueId : Nat) (sys : System χ)
    (action : Action χ) : Nat :=
  (newCommands sys.mc (sys.perform cfg child action).mc queueId).countP (isRefreshOf cfg rank group)

section Created

variable {cfg : Config} {child : Child χ} {sys : System χ}

theorem countP_pushedTo {pushed : List (Nat × NVMainRequest)} (others : ∀ item ∈ pushed, item.2.type ≠ .refresh)
    (rank group queueId : Nat) : (pushedTo queueId pushed).countP (isRefreshOf cfg rank group) = 0 := by
  refine List.countP_eq_zero.mpr fun command member refresh => ?_
  simp only [isRefreshOf, decide_eq_true_eq] at refresh
  exact others (queueId, command) (mem_pushedTo.mp member) refresh.1

/-- **`HandleRefresh` creates one `REFRESH`** for the group that it has found, behind the `PRECHARGE_ALL`s. -/
theorem queueRefresh_created (rank group queueId : Nat) {mc : MemoryController} {i j : Nat}
    (head : cfg.banksPerRefresh ∣ j) (now : Nat) :
    (newCommands mc (mc.queueRefresh cfg i j now) queueId).countP (isRefreshOf cfg rank group) =
      (decide (queueId = cfg.refreshQueue rank group) &&
        decide (i = rank ∧ j / cfg.banksPerRefresh = group)).toNat := by
  obtain ⟨banks, -, precharges⟩ := prechargeGroup_pushes cfg mc i j now
  have others : ∀ item ∈ banks.map fun bank => (cfg.getCommandQueueId (.translated 0 0 bank i 0),
      makePrechargeAllRequest cfg 0 0 bank i 0 now), item.2.type ≠ .refresh := by
    intro item member
    obtain ⟨bank, -, rfl⟩ := List.mem_map.mp member
    exact fun type => OpType.noConfusion type
  rw [newCommands_of_pushes (precharges.trans (queueRefresh_pushes cfg mc i j now)), pushedTo_append,
    List.countP_append, countP_pushedTo others, Nat.zero_add]
  by_cases here : i = rank ∧ j / cfg.banksPerRefresh = group
  · obtain ⟨rfl, rfl⟩ := here
    have queue : cfg.refreshQueue i (j / cfg.banksPerRefresh) = cfg.getCommandQueueId (.translated 0 0 j i 0) := by
      rw [Config.refreshQueue, Nat.div_mul_cancel head, Config.queueOf]
    by_cases same : queueId = cfg.getCommandQueueId (.translated 0 0 j i 0)
    · simp [pushedTo, queue, same, isRefreshOf, makeRefreshRequest, NVMainRequest.make, Config.reverseTranslate]
    · simp [pushedTo, queue, same, Ne.symm same]
  · rw [decide_eq_false here, Bool.and_false]
    refine List.countP_eq_zero.mpr fun command member refresh => here ?_
    obtain ⟨-, rfl⟩ := Prod.mk.inj (List.mem_singleton.mp (mem_pushedTo.mp member))
    simp only [isRefreshOf, decide_eq_true_eq] at refresh
    exact refresh.2

theorem queueCommands_created (rank group queueId : Nat) {mc : MemoryController} {request : NVMainRequest}
    (type : request.type ≠ .refresh) (cached writing : Bool) (now : Nat) :
    (newCommands mc (mc.queueCommands cfg request cached writing now).1 queueId).countP
      (isRefreshOf cfg rank group) = 0 := by
  rcases queueCommands_pushes cfg mc request cached writing now with
    ⟨-, made, own, commands, pushes⟩ | ⟨refused, -⟩
  · rw [newCommands_of_pushes pushes]
    refine countP_pushedTo (fun item member => ?_) rank group queueId
    obtain ⟨command, present, rfl⟩ := List.mem_map.mp member
    exact commands.refreshless type command present
  · rw [refused, newCommands_of_length_le (Nat.le_refl _)]
    rfl

/-- **Only `HandleRefresh` creates `REFRESH` commands**, one for the group that it has found. -/
theorem createdRefreshes_eq (divides : cfg.banksPerRefresh ∣ cfg.banks) (placed : RefreshPlaced cfg sys.mc)
    (fits : RefreshlessAction sys action) (rank group queueId : Nat) :
    createdRefreshes cfg child rank group queueId sys action =
      (decide (queueId = cfg.refreshQueue rank group) && isRefreshFor cfg rank group sys action).toNat := by
  have none : ∀ {after : MemoryController},
      (after.commandQueues queueId).length ≤ (sys.mc.commandQueues queueId).length →
        (newCommands sys.mc after queueId).countP (isRefreshOf cfg rank group) = 0 := by
    intro after fewer
    rw [newCommands_of_length_le fewer]
    rfl
  -- the actions that leave the command queues alone
  have framed : Framed (fun mc => mc.commandQueues = sys.mc.commandQueues) fun _ => True :=
    ⟨fun _ _ _ => trivial, fun _ _ _ _ _ _ same _ => same⟩
  have unqueued : ∀ action : Action χ,
      Keeps cfg child (fun mc => mc.commandQueues = sys.mc.commandQueues) (fun _ => True) sys action →
        createdRefreshes cfg child rank group queueId sys action = 0 := fun action keeps =>
    none (Nat.le_of_eq (congrArg List.length (congrFun (framed.perform rfl keeps) queueId)))
  have idle : ∀ action : Action χ, isRefreshFor cfg rank group sys action = false →
      createdRefreshes cfg child rank group queueId sys action = 0 →
        createdRefreshes cfg child rank group queueId sys action =
          (decide (queueId = cfg.refreshQueue rank group) && isRefreshFor cfg rank group sys action).toNat := by
    intro action other created
    rw [created, other, Bool.and_false, Bool.toNat_false]
  cases action with
  | environment below queue lastCommandWake deadlocked outOfDepth => exact idle _ rfl (unqueued _ trivial)
  | accept request => exact idle _ rfl (unqueued _ trivial)
  | complete request => exact idle _ rfl (unqueued _ fun _ => trivial)
  | pulse refresh => exact idle _ rfl (unqueued _ trivial)
  | schedule finder pred =>
    refine idle _ rfl ?_
    refine perform_schedule (fun after : System χ =>
      (newCommands sys.mc after.mc queueId).countP (isRefreshOf cfg rank group) = 0) (none (Nat.le_refl _)) ?_
    intro request mc front original back picked
    have type : request.type = original.type := by rw [picked.same]
    have reads : request.type ≠ .refresh := type ▸ placed.reads original picked.member
    have created : ∀ cached writing now, (newCommands mc (mc.queueCommands cfg request cached writing now).1
      queueId).countP (isRefreshOf cfg rank group) = 0 := queueCommands_created rank group queueId reads
    rw [picked.rest] at created ⊢
    exact created _ _ _
  | queue request => exact idle _ rfl (queueCommands_created rank group queueId fits _ _ _)
  | refresh =>
    show (newCommands sys.mc (sys.startRefresh cfg).mc queueId).countP (isRefreshOf cfg rank group) = _
    cases target : sys.mc.refreshTarget cfg with
    | none => rw [System.startRefresh, isRefreshFor, target, none (Nat.le_refl _), Option.any_none, Bool.and_false,
        Bool.toNat_false]
    | some found =>
      obtain ⟨i, j⟩ := found
      rw [System.startRefresh, isRefreshFor, target]
      exact queueRefresh_created rank group queueId (refreshTarget_head divides placed.aligned target).1 sys.now
  | issue queueId' =>
    refine idle _ rfl (none (Nat.le_of_eq ?_))
    show ((sys.issueHead cfg child queueId').mc.commandQueues queueId).length = _
    cases queue : sys.mc.commandQueues queueId' with
    | nil => rw [issueHead_of_empty queue]
    | cons queueHead rest =>
      obtain ⟨flags, failed, issued, current, -, changed⟩ := issueHead_changes cfg child queue
      rw [changed]
      show (set1 sys.mc.commandQueues queueId' ({ queueHead with issued := true } :: rest) queueId).length = _
      rw [set1_apply]
      split
      · rename_i same
        rw [same, queue, List.length_cons, List.length_cons]
      · rfl
  | cleanup =>
    refine idle _ rfl (none ?_)
    show (if queueId < cfg.commandQueueCount then (sys.mc.commandQueues queueId).filter (!·.issued)
      else sys.mc.commandQueues queueId).length ≤ _
    split
    · exact List.length_filter_le ..
    · exact Nat.le_refl _

end Created

/-! ### Runs of actions -/

/-- What the counters and the flags of a state say, after so many pulses of each group and with so many `REFRESH`
commands of each group created in each command queue. -/
structure RefreshAccounted (cfg : Config) (child : Child χ) (pulses : Nat → Nat → Nat)
    (created : Nat → Nat → Nat → Nat) (sys : System χ) : Prop where
  counters : ∀ rank group,
    sys.mc.delayedRefreshCounter rank group + created rank group (cfg.refreshQueue rank group) = pulses rank group
  elsewhere : ∀ rank group queueId, queueId ≠ cfg.refreshQueue rank group → created rank group queueId = 0
  handles : ∀ depth, (sys.handleRefresh cfg child (depth + 1)).2 = true ↔
    ∃ rank < cfg.ranks, ∃ group < cfg.refreshBankNum,
      cfg.delayedRefreshThreshold ≤ sys.mc.delayedRefreshCounter rank group
  flags : ∀ rank bank, sys.mc.bankNeedRefresh rank bank = true ↔
    cfg.delayedRefreshThreshold ≤ sys.mc.delayedRefreshCounter rank (bank / cfg.banksPerRefresh)

section Runs

variable {cfg : Config} {child : Child χ}

theorem handleRefresh_iff (accepted : 0 < cfg.banksPerRefresh) (divides : cfg.banksPerRefresh ∣ cfg.banks)
    (positive : 1 ≤ cfg.delayedRefreshThreshold) (inv : RefreshInv cfg sys.mc) (depth : Nat) :
    (sys.handleRefresh cfg child (depth + 1)).2 = true ↔ ∃ rank < cfg.ranks, ∃ group < cfg.refreshBankNum,
      cfg.delayedRefreshThreshold ≤ sys.mc.owed rank group := by
  have found : (sys.handleRefresh cfg child (depth + 1)).2 = (sys.mc.refreshTarget cfg).isSome := by
    unfold System.handleRefresh System.handleRefreshWith
    cases sys.mc.refreshTarget cfg with
    | none => rfl
    | some _ => rfl
  rw [found, refreshTarget_isSome_iff cfg sys.mc accepted divides inv.aligned]
  refine and_iff_right_of_imp ?_
  rintro ⟨rank, _, group, _, waits⟩
  -- without refreshes nothing is owed
  by_contra unused
  rw [inv.unused (eq_false_of_ne_true unused)] at waits
  omega

variable {actions : List (Action χ)}

theorem runActions_refreshInv (accepted : 0 < cfg.banksPerRefresh) (positive : 1 ≤ cfg.delayedRefreshThreshold)
    (inv : RefreshInv cfg sys.mc) (run : AllowedRun (System.perform cfg child) (CountedAction cfg) sys actions) :
    RefreshInv cfg (runActions (System.perform cfg child) sys actions).mc :=
  run.invariant (fun sys => RefreshInv cfg sys.mc) (fun _ _ fits inv => inv.perform accepted positive fits) inv

/-- **The account of a group**, over a run. -/
theorem runActions_owed (accepted : 0 < cfg.banksPerRefresh) (positive : 1 ≤ cfg.delayedRefreshThreshold)
    (rank group : Nat) (inv : RefreshInv cfg sys.mc)
    (run : AllowedRun (System.perform cfg child) (CountedAction cfg) sys actions) :
    (runActions (System.perform cfg child) sys actions).mc.owed rank group +
        countRun (System.perform cfg child) (isRefreshFor cfg rank group) sys actions =
      sys.mc.owed rank group + countRun (System.perform cfg child) (isPulseFor cfg rank group) sys actions := by
  induction actions generalizing sys with
  | nil => rfl
  | cons action rest ih =>
    have step := inv.perform_owed child positive run.1 rank group
    have later := ih (inv.perform accepted positive run.1) run.2
    show (runActions (System.perform cfg child) (sys.perform cfg child action) rest).mc.owed rank group +
        ((isRefreshFor cfg rank group sys action).toNat + countRun _ _ (sys.perform cfg child action) rest) =
      sys.mc.owed rank group +
        ((isPulseFor cfg rank group sys action).toNat + countRun _ _ (sys.perform cfg child action) rest)
    omega

/-- **The `REFRESH` commands of a run** are those of the groups that its scans find, each in the queue of its group. -/
theorem sumRun_createdRefreshes (divides : cfg.banksPerRefresh ∣ cfg.banks) (rank group queueId : Nat)
    (placed : RefreshPlaced cfg sys.mc) (run : AllowedRun (System.perform cfg child) RefreshlessAction sys actions) :
    sumRun (System.perform cfg child) (createdRefreshes cfg child rank group queueId) sys actions =
      countRun (System.perform cfg child)
        (fun sys action => decide (queueId = cfg.refreshQueue rank group) && isRefreshFor cfg rank group sys action)
        sys actions :=
  run.sumRun_eq_countRun (fun sys => RefreshPlaced cfg sys.mc)
    (fun sys action fits placed => perform_refreshPlaced (fun _ => divides) sys action fits placed)
    (fun _ _ fits placed => createdRefreshes_eq divides placed fits rank group queueId) placed

/-! ### Runs of calls -/

/-- Any action but a pulse, and no `REFRESH` from outside. -/
def QuietAction (sys : System χ) : Action χ → Prop
  | .pulse _ => False
  | action => RefreshlessAction sys action

theorem quietAction_permits : PermitsQueues (QuietAction (χ := χ)) where
  environment _ _ _ _ _ _ := trivial
  refresh _ := trivial
  issue _ _ := trivial

/-- No group is at the threshold. -/
def BelowThreshold (cfg : Config) (mc : MemoryController) : Prop :=
  ∀ rank < cfg.ranks, ∀ group < cfg.refreshBankNum, mc.owed rank group < cfg.delayedRefreshThreshold

/-- A callback does call `HandleRefresh`. -/
def HandlesRefresh : ControllerCall χ → Prop
  | .refreshCallback depth _ => 0 < depth
  | _ => True

/-- The calls of a run. -/
def RoundCall (cfg : Config) (sys : System χ) (call : ControllerCall χ) : Prop :=
  RefreshCall cfg sys call ∧ HandlesRefresh call

/-- The call is the `RefreshCallback` of a pulse for the group. -/
def isCallbackFor (cfg : Config) (rank group : Nat) (_sys : System χ) : ControllerCall χ → Bool
  | .refreshCallback _ refresh => refresh.address.rank = rank ∧ refresh.address.bank / cfg.banksPerRefresh = group
  | _ => false

/-- Actions that lead from a state to one after calls: they count the pulses of the calls, and leave no group at the
threshold. -/
structure RoundActions (cfg : Config) (child : Child χ) (before after : System χ) (pulses : Nat → Nat → Nat)
    (actions : List (Action χ)) : Prop where
  run : AllowedRun (System.perform cfg child) (CountedAction cfg) before actions
  leads : runActions (System.perform cfg child) before actions = after
  counted : ∀ rank group,
    countRun (System.perform cfg child) (isPulseFor cfg rank group) before actions = pulses rank group
  settled : BelowThreshold cfg after.mc

section Calls

variable {cfg : Config} {child : Child χ} {sys : System χ}

theorem RoundActions.trans {first second third : System χ} {pulses further : Nat → Nat → Nat}
    {actions others : List (Action χ)} (left : RoundActions cfg child first second pulses actions)
    (right : RoundActions cfg child second third further others) :
    RoundActions cfg child first third (fun rank group => pulses rank group + further rank group)
      (actions ++ others) := by
  obtain ⟨run, rfl, counted, -⟩ := left
  refine ⟨AllowedRun.append_iff.mpr ⟨run, right.run⟩, (runActions_append ..).trans right.leads,
    fun rank group => ?_, right.settled⟩
  rw [countRun_append, counted, right.counted]

variable (cfg) in
theorem quiet_counted (quiet : QuietAction sys action) :
    CountedAction cfg sys action ∧ ∀ rank group, isPulseFor cfg rank group sys action = false := by
  cases action with
  | pulse refresh => exact quiet.elim
  | environment _ _ _ _ _ | accept _ | complete _ | schedule _ _ | queue _ | refresh | issue _ | cleanup =>
    exact ⟨quiet, fun _ _ => rfl⟩

variable (child) in
theorem quiet_round (accepted : 0 < cfg.banksPerRefresh) (positive : 1 ≤ cfg.delayedRefreshThreshold)
    {after : System χ} (inv : RefreshInv cfg sys.mc) (settled : BelowThreshold cfg sys.mc)
    (leads : System.Leads cfg child QuietAction sys after) :
    ∃ actions, RoundActions cfg child sys after (fun _ _ => 0) actions := by
  obtain ⟨actions, quiet, rfl⟩ := leads
  have counted : AllowedRun (System.perform cfg child) (CountedAction cfg) sys actions :=
    quiet.mono fun _ _ fits => (quiet_counted cfg fits).1
  have uncounted : ∀ rank group,
      countRun (System.perform cfg child) (isPulseFor cfg rank group) sys actions = 0 := fun rank group =>
    quiet.countRun_eq_zero fun _ _ fits => (quiet_counted cfg fits).2 rank group
  refine ⟨actions, counted, rfl, uncounted, fun rank inRange group inside => ?_⟩
  have account := runActions_owed accepted positive rank group inv counted
  have before := settled rank inRange group inside
  rw [uncounted] at account
  omega

theorem refreshTarget_none (accepted : 0 < cfg.banksPerRefresh) (divides : cfg.banksPerRefresh ∣ cfg.banks)
    (inv : RefreshInv cfg sys.mc) (used : cfg.useRefresh = true) (idle : sys.mc.refreshTarget cfg = none) :
    BelowThreshold cfg sys.mc := by
  intro rank inRange group inside
  by_contra reached
  have found := (refreshTarget_isSome_iff cfg sys.mc accepted divides inv.aligned).mpr
    ⟨used, rank, inRange, group, inside, Nat.le_of_not_lt reached⟩
  rw [idle] at found
  cases found

/-- **A pulse, with the refresh it may start**: it brings one group to the threshold at most, and then the
refresh is for that group. -/
theorem pulse_settled (accepted : 0 < cfg.banksPerRefresh) (divides : cfg.banksPerRefresh ∣ cfg.banks)
    (positive : 1 ≤ cfg.delayedRefreshThreshold) {refresh : NVMainRequest} (inv : RefreshInv cfg sys.mc)
    (settled : BelowThreshold cfg sys.mc) (fits : CountedAction cfg sys (.pulse refresh)) :
    BelowThreshold cfg ((sys.perform cfg child (.pulse refresh)).perform cfg child .refresh).mc := by
  have inv' : RefreshInv cfg (sys.perform cfg child (.pulse refresh)).mc := inv.perform accepted positive fits
  have pulse := inv.perform_owed child positive fits
  generalize sys.perform cfg child (.pulse refresh) = pulsed at inv' pulse
  cases target : pulsed.mc.refreshTarget cfg with
  | none =>
    show BelowThreshold cfg (pulsed.startRefresh cfg).mc
    rw [System.startRefresh, target]
    exact refreshTarget_none accepted divides inv' fits.1.1 target
  | some head =>
    obtain ⟨i, j⟩ := head
    obtain ⟨rank, bank⟩ := refreshTarget_range target
    obtain ⟨-, waits⟩ := refreshTarget_waits cfg pulsed.mc target
    have chosen := settled i rank (j / cfg.banksPerRefresh) (Nat.div_lt_div_of_lt_of_dvd divides bank)
    have reached := pulse i (j / cfg.banksPerRefresh)
    have mine : isPulseFor cfg i (j / cfg.banksPerRefresh) sys (.pulse refresh) = true := by
      by_contra other
      rw [eq_false_of_ne_true other] at reached
      simp only [isRefreshFor, Bool.toNat_false] at reached
      omega
    intro rank' inRange group' inside
    have before := settled rank' inRange group' inside
    have counted := pulse rank' group'
    have taken := inv'.perform_owed child positive (show CountedAction cfg pulsed .refresh from trivial) rank' group'
    have small := Bool.toNat_le (isPulseFor cfg rank' group' sys (.pulse refresh))
    simp only [isRefreshFor, isPulseFor, Bool.toNat_false, target, Option.any_some] at counted taken small mine
    by_cases here : i = rank' ∧ j / cfg.banksPerRefresh = group'
    · simp only [here, and_self, decide_true, Bool.toNat_true] at taken
      omega
    · have other : ¬(refresh.address.rank = rank' ∧ refresh.address.bank / cfg.banksPerRefresh = group') := by
        rintro ⟨rfl, rfl⟩
        simp only [decide_eq_true_eq] at mine
        exact here ⟨mine.1.symm, mine.2.symm⟩
      simp only [here, other, decide_false, Bool.toNat_false] at taken counted
      omega

theorem handleRefresh_continues (depth : Nat) (sys : System χ) :
    System.Leads cfg child QuietAction (sys.perform cfg child .refresh)
      (sys.handleRefresh cfg child (depth + 1)).1 := by
  show System.Leads cfg child QuietAction (sys.startRefresh cfg) _
  unfold System.handleRefresh System.handleRefreshWith
  cases target : sys.mc.refreshTarget cfg with
  | none =>
    rw [System.startRefresh, target]
    exact Reaches.refl sys
  | some _ =>
    exact scheduleCommandWakeWith_reaches (fun sys => handleRefresh_reaches quietAction_permits.upkeep depth sys)
      quietAction_permits.upkeep _

variable (child) in
/-- **Every call is a run of actions** that count its pulse, and no group is left at the threshold. -/
theorem invoke_round (accepted : 0 < cfg.banksPerRefresh) (divides : cfg.banksPerRefresh ∣ cfg.banks)
    (positive : 1 ≤ cfg.delayedRefreshThreshold) (ranged : cfg.delayedRefreshThreshold ≤ maxCycle)
    (inv : RefreshInv cfg sys.mc) (settled : BelowThreshold cfg sys.mc) {call : ControllerCall χ}
    (fits : RoundCall cfg sys call) :
    ∃ actions, RoundActions cfg child sys (sys.invoke cfg child call)
      (fun rank group => (isCallbackFor cfg rank group sys call).toNat) actions := by
  have quiet : System.Leads cfg child QuietAction sys (sys.invoke cfg child call) →
      ∃ actions, RoundActions cfg child sys (sys.invoke cfg child call) (fun _ _ => 0) actions :=
    quiet_round child accepted positive inv settled
  cases call with
  | refreshCallback depth refresh =>
    obtain ⟨pulse, called⟩ := fits
    obtain ⟨depth, rfl⟩ := Nat.exists_eq_succ_of_ne_zero (Nat.ne_of_gt called)
    obtain ⟨rank, bank⟩ := isPulse_range pulse
    obtain ⟨woken, first⟩ := quiet_round child accepted positive inv settled
      (noteWake_reaches quietAction_permits.upkeep sys)
    have inv' : RefreshInv cfg sys.noteWake.mc :=
      first.leads ▸ runActions_refreshInv accepted positive inv first.run
    have room : CountedAction cfg sys.noteWake (.pulse refresh) :=
      ⟨pulse, (first.settled _ rank _ (Nat.div_lt_div_of_lt_of_dvd divides bank)).trans_le ranged⟩
    have second : RoundActions cfg child sys.noteWake
        ((sys.noteWake.perform cfg child (.pulse refresh)).perform cfg child .refresh)
        (fun rank group => (isPulseFor cfg rank group sys.noteWake (.pulse refresh)).toNat)
        [.pulse refresh, .refresh] :=
      ⟨⟨room, trivial, trivial⟩, rfl, fun _ _ => rfl, pulse_settled accepted divides positive inv' first.settled room⟩
    have inv'' : RefreshInv cfg ((sys.noteWake.perform cfg child (.pulse refresh)).perform cfg child .refresh).mc :=
      second.leads ▸ runActions_refreshInv accepted positive inv' second.run
    obtain ⟨rest, third⟩ := quiet_round child accepted positive inv'' second.settled
      ((handleRefresh_continues depth _).trans (cycleChild_reaches quietAction_permits.upkeep _
        (subCycles sys.now sys.mc.lastCommandWake)))
    have whole := (first.trans second).trans third
    exact ⟨_, whole.run, whole.leads, fun rank group => (whole.counted rank group).trans (Nat.zero_add _), whole.settled⟩
  | other action =>
    refine quiet (Reaches.single ?_)
    cases action with
    | pulse refresh => exact fits.1.elim
    | accept request => exact fits.1
    | queue request => exact fits.1.elim
    | environment _ _ _ _ _ | complete _ | schedule _ _ | refresh | issue _ | cleanup => trivial
  | issueMemoryCommands depth finder pred =>
    refine quiet ?_
    rw [System.invoke]
    split
    · rename_i found
      exact issueMemoryCommands_reaches quietAction_permits.upkeep depth trivial found
    · exact Reaches.refl sys
  | handleRefresh depth => exact quiet (handleRefresh_reaches quietAction_permits.upkeep depth sys)
  | cycleCommandQueues => exact quiet (cycleCommandQueues_reaches quietAction_permits sys)
  | cycle depth => exact quiet (cycle_reaches quietAction_permits depth sys fun _ _ => trivial)
  | commandQueueCallback depth => exact quiet (commandQueueCallback_reaches quietAction_permits depth sys)

theorem runCalls_round (accepted : 0 < cfg.banksPerRefresh) (divides : cfg.banksPerRefresh ∣ cfg.banks)
    (positive : 1 ≤ cfg.delayedRefreshThreshold) (ranged : cfg.delayedRefreshThreshold ≤ maxCycle)
    (inv : RefreshInv cfg sys.mc) (settled : BelowThreshold cfg sys.mc) {calls : List (ControllerCall χ)}
    (run : AllowedRun (System.invoke cfg child) (RoundCall cfg) sys calls) :
    ∃ actions, RoundActions cfg child sys (runActions (System.invoke cfg child) sys calls)
      (fun rank group => countRun (System.invoke cfg child) (isCallbackFor cfg rank group) sys calls) actions := by
  induction calls generalizing sys with
  | nil => exact ⟨[], trivial, rfl, fun _ _ => rfl, settled⟩
  | cons call rest ih =>
    obtain ⟨actions, first⟩ := invoke_round child accepted divides positive ranged inv settled run.1
    have inv' : RefreshInv cfg (sys.invoke cfg child call).mc :=
      first.leads ▸ runActions_refreshInv accepted positive inv first.run
    obtain ⟨others, later⟩ := ih inv' first.settled run.2
    exact ⟨_, first.trans later⟩

end Calls

/-- **Refreshes are accounted for.** Where the groups fill the banks and the threshold is positive: in every state of
every run of actions, each counter is the pulses of its group less the `REFRESH` commands that were put in the command
queue of the group for it, and no other queue has got one; `HandleRefresh` finds a group whenever one is at the
threshold, and the flags are those of the groups at the threshold. Every run of calls of the controller is such a run,
with the same pulses. -/
theorem refresh_accounting (cfg : Config) (child : Child χ) (below : χ) (queue : ControllerQueue)
    (accepted : RefreshAccepted cfg) (divides : cfg.banksPerRefresh ∣ cfg.banks)
    (positive : 1 ≤ cfg.delayedRefreshThreshold) (ranged : cfg.delayedRefreshThreshold ≤ maxCycle) :
    (∀ actions, AllowedRun (System.perform cfg child) (CountedAction cfg) (System.setConfig cfg below queue) actions →
      RefreshAccounted cfg child
        (fun rank group => countRun (System.perform cfg child) (isPulseFor cfg rank group)
          (System.setConfig cfg below queue) actions)
        (fun rank group queueId => sumRun (System.perform cfg child)
          (createdRefreshes cfg child rank group queueId) (System.setConfig cfg below queue) actions)
        (runActions (System.perform cfg child) (System.setConfig cfg below queue) actions)) ∧
    ∀ calls, AllowedRun (System.invoke cfg child) (RoundCall cfg) (System.setConfig cfg below queue) calls →
      ∃ actions, RoundActions cfg child (System.setConfig cfg below queue)
        (runActions (System.invoke cfg child) (System.setConfig cfg below queue) calls)
        (fun rank group => countRun (System.invoke cfg child) (isCallbackFor cfg rank group)
          (System.setConfig cfg below queue) calls) actions := by
  have start : RefreshInv cfg (System.setConfig cfg below queue).mc := .create positive
  refine ⟨fun actions run => ?_, fun calls run => ?_⟩
  · have inv := runActions_refreshInv accepted.positive positive start run
    have created := fun rank group queueId => sumRun_createdRefreshes divides rank group queueId
      (RefreshPlaced.create cfg) (run.mono fun _ _ fits => fits.refreshless)
    refine ⟨fun rank group => ?_, fun rank group queueId apart => ?_,
      handleRefresh_iff accepted.positive divides positive inv, inv.flags⟩
    · have account := runActions_owed accepted.positive positive rank group start run
      rw [created, decide_eq_true rfl]
      exact account.trans (Nat.zero_add _)
    · rw [created, decide_eq_false apart]
      exact run.countRun_eq_zero fun _ _ _ => rfl
  · exact runCalls_round accepted.positive divides positive ranged start (fun _ _ _ _ => positive) run

theorem refresh_accounting_refreshCalls :
    ∃ actions, RoundActions (smallConfig .perBank 0) promptChild (System.setConfig (smallConfig .perBank 0) () .create)
      (runActions (System.invoke (smallConfig .perBank 0) promptChild)
        (System.setConfig (smallConfig .perBank 0) () .create) refreshCalls)
      (fun rank group => countRun (System.invoke (smallConfig .perBank 0) promptChild)
        (isCallbackFor (smallConfig .perBank 0) rank group)
        (System.setConfig (smallConfig .perBank 0) () .create) refreshCalls) actions := by
  refine (refresh_accounting (smallConfig .perBank 0) promptChild () .create ⟨by decide, by decide, by decide⟩
    (by decide) (by decide) (by decide)).2 refreshCalls ?_
  exact ⟨⟨trivial, trivial⟩, ⟨⟨rfl, (0, 0), by decide, rfl, rfl⟩, Nat.zero_lt_succ 3⟩, ⟨nofun, trivial⟩,
    ⟨trivial, trivial⟩, ⟨trivial, trivial⟩, ⟨⟨rfl, (0, 1), by decide, rfl, rfl⟩, Nat.zero_lt_succ 3⟩, trivial⟩

end Runs

end Emas.Nvmain

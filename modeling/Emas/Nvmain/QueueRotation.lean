/-
**The turns of the command queues.**

`CycleCommandQueues` starts its scan at queue `curQueue % commandQueueCount`, and `MoveCurrentQueue` moves the cursor on
with each command that is issued. It wraps the cursor only past `commandQueueCount`, so that the cursor has one value
more than there are queues, and queue 0 is the start twice in a lap.

* `getElem_issueStarts`: the starts of the scans that issued the commands of a run of calls.
-/

import Emas.Nvmain.CommandPushes
import Emas.Lib.Ring

namespace Emas.Nvmain

variable {χ : Type}

/-! ### The start of a scan -/

/-- The queue at which `CycleCommandQueues` starts. -/
def MemoryController.startQueue (cfg : Config) (mc : MemoryController) : Nat := mc.curQueue % cfg.commandQueueCount

namespace System

variable (cfg : Config) (child : Child χ)

/-- The starts of the scans in which the calls of a run issued a command. -/
def issueStarts (sys : System χ) : List (ControllerCall χ) → List Nat
  | [] => []
  | call :: rest =>
    let after := sys.invoke cfg child call
    if after.sent.length = sys.sent.length then after.issueStarts rest
    else sys.mc.startQueue cfg :: after.issueStarts rest

theorem issueStarts_cons (sys : System χ) (call : ControllerCall χ) (rest : List (ControllerCall χ)) :
    sys.issueStarts cfg child (call :: rest) =
      if (sys.invoke cfg child call).sent.length = sys.sent.length then
        (sys.invoke cfg child call).issueStarts cfg child rest
      else sys.mc.startQueue cfg :: (sys.invoke cfg child call).issueStarts cfg child rest := rfl

end System

/-- The action issues no command. -/
def UnissuedAction (_sys : System χ) : Action χ → Prop
  | .issue _ => False
  | _ => True

theorem unissuedAction_permits : PermitsUpkeep (UnissuedAction (χ := χ)) where
  environment _ _ _ _ _ _ := trivial
  refresh _ := trivial

/-! ### What a call does to the cursor -/

section Cursor

variable {cfg : Config} {child : Child χ}

/-- The cursor and the commands that were sent are those of `sys`. -/
def System.SameTurn (sys after : System χ) : Prop := after.sent = sys.sent ∧ after.mc.curQueue = sys.mc.curQueue

theorem startCommands_sameTurn (sys : System χ) (request : NVMainRequest) :
    sys.SameTurn (sys.startCommands cfg child request).1 := by
  rw [startCommands_eq]
  obtain ⟨queues, queued, active, rows, muxed, starvation, failed, same⟩ :=
    MemoryController.queueCommands_changes cfg sys.mc request (sys.cachedAnswer child request)
      (sys.writingAnswer child request) sys.now
  exact ⟨rfl, by rw [same]⟩

theorem queueRefresh_curQueue (mc : MemoryController) (i j now : Nat) :
    (mc.queueRefresh cfg i j now).curQueue = mc.curQueue := by
  obtain ⟨queues, queued, active, rows, muxed, same⟩ := MemoryController.prechargeGroup_changes cfg mc i j now
  unfold MemoryController.queueRefresh MemoryController.advanceRefresh
  rw [same]
  dsimp only
  split <;> split <;> rfl

/-- **Only an issue moves the cursor.** -/
theorem perform_sameTurn (sys : System χ) {action : Action χ} (unissued : UnissuedAction sys action) :
    sys.SameTurn (sys.perform cfg child action) := by
  cases action with
  | environment below queue lastCommandWake deadlocked outOfDepth => exact ⟨rfl, rfl⟩
  | accept request =>
    show sys.SameTurn ((sys.issueCommand cfg request).getD sys)
    rcases @issueCommand_eq _ cfg sys request with full | ⟨after, taken, mc, sent, -⟩
    · rw [full]
      exact ⟨rfl, rfl⟩
    · rw [taken]
      exact ⟨sent, show after.mc.curQueue = sys.mc.curQueue by rw [mc]; rfl⟩
  | complete request =>
    show sys.SameTurn (sys.requestComplete request)
    rcases @requestComplete_eq _ sys request with same | same
    · rw [same]
      exact ⟨rfl, rfl⟩
    · rw [same]
      exact ⟨rfl, rfl⟩
  | pulse refresh =>
    refine ⟨rfl, ?_⟩
    show (sys.countRefresh cfg refresh).mc.curQueue = sys.mc.curQueue
    unfold System.countRefresh
    dsimp only
    split <;> rfl
  | schedule finder pred =>
    refine perform_schedule sys.SameTurn ⟨rfl, rfl⟩ fun request mc front original back picked => ?_
    obtain ⟨sent, current⟩ := @startCommands_sameTurn _ cfg child { sys with mc := mc } request
    exact ⟨sent, current.trans (show mc.curQueue = sys.mc.curQueue by rw [picked.rest]; rfl)⟩
  | queue request => exact startCommands_sameTurn sys request
  | refresh =>
    show sys.SameTurn (sys.startRefresh cfg)
    unfold System.startRefresh
    split
    · exact ⟨rfl, rfl⟩
    · exact ⟨rfl, queueRefresh_curQueue sys.mc _ _ _⟩
  | issue queueId => exact unissued.elim
  | cleanup => exact ⟨rfl, rfl⟩

theorem leads_sameTurn {sys after : System χ} (leads : System.Leads cfg child UnissuedAction sys after) :
    sys.SameTurn after :=
  leads.invariant sys.SameTurn (fun state _ unissued ⟨sent, current⟩ =>
    have step := @perform_sameTurn _ cfg child state _ unissued
    ⟨step.1.trans sent, step.2.trans current⟩) ⟨rfl, rfl⟩

/-- The cursor after an issue. -/
def nextCursor (cfg : Config) (cursor : Nat) : Nat := if cursor + 1 > cfg.commandQueueCount then 0 else cursor + 1

/-- A command was issued, and the cursor moved on; or neither. -/
def System.Turns (cfg : Config) (sys after : System χ) : Prop :=
  sys.SameTurn after ∨ after.sent.length = sys.sent.length + 1 ∧ after.mc.curQueue = nextCursor cfg sys.mc.curQueue

theorem System.Turns.of_sameTurn {sys middle after : System χ} (same : sys.SameTurn middle)
    (turns : middle.Turns cfg after) : sys.Turns cfg after := by
  obtain ⟨sent, current⟩ := same
  unfold System.Turns System.SameTurn at turns ⊢
  rwa [sent, current] at turns

theorem System.Turns.and_sameTurn {sys middle after : System χ} (turns : sys.Turns cfg middle)
    (same : middle.SameTurn after) : sys.Turns cfg after := by
  obtain ⟨sent, current⟩ := same
  unfold System.Turns System.SameTurn
  rwa [sent, current]

theorem issueHead_turns (rotates : cfg.scheduleScheme ≠ 0) (sys : System χ) (queueId : Nat) :
    sys.Turns cfg (sys.issueHead cfg child queueId) := by
  cases queue : sys.mc.commandQueues queueId with
  | nil =>
    rw [issueHead_of_empty queue]
    exact Or.inl ⟨rfl, rfl⟩
  | cons queueHead rest =>
    obtain ⟨mc, sent, -⟩ := @issueHead_eq _ cfg child sys _ _ _ queue
    refine Or.inr ⟨by rw [sent, List.length_append]; rfl, ?_⟩
    rw [mc]
    unfold MemoryController.moveCurrentQueue MemoryController.markIssued
    rw [if_pos rotates]
    dsimp only
    split
    · obtain ⟨flags, failed, -, same⟩ := MemoryController.resetRefreshQueued_changes cfg
        (sys.mc.setQueue queueId ({ queueHead with issued := true } :: rest)) queueHead.address.bank
        queueHead.address.rank
      rw [same]
      rfl
    · rfl

theorem cycleCommandQueues_turns (rotates : cfg.scheduleScheme ≠ 0) (sys : System χ) :
    sys.Turns cfg (sys.cycleCommandQueues cfg child) := by
  unfold System.cycleCommandQueues
  split
  · exact Or.inl ⟨rfl, rfl⟩
  · split
    · exact Or.inl ⟨rfl, rfl⟩
    · exact issueHead_turns rotates sys _
    · exact Or.inl ⟨rfl, rfl⟩

/-- **A call issues one command at most**, and moves the cursor on with it. -/
theorem invoke_turns (rotates : cfg.scheduleScheme ≠ 0) (sys : System χ) (call : ControllerCall χ) :
    sys.Turns cfg (sys.invoke cfg child call) := by
  have upkeep := unissuedAction_permits (χ := χ)
  cases call with
  | issueMemoryCommands depth finder pred =>
    rw [System.invoke]
    split
    · rename_i request mc found
      exact Or.inl (leads_sameTurn (issueMemoryCommands_reaches upkeep depth trivial found))
    · exact Or.inl ⟨rfl, rfl⟩
  | handleRefresh depth => exact Or.inl (leads_sameTurn (handleRefresh_reaches upkeep depth sys))
  | cycleCommandQueues => exact cycleCommandQueues_turns rotates sys
  | cycle depth =>
    show sys.Turns cfg (sys.cycle cfg child depth)
    unfold System.cycle
    dsimp only
    have rechecked (state : System χ) : state.SameTurn (state.recheckTransactions cfg) :=
      leads_sameTurn (recheckTransactions_reaches upkeep state : System.Leads cfg child UnissuedAction state _)
    refine System.Turns.of_sameTurn ?_ ((cycleCommandQueues_turns rotates _).and_sameTurn (rechecked _))
    split
    · rename_i request mc found
      obtain ⟨finder, found⟩ := findNextRequest_find found
      exact leads_sameTurn (issueMemoryCommands_reaches upkeep depth trivial found)
    · exact ⟨rfl, rfl⟩
  | commandQueueCallback depth =>
    show sys.Turns cfg (sys.commandQueueCallback cfg child depth)
    unfold System.commandQueueCallback
    dsimp only
    refine System.Turns.of_sameTurn ?_ ((cycleCommandQueues_turns rotates _).and_sameTurn ⟨rfl, rfl⟩)
    have woken : System.Leads cfg child UnissuedAction sys (sys.noteWake.nextIssuable cfg child depth).1 :=
      (noteWake_reaches upkeep sys).trans (nextIssuable_reaches upkeep depth sys.noteWake)
    have woken := leads_sameTurn woken
    split
    · exact woken
    · exact woken
  | refreshCallback depth refresh =>
    have pulsed : UnissuedAction sys.noteWake (.pulse refresh) := trivial
    have counted : System.Leads cfg child UnissuedAction sys.noteWake (sys.noteWake.processRefreshPulse cfg refresh) :=
      Reaches.single pulsed
    exact Or.inl (leads_sameTurn ((noteWake_reaches upkeep sys).trans (counted.trans
      ((handleRefresh_reaches upkeep depth _).trans (cycleChild_reaches upkeep _ _)))))
  | other action =>
    by_cases issues : ∃ queueId, action = .issue queueId
    · obtain ⟨queueId, rfl⟩ := issues
      exact issueHead_turns rotates sys queueId
    · refine Or.inl (perform_sameTurn sys ?_)
      cases action with
      | issue queueId => exact absurd ⟨queueId, rfl⟩ issues
      | _ => trivial

/-! ### Runs -/

theorem nextCursor_eq {cursor : Nat} (inside : cursor ≤ cfg.commandQueueCount) :
    nextCursor cfg cursor = (cursor + 1) % (cfg.commandQueueCount + 1) := by
  unfold nextCursor
  split
  · rw [show cursor + 1 = cfg.commandQueueCount + 1 by omega, Nat.mod_self]
  · rw [Nat.mod_eq_of_lt (by omega)]

theorem length_issueStarts (rotates : cfg.scheduleScheme ≠ 0) (calls : List (ControllerCall χ)) (sys : System χ) :
    (runActions (System.invoke cfg child) sys calls).sent.length =
      sys.sent.length + (sys.issueStarts cfg child calls).length := by
  induction calls generalizing sys with
  | nil => rfl
  | cons call rest ih =>
    show (runActions (System.invoke cfg child) (sys.invoke cfg child call) rest).sent.length = _
    rw [ih, System.issueStarts_cons]
    split
    · rename_i same
      rw [same]
    · rename_i issued
      rcases @invoke_turns _ cfg child rotates sys call with ⟨same, -⟩ | ⟨more, -⟩
      · exact absurd (congrArg List.length same) issued
      · rw [more, List.length_cons]
        omega

/-- **The starts of the scans**, from a cursor on: the cursor goes round `commandQueueCount + 1` values. -/
theorem getElem_issueStarts (rotates : cfg.scheduleScheme ≠ 0) (calls : List (ControllerCall χ)) {sys : System χ}
    (inside : sys.mc.curQueue ≤ cfg.commandQueueCount) (k : Nat)
    (small : k < (sys.issueStarts cfg child calls).length) :
    (sys.issueStarts cfg child calls)[k] =
      (sys.mc.curQueue + k) % (cfg.commandQueueCount + 1) % cfg.commandQueueCount := by
  induction calls generalizing sys k with
  | nil => exact absurd small (Nat.not_lt_zero k)
  | cons call rest ih =>
    simp only [System.issueStarts_cons] at small ⊢
    rcases @invoke_turns _ cfg child rotates sys call with ⟨same, current⟩ | ⟨more, current⟩
    · have unissued := congrArg List.length same
      simp only [if_pos unissued] at small ⊢
      rw [ih (by rwa [current]) k small, current]
    · have issued : ¬(sys.invoke cfg child call).sent.length = sys.sent.length := by omega
      rw [nextCursor_eq inside] at current
      have below : (sys.invoke cfg child call).mc.curQueue ≤ cfg.commandQueueCount := by
        rw [current]
        exact Nat.le_of_lt_succ (Nat.mod_lt _ (Nat.succ_pos _))
      simp only [if_neg issued] at small ⊢
      cases k with
      | zero => exact (congrArg (· % cfg.commandQueueCount) (Nat.mod_eq_of_lt (Nat.lt_succ_of_le inside))).symm
      | succ k =>
        rw [List.getElem_cons_succ, ih below k (Nat.lt_of_succ_lt_succ small), current, Nat.mod_add_mod]
        congr 2
        omega

/-- **The queues take turns** in exactly the runs that end before the cursor wraps, and in all runs if there is one
queue. -/
theorem roundRobin_issueStarts_iff (rotates : cfg.scheduleScheme ≠ 0) (positive : 0 < cfg.commandQueueCount)
    (below : χ) (queue : ControllerQueue) (calls : List (ControllerCall χ)) :
    RoundRobin cfg.commandQueueCount ((System.setConfig cfg below queue).issueStarts cfg child calls) ↔
      cfg.commandQueueCount = 1 ∨
        (runActions (System.invoke cfg child) (System.setConfig cfg below queue) calls).sent.length ≤
          cfg.commandQueueCount + 1 := by
  have length : (runActions (System.invoke cfg child) (System.setConfig cfg below queue) calls).sent.length = _ :=
    (length_issueStarts rotates calls (System.setConfig cfg below queue)).trans (Nat.zero_add _)
  have starts := @getElem_issueStarts _ cfg child rotates calls _
    (show (System.setConfig cfg below queue).mc.curQueue ≤ cfg.commandQueueCount from Nat.zero_le _)
  have start : (System.setConfig cfg below queue).mc.curQueue = 0 := rfl
  rw [start] at starts
  rw [length]
  constructor
  · intro turns
    by_contra neither
    obtain ⟨several, long⟩ := not_or.mp neither
    -- the cursor is back at 0 although queue 0 was the start before
    have lap : cfg.commandQueueCount + 1 < ((System.setConfig cfg below queue).issueStarts cfg child calls).length := by
      omega
    have again := (turns.cyclic _ lap).symm.trans (starts _ lap)
    rw [Nat.zero_add, Nat.mod_self, Nat.zero_mod, Nat.add_mod_left, Nat.mod_eq_of_lt (by omega)] at again
    exact Nat.one_ne_zero again
  · intro fits
    refine RoundRobin.of_cyclic fun k small => ?_
    rw [starts k small, Nat.zero_add]
    rcases fits with one | short
    · rw [one, Nat.mod_one, Nat.mod_one]
    · rw [Nat.mod_eq_of_lt (show k < cfg.commandQueueCount + 1 by omega)]

end Cursor

def controllerCycle (cycle : Nat) : List (ControllerCall Unit) :=
  [.other (Action.wait cycle), .cycle 1, .other .cleanup]

def bankReads (cycles : List Nat) : List (ControllerCall Unit) :=
  [.other (.accept (.incoming 1 .read 0)), .other (.accept (.incoming 2 .read 128))] ++ cycles.flatMap controllerCycle

theorem roundRobin_bankReads : RoundRobin 2 ((System.setConfig (smallConfig .perBank 0) () .create).issueStarts
    (smallConfig .perBank 0) promptChild (bankReads [1, 2, 3])) :=
  (@roundRobin_issueStarts_iff Unit (smallConfig .perBank 0) promptChild (by decide) (by decide) () .create
    (bankReads [1, 2, 3])).mpr (Or.inr (by decide))

/-- With two queues, the fourth command is searched from queue 0 on again. -/
theorem not_roundRobin : ¬∀ (cfg : Config) (child : Child Unit) (queue : ControllerQueue)
    (calls : List (ControllerCall Unit)), cfg.scheduleScheme ≠ 0 → 0 < cfg.commandQueueCount →
    RoundRobin cfg.commandQueueCount ((System.setConfig cfg () queue).issueStarts cfg child calls) := by
  intro rotates
  have starts : (System.setConfig (smallConfig .perBank 0) () .create).issueStarts (smallConfig .perBank 0) promptChild
      (bankReads [1, 2, 3, 4]) = [0, 1, 0, 0] := by decide
  have turns := rotates (smallConfig .perBank 0) promptChild .create (bankReads [1, 2, 3, 4]) (by decide) (by decide)
  rw [starts] at turns
  exact absurd (turns.cyclic 3 (by decide)) (by decide)

end Emas.Nvmain

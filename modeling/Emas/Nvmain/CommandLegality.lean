/-
**The queued commands are legal in every issue order.**

The controller writes its row bookkeeping when it queues commands, long before they are issued, and the
heads of its queues are issued in any order. What ties the two together is, for every subarray, that
the commands still waiting for it lead the device from its open row to the row in the bookkeeping
(`Tracks`). The commands for a subarray wait in its own queue; only a `PRECHARGE_ALL`, which
`HandleRefresh` puts into the queue of subarray 0, may wait elsewhere. With a queue per rank or per bank
these are one queue. With a queue per subarray they are not, and the device sees a race between the
`PRECHARGE_ALL` and the commands of the other subarrays, unless there are none (`NoPrechargeRace`).

* `Tracks.appendOwn`, `Tracks.appendForeign`: what may be pushed.
* `Lawful.queueCommands`, `Lawful.queueRefresh`, `Lawful.issue`: the steps of the controller.
-/

import Emas.Nvmain.RowBookkeeping

namespace Emas.Nvmain

/-! ### The row protocol of a memory device

What the commands of a controller mean to the device, as an abstract open-row state: every subarray
has one open row or none. `stepRow` is the protocol of one subarray: an `ACTIVATE` needs a closed
subarray, a read or write needs its row open. `OpenRows.perform` is the device: a command goes to the
subarray of its address, a `PRECHARGE_ALL` to all subarrays of the bank. `none` is a violation.

* `perform_concerned`, `perform_unconcerned`: the device is the product of its subarrays.
-/

/-! ### One subarray -/

/-- The open row of a subarray after a command, if the command is legal. -/
def stepRow (state : Option Nat) (command : NVMainRequest) : Option (Option Nat) :=
  match command.type with
  | .activate => if state = none then some (some command.address.row) else none
  | .read | .write => if state = some command.address.row then some state else none
  | .readPrecharge | .writePrecharge => if state = some command.address.row then some none else none
  | .precharge | .prechargeAll => some none
  | .refresh | .cachedRead | .cachedWrite => some state

/-- The open row of a subarray after a sequence of commands. -/
def replayRow (state : Option Nat) (commands : List NVMainRequest) : Option (Option Nat) :=
  commands.foldlM stepRow state

theorem replayRow_cons (state : Option Nat) (command : NVMainRequest) (rest : List NVMainRequest) :
    replayRow state (command :: rest) =
      (stepRow state command).bind fun after => replayRow after rest := List.foldlM_cons

theorem replayRow_append (state : Option Nat) (first second : List NVMainRequest) :
    replayRow state (first ++ second) =
      (replayRow state first).bind fun after => replayRow after second := List.foldlM_append

/-! ### The device -/

/-- The open rows of a device, by rank, bank and subarray. -/
abbrev OpenRows := Nat → Nat → Nat → Option Nat

/-- Whether a command acts on the subarray. -/
def concerns (rank bank subarray : Nat) (command : NVMainRequest) : Bool :=
  command.address.rank = rank && command.address.bank = bank &&
    (command.type = .prechargeAll || command.address.subarray = subarray)

variable {rank bank subarray : Nat}

theorem concerns_iff {command : NVMainRequest} :
    concerns rank bank subarray command = true ↔ command.address.rank = rank ∧ command.address.bank = bank ∧
      (command.type = .prechargeAll ∨ command.address.subarray = subarray) := by
  simp [concerns, and_assoc]

variable {state : Option Nat}

namespace OpenRows

def closed : OpenRows := fun _ _ _ => none

/-- What a command does to the rows, unless it violates the protocol. -/
def perform (rows : OpenRows) (command : NVMainRequest) : Option OpenRows :=
  (stepRow (rows command.address.rank command.address.bank command.address.subarray) command).map
    fun state rank bank subarray =>
      if concerns rank bank subarray command then state else rows rank bank subarray

/-- The rows after the commands. -/
def replay (rows : OpenRows) (commands : List NVMainRequest) : Option OpenRows :=
  commands.foldlM perform rows

theorem replay_snoc (rows : OpenRows) (commands : List NVMainRequest) (command : NVMainRequest) :
    rows.replay (commands ++ [command]) = (rows.replay commands).bind (perform · command) := by
  unfold replay
  rw [List.foldlM_append]
  simp

variable {rows after : OpenRows} {command : NVMainRequest}

theorem perform_of_stepRow
    (legal : stepRow (rows command.address.rank command.address.bank command.address.subarray) command =
      some state) : ∃ after, rows.perform command = some after := by
  unfold perform
  rw [legal]
  exact ⟨_, rfl⟩

theorem perform_concerned (performed : rows.perform command = some after)
    (concerned : concerns rank bank subarray command = true) :
    stepRow (rows rank bank subarray) command = some (after rank bank subarray) := by
  obtain ⟨state, legal, rfl⟩ := Option.map_eq_some_iff.mp performed
  dsimp only
  rw [if_pos concerned]
  obtain ⟨rfl, rfl, all | rfl⟩ := concerns_iff.mp concerned
  · unfold stepRow at legal ⊢
    rw [all] at legal ⊢
    exact legal
  · exact legal

theorem perform_unconcerned (performed : rows.perform command = some after)
    (other : concerns rank bank subarray command = false) : after rank bank subarray = rows rank bank subarray := by
  obtain ⟨state, legal, rfl⟩ := Option.map_eq_some_iff.mp performed
  exact if_neg (by simp [other])

end OpenRows

open Table MemoryController

variable {χ : Type}

/-! ### The booked rows -/

namespace Rows

/-- The row that the bookkeeping has for a subarray. -/
def booked (rows : Rows) (rank bank subarray : Nat) : Option Nat :=
  if rows.active rank bank subarray then some (rows.row rank bank subarray) else none

variable (rows : Rows) (cfg : Config) (rank bank subarray : Nat)

theorem booked_openRow (address : NVMAddress) :
    (rows.openRow cfg address).booked rank bank subarray =
      if rank = address.rank ∧ bank = address.bank ∧ subarray = address.subarray then some address.row
      else rows.booked rank bank subarray := by
  simp only [booked, openRow, set3_apply]
  split <;> rfl

theorem booked_closeRow (rank' bank' subarray' : Nat) :
    (rows.closeRow cfg rank' bank' subarray').booked rank bank subarray =
      if rank = rank' ∧ bank = bank' ∧ subarray = subarray' then none
      else rows.booked rank bank subarray := by
  simp only [booked, closeRow, set3_apply]
  split <;> rfl

theorem booked_clearBank (rank' bank' : Nat) :
    (rows.clearBank rank' bank').booked rank bank subarray = rows.booked rank bank subarray := rfl

theorem booked_releaseRow (rank' bank' subarray' : Nat) :
    (rows.releaseRow cfg rank' bank' subarray').booked rank bank subarray =
      if rank = rank' ∧ bank = bank' ∧ subarray = subarray' then none
      else rows.booked rank bank subarray := by
  rw [← booked_closeRow]
  unfold releaseRow
  dsimp only
  split <;> rfl

theorem booked_closeBank (rank' bank' : Nat) :
    (rows.closeBank cfg rank' bank').booked rank bank subarray =
      if rank = rank' ∧ bank = bank' ∧ subarray < cfg.subArrayNum then none
      else rows.booked rank bank subarray := by
  rw [closeBank_eq]
  simp only [booked]
  split <;> rfl

end Rows

/-! ### Waiting commands -/

namespace MemoryController

/-- The commands of a queue for a subarray that were not issued yet. -/
def waitingFor (mc : MemoryController) (queueId rank bank subarray : Nat) : List NVMainRequest :=
  (mc.commandQueues queueId).filter fun command => !command.issued && concerns rank bank subarray command

variable (cfg : Config) (mc : MemoryController)

/-- The commands for a subarray in its own queue. -/
def ownCommands (rank bank subarray : Nat) : List NVMainRequest :=
  mc.waitingFor (cfg.queueOf rank bank subarray) rank bank subarray

/-- The precharges of the bank that wait for the subarray in the queue of subarray 0, if that is
another one. -/
def foreignCommands (rank bank subarray : Nat) : List NVMainRequest :=
  if cfg.queueOf rank bank subarray = cfg.queueOf rank bank 0 then []
  else mc.waitingFor (cfg.queueOf rank bank 0) rank bank subarray

/-- The open row of the subarray in the bookkeeping. -/
def bookedRow (rank bank subarray : Nat) : Option Nat := mc.rows.booked rank bank subarray

variable {cfg mc} {after : MemoryController}

theorem waitingFor_pushes {pushed : List (Nat × NVMainRequest)} (pushes : Pushes mc after pushed)
    (queueId rank bank subarray : Nat) : after.waitingFor queueId rank bank subarray =
      mc.waitingFor queueId rank bank subarray ++ (pushedTo queueId pushed).filter
        fun command => !command.issued && concerns rank bank subarray command := by
  unfold waitingFor
  rw [pushes queueId, List.filter_append]

theorem waitingFor_unconcerned {pushed : List (Nat × NVMainRequest)} (pushes : Pushes mc after pushed)
    (others : ∀ item ∈ pushed, concerns rank bank subarray item.2 = false) (queueId : Nat) :
    after.waitingFor queueId rank bank subarray = mc.waitingFor queueId rank bank subarray := by
  rw [waitingFor_pushes pushes]
  have none : (pushedTo queueId pushed).filter
      (fun command => !command.issued && concerns rank bank subarray command) = [] := by
    refine List.filter_eq_nil_iff.mpr fun command member => ?_
    simp [others (queueId, command) (mem_pushedTo.mp member)]
  rw [none, List.append_nil]

theorem waitingFor_concerned (commands : List NVMainRequest) {target : Nat}
    (pushes : Pushes mc after (commands.map (target, ·))) (concerned : ∀ command ∈ commands, command.issued = false ∧
      concerns rank bank subarray command = true) (queueId : Nat) :
    after.waitingFor queueId rank bank subarray = mc.waitingFor queueId rank bank subarray ++
      if queueId = target then commands else [] := by
  rw [waitingFor_pushes pushes, pushedTo_map]
  congr 1
  split
  · refine List.filter_eq_self.mpr fun command member => ?_
    simp [concerned command member]
  · rfl

end MemoryController

/-! ### One subarray -/

/-- **The waiting commands of a subarray track the bookkeeping.** From the open row of the device, they
lead to the row in the bookkeeping; and they wait in one queue only. -/
structure Tracks (cfg : Config) (mc : MemoryController) (state : Option Nat) (rank bank subarray : Nat) :
    Prop where
  one : mc.foreignCommands cfg rank bank subarray = [] ∨ mc.ownCommands cfg rank bank subarray = []
  leads : replayRow state (mc.ownCommands cfg rank bank subarray ++
    mc.foreignCommands cfg rank bank subarray) = some (mc.bookedRow rank bank subarray)

namespace Tracks

variable {cfg : Config} {mc after : MemoryController} {state : Option Nat} {rank bank subarray : Nat}

theorem frame (tracks : Tracks cfg mc state rank bank subarray)
    (waiting : ∀ queueId, after.waitingFor queueId rank bank subarray = mc.waitingFor queueId rank bank subarray)
    (booked : after.bookedRow rank bank subarray = mc.bookedRow rank bank subarray) :
    Tracks cfg after state rank bank subarray := by
  have own : after.ownCommands cfg rank bank subarray = mc.ownCommands cfg rank bank subarray :=
    waiting _
  have foreign : after.foreignCommands cfg rank bank subarray = mc.foreignCommands cfg rank bank subarray := by
    unfold foreignCommands
    rw [waiting]
  exact ⟨by rw [own, foreign]; exact tracks.one, by rw [own, foreign, booked]; exact tracks.leads⟩

theorem appendOwn (tracks : Tracks cfg mc state rank bank subarray)
    (clear : mc.foreignCommands cfg rank bank subarray = []) (commands : List NVMainRequest)
    (pushes : Pushes mc after (commands.map (cfg.queueOf rank bank subarray, ·)))
    (concerned : ∀ command ∈ commands, command.issued = false ∧ concerns rank bank subarray command = true)
    (legal : replayRow (mc.bookedRow rank bank subarray) commands =
      some (after.bookedRow rank bank subarray)) : Tracks cfg after state rank bank subarray := by
  have own : after.ownCommands cfg rank bank subarray = mc.ownCommands cfg rank bank subarray ++ commands := by
    unfold ownCommands
    rw [waitingFor_concerned commands pushes concerned, if_pos rfl]
  have foreign : after.foreignCommands cfg rank bank subarray = [] := by
    unfold foreignCommands at clear ⊢
    split
    · rfl
    · rename_i different
      rw [if_neg different] at clear
      rw [waitingFor_concerned commands pushes concerned, clear, if_neg (Ne.symm different)]
      rfl
  have leads := tracks.leads
  rw [clear, List.append_nil] at leads
  refine ⟨Or.inl foreign, ?_⟩
  rw [own, foreign, List.append_nil, replayRow_append, leads]
  exact legal

/-- A precharge of the bank goes to the queue of subarray 0, while nothing waits in the own queue of
another subarray. -/
theorem appendForeign (tracks : Tracks cfg mc state rank bank subarray)
    (clear : cfg.queueOf rank bank subarray ≠ cfg.queueOf rank bank 0 → mc.ownCommands cfg rank bank subarray = [])
    {command : NVMainRequest} (pushes : Pushes mc after [(cfg.queueOf rank bank 0, command)])
    (fresh : command.issued = false) (all : command.type = .prechargeAll)
    (concerned : concerns rank bank subarray command = true)
    (closed : after.bookedRow rank bank subarray = none) : Tracks cfg after state rank bank subarray := by
  have precharged : ∀ before : Option Nat, replayRow before [command] = some none := by
    intro before
    rw [replayRow_cons, stepRow, all]
    rfl
  have concerned : ∀ other ∈ [command], other.issued = false ∧ concerns rank bank subarray other = true := by
    intro other member
    rw [List.mem_singleton.mp member]
    exact ⟨fresh, concerned⟩
  by_cases same : cfg.queueOf rank bank subarray = cfg.queueOf rank bank 0
  · have foreign : mc.foreignCommands cfg rank bank subarray = [] := if_pos same
    refine tracks.appendOwn foreign [command] ?_ concerned ?_
    · rw [same]
      exact pushes
    · rw [closed]
      exact precharged _
  · have own : after.ownCommands cfg rank bank subarray = [] := by
      unfold ownCommands
      rw [waitingFor_concerned [command] pushes concerned, if_neg same, List.append_nil]
      exact clear same
    have foreign : after.foreignCommands cfg rank bank subarray =
        mc.foreignCommands cfg rank bank subarray ++ [command] := by
      unfold foreignCommands
      rw [if_neg same, if_neg same, waitingFor_concerned [command] pushes concerned, if_pos rfl]
    have leads := tracks.leads
    rw [clear same, List.nil_append] at leads
    refine ⟨Or.inr own, ?_⟩
    rw [own, foreign, List.nil_append, replayRow_append, leads, closed]
    exact precharged _

end Tracks

/-! ### The invariant -/

/-- A request the controller may queue commands for: a read or write of one of its addresses that has
not been issued. -/
structure Schedulable (cfg : Config) (request : NVMainRequest) : Prop where
  range : cfg.InRange request.address
  type : request.type = .read ∨ request.type = .write
  fresh : request.issued = false

/-- The command is in the queue of its subarray, or of subarray 0 if it is for all. -/
structure Placed (cfg : Config) (queueId : Nat) (command : NVMainRequest) : Prop where
  queue : queueId = cfg.queueOf command.address.rank command.address.bank command.address.subarray
  range : command.type = .refresh ∨ command.address.subarray < cfg.subArrayNum
  all : command.type = .prechargeAll → command.address.subarray = 0

/-- **The controller is lawful** for a device with these open rows. -/
structure Lawful (cfg : Config) (rows : OpenRows) (mc : MemoryController) : Prop where
  consistent : Rows.Consistent cfg mc.rows
  requests : ∀ request ∈ mc.transactionQueue, Schedulable cfg request
  placed : ∀ queueId, ∀ command ∈ mc.commandQueues queueId, command.issued = false → Placed cfg queueId command
  tracks : ∀ rank bank subarray, subarray < cfg.subArrayNum → Tracks cfg mc (rows rank bank subarray) rank bank subarray

namespace Lawful

variable {cfg : Config} {rows : OpenRows} {mc after : MemoryController}

theorem create (cfg : Config) : Lawful cfg .closed (.create cfg) where
  consistent := (Bookkept.create cfg).consistent
  requests _ member := absurd member List.not_mem_nil
  placed _ _ member := absurd member List.not_mem_nil
  tracks rank bank subarray _ :=
    { one := Or.inr rfl
      leads := by
        have foreign : (MemoryController.create cfg).foreignCommands cfg rank bank subarray = [] := by
          unfold foreignCommands
          split <;> rfl
        rw [foreign]
        rfl }

theorem frame (lawful : Lawful cfg rows mc) (same : after.commandQueues = mc.commandQueues)
    (booked : after.rows = mc.rows) (requests : ∀ request ∈ after.transactionQueue, Schedulable cfg request) :
    Lawful cfg rows after where
  consistent := by rw [booked]; exact lawful.consistent
  requests := requests
  placed queueId := by rw [same]; exact lawful.placed queueId
  tracks rank bank subarray inside := by
    refine (lawful.tracks rank bank subarray inside).frame (fun queueId => ?_) ?_
    · unfold waitingFor
      rw [same]
    · unfold bookedRow
      rw [booked]

/-! ### IssueMemoryCommands -/

theorem push (lawful : Lawful cfg rows mc) (inside : subarray < cfg.subArrayNum) (commands : List NVMainRequest)
    (pushes : Pushes mc after (commands.map (cfg.queueOf rank bank subarray, ·)))
    (addressed : ∀ command ∈ commands, command.issued = false ∧ command.type ≠ .prechargeAll ∧
      command.address.rank = rank ∧ command.address.bank = bank ∧ command.address.subarray = subarray)
    (consistent : Rows.Consistent cfg after.rows) (requests : after.transactionQueue = mc.transactionQueue)
    (clear : mc.foreignCommands cfg rank bank subarray = [])
    (others : ∀ rank' bank' subarray', ¬(rank' = rank ∧ bank' = bank ∧ subarray' = subarray) →
      after.bookedRow rank' bank' subarray' = mc.bookedRow rank' bank' subarray')
    (legal : replayRow (mc.bookedRow rank bank subarray) commands =
      some (after.bookedRow rank bank subarray)) : Lawful cfg rows after where
  consistent := consistent
  requests := requests ▸ lawful.requests
  placed queueId command member fresh := by
    rw [pushes queueId, List.mem_append] at member
    rcases member with old | new
    · exact lawful.placed queueId command old fresh
    · obtain ⟨other, present, same⟩ := List.mem_map.mp (mem_pushedTo.mp new)
      obtain ⟨rfl, rfl⟩ := Prod.mk.injEq .. ▸ same
      obtain ⟨-, notAll, rfl, rfl, rfl⟩ := addressed other present
      exact ⟨rfl, Or.inr inside, fun all => absurd all notAll⟩
  tracks rank' bank' subarray' inside' := by
    by_cases here : rank' = rank ∧ bank' = bank ∧ subarray' = subarray
    · obtain ⟨rfl, rfl, rfl⟩ := here
      refine (lawful.tracks rank' bank' subarray' inside').appendOwn clear commands pushes
        (fun command member => ?_) legal
      obtain ⟨fresh, -, rank, bank, subarray⟩ := addressed command member
      exact ⟨fresh, concerns_iff.mpr ⟨rank, bank, Or.inr subarray⟩⟩
    · refine (lawful.tracks rank' bank' subarray' inside').frame (waitingFor_unconcerned pushes ?_)
        (others rank' bank' subarray' here)
      intro item member
      obtain ⟨command, present, rfl⟩ := List.mem_map.mp member
      obtain ⟨-, notAll, rfl, rfl, rfl⟩ := addressed command present
      rw [Bool.eq_false_iff]
      intro concerned
      obtain ⟨rank, bank, kind⟩ := concerns_iff.mp concerned
      exact here ⟨rank.symm, bank.symm, (kind.resolve_left notAll).symm⟩

section Commands

variable {request : NVMainRequest} {writing : Bool} {now : Nat}

theorem queuedRequest_addressed (schedulable : Schedulable cfg request) (now : Nat) :
    (queuedRequest cfg request now).issued = false ∧ (queuedRequest cfg request now).type ≠ .prechargeAll ∧
      (queuedRequest cfg request now).address = request.address := by
  have queued := queuedRequest_commandsFor cfg request now
  refine ⟨queued.issued.trans schedulable.fresh, ?_, queued.address⟩
  rcases queued.type with same | same | same
  · rcases schedulable.type with type | type <;> simp [same, type]
  · simp [same]
  · simp [same]

theorem stepRow_queuedRequest (schedulable : Schedulable cfg request) :
    stepRow (some request.address.row) (queuedRequest cfg request now) =
      some (if request.lastRequest && cfg.usePrecharge then none else some request.address.row) := by
  unfold queuedRequest
  split
  · rcases schedulable.type with type | type <;> simp [stepRow, makeImplicitPrechargeRequest, type]
  · rcases schedulable.type with type | type <;> simp [stepRow, type]

theorem booked_elsewhere {address : NVMAddress}
    (elsewhere : ¬(rank = address.rank ∧ bank = address.bank ∧ subarray = address.subarray)) :
    (mc.rows.openRow cfg address).booked rank bank subarray = mc.bookedRow rank bank subarray := by
  rw [Rows.booked_openRow, if_neg elsewhere]
  rfl

theorem queueClosedBank (lawful : Lawful cfg rows mc) (schedulable : Schedulable cfg request)
    (clear : mc.foreignCommands cfg request.address.rank request.address.bank request.address.subarray = [])
    (closed : mc.activateQueued request.address.rank request.address.bank = false) :
    Lawful cfg rows (mc.queueClosedBank cfg request writing now) := by
  have inactive := lawful.consistent.inactive closed request.address.subarray
  have before : mc.bookedRow request.address.rank request.address.bank request.address.subarray =
      none := by
    unfold bookedRow Rows.booked
    rw [inactive]
    rfl
  refine lawful.push schedulable.range.subarray
    [makeActivateRequest request writing now, queuedRequest cfg request now]
    (queueClosedBank_pushes cfg mc request writing now) ?_
    (lawful.consistent.queueClosedBank schedulable.range closed writing now)
    (queueClosedBank_frame cfg mc request writing now).1 clear ?_ ?_
  · intro command member
    rcases List.mem_pair.mp member with rfl | rfl
    · exact ⟨rfl, nofun, rfl, rfl, rfl⟩
    · obtain ⟨fresh, type, address⟩ := queuedRequest_addressed schedulable now
      rw [address]
      exact ⟨fresh, type, rfl, rfl, rfl⟩
  · intro rank bank subarray elsewhere
    unfold bookedRow
    rw [rows_queueClosedBank]
    split
    · rw [Rows.booked_clearBank, Rows.booked_closeRow, if_neg elsewhere]
      exact booked_elsewhere elsewhere
    · exact booked_elsewhere elsewhere
  · rw [before, replayRow_cons]
    show replayRow (some request.address.row) [queuedRequest cfg request now] = _
    rw [replayRow_cons, stepRow_queuedRequest schedulable]
    unfold bookedRow
    rw [rows_queueClosedBank]
    split
    · rw [Rows.booked_clearBank, Rows.booked_closeRow, if_pos ⟨rfl, rfl, rfl⟩]
      rfl
    · rw [Rows.booked_openRow, if_pos ⟨rfl, rfl, rfl⟩]
      rfl

theorem queueRowMiss (lawful : Lawful cfg rows mc) (schedulable : Schedulable cfg request)
    (precharge : cfg.usePrecharge = true) (clear : mc.foreignCommands cfg request.address.rank request.address.bank
      request.address.subarray = []) : Lawful cfg rows (mc.queueRowMiss cfg request writing now) := by
  refine lawful.push schedulable.range.subarray
    (rowPrecharge cfg mc request now ++ [makeActivateRequest request writing now, { request with issueCycle := now }])
    (queueRowMiss_pushes cfg mc request writing now) ?_
    (lawful.consistent.queueRowMiss schedulable.range writing now)
    (queueRowMiss_frame cfg mc request writing now).1 clear ?_ ?_
  · intro command member
    rcases List.mem_append.mp member with pre | pair
    · unfold rowPrecharge at pre
      split at pre
      · rw [List.mem_singleton.mp pre]
        exact ⟨rfl, nofun, rfl, rfl, rfl⟩
      · cases pre
    · rcases List.mem_pair.mp pair with rfl | rfl
      · exact ⟨rfl, nofun, rfl, rfl, rfl⟩
      · refine ⟨schedulable.fresh, ?_, rfl, rfl, rfl⟩
        rcases schedulable.type with type | type <;> simp [type]
  · intro rank bank subarray elsewhere
    unfold bookedRow
    rw [rows_queueRowMiss]
    exact booked_elsewhere elsewhere
  · -- the precharge, if there is one, closes the row that is booked
    have closes : replayRow (mc.bookedRow request.address.rank request.address.bank
        request.address.subarray) (rowPrecharge cfg mc request now) = some none := by
      unfold rowPrecharge bookedRow Rows.booked
      cases active : mc.activeSubArray request.address.rank request.address.bank
          request.address.subarray with
      | true =>
        rw [precharge]
        rfl
      | false =>
        have inactive : mc.rows.active request.address.rank request.address.bank
          request.address.subarray = false := active
        rw [Bool.false_and, inactive]
        rfl
    rw [replayRow_append, closes]
    show replayRow (some request.address.row) [{ request with issueCycle := now }] = _
    unfold bookedRow
    rw [rows_queueRowMiss, Rows.booked_openRow, if_pos ⟨rfl, rfl, rfl⟩, replayRow_cons]
    rcases schedulable.type with type | type <;> simp [stepRow, type, replayRow]

theorem queueRowHit (lawful : Lawful cfg rows mc) (schedulable : Schedulable cfg request)
    (clear : mc.foreignCommands cfg request.address.rank request.address.bank request.address.subarray = [])
    (hit : mc.rowHit cfg request.address = true) : Lawful cfg rows (mc.queueRowHit cfg request now) := by
  have before : mc.bookedRow request.address.rank request.address.bank request.address.subarray =
      some request.address.row := by
    simp only [rowHit, Bool.and_eq_true, decide_eq_true_eq] at hit
    show (if mc.activeSubArray _ _ _ = true then some (mc.effectiveRow _ _ _) else none) = _
    rw [if_pos hit.1.1.2, hit.1.2]
  refine lawful.push schedulable.range.subarray [queuedRequest cfg request now]
    (queueRowHit_pushes cfg mc request now) ?_ (lawful.consistent.queueRowHit now)
    (queueRowHit_frame cfg mc request now).1 clear ?_ ?_
  · intro command member
    rw [List.mem_singleton.mp member]
    obtain ⟨fresh, type, address⟩ := queuedRequest_addressed schedulable now
    rw [address]
    exact ⟨fresh, type, rfl, rfl, rfl⟩
  · intro rank bank subarray elsewhere
    unfold bookedRow
    rw [rows_queueRowHit]
    split
    · rw [Rows.booked_releaseRow, if_neg elsewhere]
    · rfl
  · rw [before, replayRow_cons, stepRow_queuedRequest schedulable]
    unfold bookedRow
    rw [rows_queueRowHit]
    split
    · rw [Rows.booked_releaseRow, if_pos ⟨rfl, rfl, rfl⟩]
      rfl
    · exact congrArg some before.symm

theorem queueCommands (lawful : Lawful cfg rows mc) (schedulable : Schedulable cfg request)
    (precharge : cfg.usePrecharge = true) (clear : mc.foreignCommands cfg request.address.rank request.address.bank
      request.address.subarray = []) {cached : Bool}
    (uncached : (mc.queueCommands cfg request cached writing now).2 ≠ .cached) :
    Lawful cfg rows (mc.queueCommands cfg request cached writing now).1 := by
  rcases queueCommands_cases cfg mc request cached writing now with
    ⟨-, -, same⟩ | ⟨closed, -, -, same⟩ | ⟨-, -, -, same⟩ | ⟨hit, same⟩ | ⟨-, same⟩
  · rw [same] at uncached
    exact absurd rfl uncached
  · rw [same]
    exact lawful.queueClosedBank schedulable clear closed
  · rw [same]
    exact lawful.queueRowMiss schedulable precharge clear
  · rw [same]
    exact lawful.queueRowHit schedulable clear hit
  · rw [same]
    exact lawful

end Commands

/-! ### HandleRefresh -/

/-- A bank that is about to be precharged has nothing waiting outside of the queue of subarray 0. -/
def Unobstructed (cfg : Config) (mc : MemoryController) (rank bank : Nat) : Prop :=
  mc.activateQueued rank bank = true → ∀ subarray < cfg.subArrayNum,
    cfg.queueOf rank bank subarray ≠ cfg.queueOf rank bank 0 → mc.ownCommands cfg rank bank subarray = []

theorem prechargeBank (lawful : Lawful cfg rows mc) {rank bank : Nat}
    (clear : Unobstructed cfg mc rank bank) (now : Nat) : Lawful cfg rows (mc.prechargeBank cfg rank bank now) := by
  cases active : mc.activateQueued rank bank with
  | false =>
    have same : mc.prechargeBank cfg rank bank now = mc := by
      unfold MemoryController.prechargeBank
      rw [active]
      rfl
    rw [same]
    exact lawful
  | true =>
    have pushes := prechargeBank_pushes cfg mc rank bank now
    rw [if_pos active] at pushes
    have booked := rows_prechargeBank cfg mc rank bank now
    rw [if_pos active] at booked
    obtain ⟨some, present⟩ := (lawful.consistent.flagged rank bank).mp active
    have positive : 0 < cfg.subArrayNum := Nat.lt_of_le_of_lt (Nat.zero_le _) (lawful.consistent.bounded present)
    refine ⟨lawful.consistent.prechargeBank rank bank now,
      (prechargeBank_frame cfg mc rank bank now).1 ▸ lawful.requests, ?_, ?_⟩
    · intro queueId command member fresh
      rw [pushes queueId, List.mem_append] at member
      rcases member with old | new
      · exact lawful.placed queueId command old fresh
      · have same := List.mem_singleton.mp (mem_pushedTo.mp new)
        obtain ⟨rfl, rfl⟩ := Prod.mk.injEq .. ▸ same
        exact ⟨rfl, Or.inr positive, fun _ => rfl⟩
    · intro rank' bank' subarray inside
      by_cases here : rank' = rank ∧ bank' = bank
      · obtain ⟨rfl, rfl⟩ := here
        refine (lawful.tracks rank' bank' subarray inside).appendForeign (clear active subarray inside)
          pushes rfl rfl (concerns_iff.mpr ⟨rfl, rfl, Or.inl rfl⟩) ?_
        unfold bookedRow
        rw [booked, Rows.booked_closeBank, if_pos ⟨rfl, rfl, inside⟩]
      · refine (lawful.tracks rank' bank' subarray inside).frame (waitingFor_unconcerned pushes ?_) ?_
        · intro item member
          rw [List.mem_singleton.mp member, Bool.eq_false_iff]
          intro concerned
          obtain ⟨rank, bank, -⟩ := concerns_iff.mp concerned
          exact here ⟨rank.symm, bank.symm⟩
        · unfold bookedRow
          rw [booked, Rows.booked_closeBank, if_neg fun there => here ⟨there.1, there.2.1⟩]

theorem unobstructed_prechargeBank {rank bank bank' : Nat} (clear : Unobstructed cfg mc rank bank')
    (now : Nat) : Unobstructed cfg (mc.prechargeBank cfg rank bank now) rank bank' := by
  cases active : mc.activateQueued rank bank with
  | false =>
    have same : mc.prechargeBank cfg rank bank now = mc := by
      unfold MemoryController.prechargeBank
      rw [active]
      rfl
    rw [same]
    exact clear
  | true =>
    have pushes := prechargeBank_pushes cfg mc rank bank now
    rw [if_pos active] at pushes
    intro still subarray inside different
    have flags : (mc.prechargeBank cfg rank bank now).activateQueued = set2 mc.activateQueued rank bank false := by
      have booked := rows_prechargeBank cfg mc rank bank now
      rw [if_pos active, Rows.closeBank_eq] at booked
      exact congrArg Rows.activateQueued booked
    rw [flags, set2_apply] at still
    split at still
    · cases still
    · rename_i other
      refine (waitingFor_unconcerned pushes (fun item member => ?_) _).trans (clear still subarray inside different)
      rw [List.mem_singleton.mp member, Bool.eq_false_iff]
      intro concerned
      exact other ⟨rfl, (concerns_iff.mp concerned).2.1.symm⟩

theorem queueRefresh (lawful : Lawful cfg rows mc) {i j : Nat}
    (clear : ∀ tmpBank < cfg.banksPerRefresh, Unobstructed cfg mc i (refBank cfg j tmpBank)) (now : Nat) :
    Lawful cfg rows (mc.queueRefresh cfg i j now) := by
  have precharged := prechargeGroup_keeps cfg mc (fun after => Lawful cfg rows after ∧
      ∀ tmpBank < cfg.banksPerRefresh, Unobstructed cfg after i (refBank cfg j tmpBank)) i j now
    (fun after tmpBank small kept => ⟨kept.1.prechargeBank (kept.2 tmpBank small) now,
      fun other bound => unobstructed_prechargeBank (kept.2 other bound) now⟩) ⟨lawful, clear⟩
  have pushes := queueRefresh_pushes cfg mc i j now
  have booked := rows_queueRefresh cfg mc i j now
  have queue := (queueRefresh_frame cfg mc i j now).1
  refine ⟨booked ▸ precharged.1.consistent, queue ▸ lawful.requests, ?_, ?_⟩
  · intro queueId command member fresh
    rw [pushes queueId, List.mem_append] at member
    rcases member with old | new
    · exact precharged.1.placed queueId command old fresh
    · have same := List.mem_singleton.mp (mem_pushedTo.mp new)
      obtain ⟨rfl, rfl⟩ := Prod.mk.injEq .. ▸ same
      exact ⟨rfl, Or.inl rfl, nofun⟩
  · intro rank bank subarray inside
    have tracks := precharged.1.tracks rank bank subarray inside
    have same : (mc.queueRefresh cfg i j now).bookedRow rank bank subarray =
        (mc.prechargeGroup cfg i j now).bookedRow rank bank subarray :=
      congrArg (Rows.booked · rank bank subarray) booked
    by_cases here : rank = i ∧ bank = j ∧ subarray = 0
    · obtain ⟨rfl, rfl, rfl⟩ := here
      refine tracks.appendOwn (if_pos rfl) [makeRefreshRequest cfg 0 0 bank rank 0 now] pushes
        (fun command member => ?_) ?_
      · rw [List.mem_singleton.mp member]
        exact ⟨rfl, concerns_iff.mpr ⟨rfl, rfl, Or.inr rfl⟩⟩
      · rw [same]
        rfl
    · refine tracks.frame (waitingFor_unconcerned pushes ?_) same
      intro item member
      rw [List.mem_singleton.mp member, Bool.eq_false_iff]
      intro concerned
      obtain ⟨rank, bank, kind⟩ := concerns_iff.mp concerned
      exact here ⟨rank.symm, bank.symm, (kind.resolve_left nofun).symm⟩

/-! ### The issue of a command -/

section Issue

variable {queueId : Nat} {queueHead : NVMainRequest} {rest : List NVMainRequest}
  {rank bank subarray : Nat}

theorem waitingFor_head (queue : mc.commandQueues queueId = queueHead :: rest)
    (fresh : queueHead.issued = false) (rank bank subarray : Nat) :
    mc.waitingFor queueId rank bank subarray =
      if concerns rank bank subarray queueHead then
        queueHead :: rest.filter fun command => !command.issued && concerns rank bank subarray command
      else rest.filter fun command => !command.issued && concerns rank bank subarray command := by
  unfold waitingFor
  rw [queue, List.filter_cons]
  simp [fresh]

theorem waitingFor_issued (issued : after.commandQueues =
      set1 mc.commandQueues queueId ({ queueHead with issued := true } :: rest))
    (rank bank subarray query : Nat) : after.waitingFor query rank bank subarray =
      if query = queueId then rest.filter fun command =>
        !command.issued && concerns rank bank subarray command
      else mc.waitingFor query rank bank subarray := by
  unfold waitingFor
  rw [issued, set1_apply]
  split
  · rw [List.filter_cons_of_neg (by simp)]
  · rfl

theorem tracks_unconcerned (tracks : Tracks cfg mc state rank bank subarray)
    (queue : mc.commandQueues queueId = queueHead :: rest) (fresh : queueHead.issued = false)
    (issued : after.commandQueues = set1 mc.commandQueues queueId ({ queueHead with issued := true } :: rest))
    (booked : after.rows = mc.rows) (other : concerns rank bank subarray queueHead = false) :
    Tracks cfg after state rank bank subarray := by
  refine tracks.frame (fun query => ?_) (congrArg (Rows.booked · rank bank subarray) booked)
  rw [waitingFor_issued issued]
  split
  · rename_i same
    rw [same, waitingFor_head queue fresh, if_neg (by simp [other])]
  · rfl

theorem tracks_concerned (tracks : Tracks cfg mc state rank bank subarray)
    (queue : mc.commandQueues queueId = queueHead :: rest) (fresh : queueHead.issued = false)
    (placed : Placed cfg queueId queueHead) (issued : after.commandQueues =
      set1 mc.commandQueues queueId ({ queueHead with issued := true } :: rest))
    (booked : after.rows = mc.rows) (concerned : concerns rank bank subarray queueHead = true) :
    ∃ next, stepRow state queueHead = some next ∧ Tracks cfg after next rank bank subarray := by
  have waiting := waitingFor_issued issued rank bank subarray
  have headed := waitingFor_head queue fresh rank bank subarray
  rw [if_pos concerned] at headed
  have row : after.bookedRow rank bank subarray = mc.bookedRow rank bank subarray :=
    congrArg (Rows.booked · rank bank subarray) booked
  obtain ⟨sameRank, sameBank, kind⟩ := concerns_iff.mp concerned
  have place := placed.queue
  rw [sameRank, sameBank] at place
  by_cases here : cfg.queueOf rank bank subarray = queueId
  · -- the command comes from the subarray's own queue, so nothing waits elsewhere
    have own : mc.ownCommands cfg rank bank subarray = queueHead :: after.ownCommands cfg rank bank
        subarray := by
      unfold ownCommands
      rw [here, headed, waiting, if_pos rfl]
    have foreign : mc.foreignCommands cfg rank bank subarray = [] :=
      tracks.one.resolve_right (by rw [own]; exact List.cons_ne_nil _ _)
    have foreign' : after.foreignCommands cfg rank bank subarray = [] := by
      unfold foreignCommands at foreign ⊢
      split
      · rfl
      · rename_i different
        rw [if_neg different] at foreign
        rw [waiting, if_neg (by rw [← here]; exact Ne.symm different)]
        exact foreign
    have leads := tracks.leads
    rw [own, foreign, List.append_nil, replayRow_cons] at leads
    obtain ⟨next, stepped, leads⟩ := Option.bind_eq_some_iff.mp leads
    refine ⟨next, stepped, Or.inl foreign', ?_⟩
    rw [foreign', List.append_nil, row]
    exact leads
  · -- only a precharge of the whole bank waits in the queue of subarray 0
    have all : queueHead.type = .prechargeAll := by
      refine kind.resolve_right fun same => here ?_
      rw [place, same]
    have zero : cfg.queueOf rank bank 0 = queueId := by rw [place, placed.all all]
    have different : cfg.queueOf rank bank subarray ≠ cfg.queueOf rank bank 0 := by
      rw [zero]
      exact here
    have foreign : mc.foreignCommands cfg rank bank subarray = queueHead ::
        after.foreignCommands cfg rank bank subarray := by
      unfold foreignCommands
      rw [if_neg different, if_neg different, zero, headed, waiting, if_pos rfl]
    have own : mc.ownCommands cfg rank bank subarray = [] :=
      tracks.one.resolve_left (by rw [foreign]; exact List.cons_ne_nil _ _)
    have own' : after.ownCommands cfg rank bank subarray = [] := by
      unfold ownCommands at own ⊢
      rw [waiting, if_neg here]
      exact own
    have leads := tracks.leads
    rw [own, foreign, List.nil_append, replayRow_cons] at leads
    obtain ⟨next, stepped, leads⟩ := Option.bind_eq_some_iff.mp leads
    refine ⟨next, stepped, Or.inr own', ?_⟩
    rw [own', List.nil_append, row]
    exact leads

/-- **The head of any queue may be issued**: the device performs it, and the controller stays
lawful. -/
theorem issue (lawful : Lawful cfg rows mc)
    (queue : mc.commandQueues queueId = queueHead :: rest) (fresh : queueHead.issued = false)
    (issued : after.commandQueues = set1 mc.commandQueues queueId ({ queueHead with issued := true } :: rest))
    (booked : after.rows = mc.rows) (requests : after.transactionQueue = mc.transactionQueue) :
    ∃ rows', rows.perform queueHead = some rows' ∧ Lawful cfg rows' after := by
  have placed := lawful.placed queueId queueHead (by rw [queue]; exact List.mem_cons_self ..) fresh
  obtain ⟨rows', performed⟩ : ∃ rows', rows.perform queueHead = some rows' := by
    rcases placed.range with refresh | inside
    · have legal : stepRow (rows queueHead.address.rank queueHead.address.bank
          queueHead.address.subarray) queueHead = some (rows queueHead.address.rank
          queueHead.address.bank queueHead.address.subarray) := by
        unfold stepRow
        rw [refresh]
      exact OpenRows.perform_of_stepRow legal
    · obtain ⟨next, legal, -⟩ := tracks_concerned
        (lawful.tracks queueHead.address.rank queueHead.address.bank queueHead.address.subarray inside)
        queue fresh placed issued booked (concerns_iff.mpr ⟨rfl, rfl, Or.inr rfl⟩)
      exact OpenRows.perform_of_stepRow legal
  refine ⟨rows', performed, booked ▸ lawful.consistent, requests ▸ lawful.requests, ?_, ?_⟩
  · intro query command member unissued
    rw [issued, set1_apply] at member
    split at member
    · rename_i same
      rcases List.mem_cons.mp member with rfl | behind
      · cases unissued
      · refine lawful.placed query command ?_ unissued
        rw [same, queue]
        exact List.mem_cons_of_mem _ behind
    · exact lawful.placed query command member unissued
  · intro rank bank subarray inside
    have tracks := lawful.tracks rank bank subarray inside
    cases concerned : concerns rank bank subarray queueHead with
    | true =>
      obtain ⟨next, stepped, tracks⟩ := tracks_concerned tracks queue fresh placed issued booked concerned
      have same := OpenRows.perform_concerned performed concerned
      rw [stepped] at same
      exact Option.some.inj same ▸ tracks
    | false =>
      rw [OpenRows.perform_unconcerned performed concerned]
      exact tracks_unconcerned tracks queue fresh issued booked concerned

end Issue

theorem cleanup (lawful : Lawful cfg rows mc) : Lawful cfg rows (mc.cleanup cfg) where
  consistent := lawful.consistent
  requests := lawful.requests
  placed queueId command member fresh := lawful.placed queueId command (mem_of_mem_cleanup member) fresh
  tracks rank bank subarray inside := by
    refine (lawful.tracks rank bank subarray inside).frame (fun queueId => ?_) rfl
    show (if queueId < cfg.commandQueueCount then (mc.commandQueues queueId).filter (!·.issued)
      else mc.commandQueues queueId).filter _ = _
    unfold waitingFor
    split
    · rw [List.filter_filter]
      refine List.filter_congr fun command _ => ?_
      cases command.issued <;> simp
    · rfl

end Lawful

/-! ### Runs -/

/-- The actions of a run: requests are reads and writes of the controller's addresses, none of them
takes the cached path, and a command is issued once. -/
def LegalAction (cfg : Config) (child : Child χ) (sys : System χ) : Action χ → Prop
  | .accept request => cfg.InRange (cfg.translate request.address.physical) ∧
      (request.type = .read ∨ request.type = .write) ∧ request.issued = false
  | .schedule finder pred => ∀ found ∈ sys.find cfg child finder pred,
      ({ sys with mc := found.2 }.startCommands cfg child found.1).2 ≠ .cached
  | .queue request => Schedulable cfg request ∧ (sys.startCommands cfg child request).2 ≠ .cached
  | .issue queueId => ∀ queueHead ∈ (sys.mc.commandQueues queueId).head?, queueHead.issued = false
  | _ => True

/-- The request has no precharge of its bank waiting in another queue than its own. -/
def Unprecharged (cfg : Config) (mc : MemoryController) (request : NVMainRequest) : Prop :=
  cfg.queueModel = .perSubArray →
    mc.foreignCommands cfg request.address.rank request.address.bank request.address.subarray = []

/-- With a queue per subarray, the `PRECHARGE_ALL` of a refresh does not wait beside commands of
another subarray: no commands are queued for a subarray while one waits for its bank, and no bank is
precharged while commands of its other subarrays wait. And no write that was issued comes back. -/
def NoPrechargeRace (cfg : Config) (child : Child χ) (sys : System χ) : Action χ → Prop
  | .complete request => ¬request.PutBack
  | .schedule finder pred => ∀ found ∈ sys.find cfg child finder pred, Unprecharged cfg sys.mc found.1
  | .queue request => Unprecharged cfg sys.mc request
  | .refresh => cfg.queueModel = .perSubArray → ∀ target ∈ sys.mc.refreshTarget cfg,
      ∀ tmpBank < cfg.banksPerRefresh, Lawful.Unobstructed cfg sys.mc target.1 (refBank cfg target.2 tmpBank)
  | _ => True

section Decide

variable (cfg : Config) (child : Child χ) (sys : System χ)

instance (request : NVMainRequest) : Decidable (Schedulable cfg request) :=
  decidable_of_iff (cfg.InRange request.address ∧ (request.type = .read ∨ request.type = .write) ∧
      request.issued = false)
    ⟨fun ⟨range, type, fresh⟩ => ⟨range, type, fresh⟩, fun ⟨range, type, fresh⟩ => ⟨range, type, fresh⟩⟩

instance (request : NVMainRequest) : Decidable (Unprecharged cfg sys.mc request) :=
  inferInstanceAs (Decidable (_ → _))

instance (mc : MemoryController) (rank bank : Nat) : Decidable (Lawful.Unobstructed cfg mc rank bank) :=
  inferInstanceAs (Decidable (mc.activateQueued rank bank = true → ∀ subarray < cfg.subArrayNum,
    cfg.queueOf rank bank subarray ≠ cfg.queueOf rank bank 0 → mc.ownCommands cfg rank bank subarray = []))

instance : (action : Action χ) → Decidable (LegalAction cfg child sys action)
  | .accept request => inferInstanceAs
      (Decidable (cfg.InRange (cfg.translate request.address.physical) ∧
        (request.type = .read ∨ request.type = .write) ∧ request.issued = false))
  | .schedule finder pred => inferInstanceAs
      (Decidable (∀ found ∈ sys.find cfg child finder pred,
        ({ sys with mc := found.2 }.startCommands cfg child found.1).2 ≠ .cached))
  | .queue request => inferInstanceAs
      (Decidable (Schedulable cfg request ∧ (sys.startCommands cfg child request).2 ≠ .cached))
  | .issue queueId => inferInstanceAs
      (Decidable (∀ queueHead ∈ (sys.mc.commandQueues queueId).head?, queueHead.issued = false))
  | .environment .. | .complete _ | .pulse _ | .refresh | .cleanup => isTrue trivial

instance : (action : Action χ) → Decidable (NoPrechargeRace cfg child sys action)
  | .complete request => inferInstanceAs (Decidable (¬request.PutBack))
  | .schedule finder pred => inferInstanceAs
      (Decidable (∀ found ∈ sys.find cfg child finder pred, Unprecharged cfg sys.mc found.1))
  | .queue request => inferInstanceAs (Decidable (Unprecharged cfg sys.mc request))
  | .refresh => inferInstanceAs
      (Decidable (cfg.queueModel = .perSubArray → ∀ target ∈ sys.mc.refreshTarget cfg, ∀ tmpBank < cfg.banksPerRefresh,
          Lawful.Unobstructed cfg sys.mc target.1 (refBank cfg target.2 tmpBank)))
  | .environment .. | .accept _ | .pulse _ | .issue _ | .cleanup => isTrue trivial

end Decide

section Steps

variable {cfg : Config} {child : Child χ}

theorem Unprecharged.foreign {mc : MemoryController} {request : NVMainRequest}
    (free : Unprecharged cfg mc request) : mc.foreignCommands cfg request.address.rank
      request.address.bank request.address.subarray = [] := by
  by_cases model : cfg.queueModel = .perSubArray
  · exact free model
  · exact if_pos (queueOf_bank model ..)

theorem unobstructed_of_model (model : cfg.queueModel ≠ .perSubArray) (mc : MemoryController)
    (rank bank : Nat) : Lawful.Unobstructed cfg mc rank bank :=
  fun _ _ _ different => absurd (queueOf_bank model ..) different

/-- The commands sent so far are legal, and the controller is lawful for the open rows they leave. -/
def SentLegally (cfg : Config) (sys : System χ) : Prop :=
  ∃ rows, OpenRows.closed.replay sys.sent = some rows ∧ Lawful cfg rows sys.mc

/-- **Every action that does not start a race** keeps the sent commands legal. -/
theorem perform_sentLegally (precharge : cfg.usePrecharge = true) (sys : System χ) (action : Action χ)
    (fits : LegalAction cfg child sys action ∧ NoPrechargeRace cfg child sys action)
    (legal : SentLegally cfg sys) : SentLegally cfg (sys.perform cfg child action) := by
  obtain ⟨rows, replayed, lawful⟩ := legal
  cases action with
  | environment below queue lastCommandWake deadlocked outOfDepth =>
    exact ⟨rows, replayed, lawful.frame rfl rfl lawful.requests⟩
  | accept request =>
    show SentLegally cfg ((sys.issueCommand cfg request).getD sys)
    rcases issueCommand_eq request with full | ⟨after, taken, mc, sent, -⟩
    · rw [full]
      exact ⟨rows, replayed, lawful⟩
    · rw [taken]
      refine ⟨rows, sent ▸ replayed, ?_⟩
      show Lawful cfg rows after.mc
      rw [mc]
      refine lawful.frame rfl rfl fun waiting member => ?_
      rcases List.mem_append.mp member with old | new
      · exact lawful.requests waiting old
      · rw [List.mem_singleton.mp new]
        exact ⟨fits.1.1, fits.1.2.1, fits.1.2.2⟩
  | complete request =>
    show SentLegally cfg (sys.requestComplete request)
    rw [requestComplete_of_not_putBack fits.2]
    exact ⟨rows, replayed, lawful⟩
  | pulse refresh =>
    refine ⟨rows, replayed, ?_⟩
    show Lawful cfg rows (sys.countRefresh cfg refresh).mc
    unfold System.countRefresh
    dsimp only
    split
    · exact lawful.frame rfl rfl lawful.requests
    · exact lawful.frame rfl rfl lawful.requests
  | schedule finder pred =>
    rw [System.perform]
    cases search : sys.find cfg child finder pred with
    | none => exact ⟨rows, replayed, lawful⟩
    | some found =>
      obtain ⟨request, mc⟩ := found
      obtain ⟨front, original, back, picked⟩ := find_picked search
      have free : Unprecharged cfg sys.mc request := fits.2 (request, mc) search
      have uncached : ({ sys with mc := mc }.startCommands cfg child request).2 ≠ .cached :=
        fits.1 (request, mc) search
      have schedulable : Schedulable cfg request := by
        have old := lawful.requests original picked.member
        rw [picked.same]
        exact ⟨old.range, old.type, old.fresh⟩
      have rest : Lawful cfg rows mc := by
        rw [picked.rest]
        exact lawful.frame rfl rfl fun waiting left => lawful.requests waiting (picked.left left)
      have foreign : mc.foreignCommands cfg request.address.rank request.address.bank
          request.address.subarray = [] := by
        rw [picked.rest]
        exact free.foreign
      exact ⟨rows, replayed, rest.queueCommands schedulable precharge foreign uncached⟩
  | queue request =>
    exact ⟨rows, replayed, lawful.queueCommands fits.1.1 precharge fits.2.foreign fits.1.2⟩
  | refresh =>
    show SentLegally cfg (sys.startRefresh cfg)
    unfold System.startRefresh
    split
    · exact ⟨rows, replayed, lawful⟩
    · rename_i i j target
      refine ⟨rows, replayed, lawful.queueRefresh (fun tmpBank small => ?_) _⟩
      by_cases model : cfg.queueModel = .perSubArray
      · exact fits.2 model (i, j) target tmpBank small
      · exact unobstructed_of_model model _ _ _
  | issue queueId =>
    show SentLegally cfg (sys.issueHead cfg child queueId)
    cases queue : sys.mc.commandQueues queueId with
    | nil =>
      rw [issueHead_of_empty queue]
      exact ⟨rows, replayed, lawful⟩
    | cons queueHead rest =>
      have fresh : queueHead.issued = false := fits.1 queueHead (by rw [queue]; rfl)
      obtain ⟨flags, failed, issued, current, -, same⟩ := issueHead_changes cfg child queue
      obtain ⟨rows', performed, lawful⟩ := lawful.issue queue fresh
        (congrArg MemoryController.commandQueues same) (by rw [same]; rfl) (by rw [same])
      refine ⟨rows', ?_, lawful⟩
      rw [(issueHead_eq queue).2.1, OpenRows.replay_snoc, replayed]
      exact performed
  | cleanup => exact ⟨rows, replayed, lawful.cleanup⟩

end Steps

/-- **The commands are legal in every run without a precharge race.** With `UsePrecharge`, whatever the
queue model, the order of the issues and the child: the device performs all commands sent so far, and
when no command waits its open rows are the rows of the bookkeeping. -/
theorem commands_legal (cfg : Config) (child : Child χ) (below : χ) (queue : ControllerQueue)
    (precharge : cfg.usePrecharge = true) (actions : List (Action χ)) (run : AllowedRun (System.perform cfg child)
      (fun sys action => LegalAction cfg child sys action ∧ NoPrechargeRace cfg child sys action)
      (System.setConfig cfg below queue) actions) :
    let sys := runActions (System.perform cfg child) (System.setConfig cfg below queue) actions
    ∃ rows, OpenRows.closed.replay sys.sent = some rows ∧
      ((∀ queueId, ∀ command ∈ sys.mc.commandQueues queueId, command.issued = true) →
        ∀ rank bank subarray, subarray < cfg.subArrayNum →
          (rows rank bank subarray).getD cfg.rows = sys.mc.effectiveRow rank bank subarray) := by
  obtain ⟨rows, replayed, lawful⟩ := run.invariant (SentLegally cfg) (perform_sentLegally precharge)
    ⟨OpenRows.closed, rfl, Lawful.create cfg⟩
  refine ⟨rows, replayed, fun drained rank bank subarray inside => ?_⟩
  have tracks := lawful.tracks rank bank subarray inside
  generalize (runActions (System.perform cfg child) (System.setConfig cfg below queue) actions).mc = mc
    at drained lawful tracks ⊢
  have nothing : ∀ queueId, mc.waitingFor queueId rank bank subarray = [] := by
    intro queueId
    refine List.filter_eq_nil_iff.mpr fun command member => ?_
    simp [drained queueId command member]
  have foreign : mc.foreignCommands cfg rank bank subarray = [] := by
    unfold foreignCommands
    split
    · rfl
    · exact nothing _
  have leads := tracks.leads
  rw [foreign, show mc.ownCommands cfg rank bank subarray = [] from nothing _] at leads
  have same : rows rank bank subarray = mc.bookedRow rank bank subarray := Option.some.inj leads
  rw [same]
  unfold bookedRow Rows.booked
  cases active : mc.rows.active rank bank subarray with
  | true => rfl
  | false => exact (lawful.consistent.invalid active).1.symm

/-- A read of the second subarray, a refresh of the bank once it is issued, and another read. -/
def orderlyActions : List (Action Unit) :=
  [.accept (.incoming 1 .read 64), .wait 5, .schedule .closedBankRequest fun _ => true, .issue 1,
    .wait 6, .cleanup, .issue 1, .wait 7, .cleanup, .pulse (pulseOf 0), .refresh, .issue 0, .wait 8,
    .cleanup, .issue 0, .wait 9, .cleanup, .accept (.incoming 2 .write 320), .wait 10,
    .schedule .closedBankRequest fun _ => true, .issue 1, .wait 11, .cleanup, .issue 1]

theorem commands_legal_orderlyActions :
    let sys := runActions (System.perform (smallConfig .perSubArray 0) promptChild)
      (System.setConfig (smallConfig .perSubArray 0) () .create) orderlyActions
    (∃ rows, OpenRows.closed.replay sys.sent = some rows) ∧ sys.sent.map (·.type) =
      [.activate, .read, .prechargeAll, .refresh, .activate, .write] := by
  obtain ⟨rows, replayed, -⟩ := commands_legal (smallConfig .perSubArray 0) promptChild () .create rfl
    orderlyActions (by decide)
  exact ⟨⟨rows, replayed⟩, by decide⟩

/-- A read of the second subarray of bank 0 waits for the interconnect when the bank is refreshed; then
the queues are issued, a command each cycle. -/
def racingCalls : List (ControllerCall Unit) :=
  [.other (.accept (.incoming 1 .read 64)), .other (.wait 5), .cycle 4, .other (.wait 100),
    .refreshCallback 4 (pulseOf 0), .other (.wait 210), .cycleCommandQueues, .other (.wait 211),
    .other .cleanup, .cycleCommandQueues, .other (.wait 212), .other .cleanup, .cycleCommandQueues,
    .other (.wait 213), .other .cleanup, .cycleCommandQueues, .other (.wait 214), .other .cleanup]

/-- Another read of the subarray. -/
def followingCalls : List (ControllerCall Unit) :=
  [.other (.accept (.incoming 2 .read 64)), .other (.wait 220), .cycle 4]

/-- **A refresh overtakes the activate of another subarray.** The `PRECHARGE_ALL` is issued before the
commands that the controller had queued for the subarray, so that its row stays open although the
bookkeeping has it closed; the next read activates an open subarray. -/
theorem precharge_race :
    let sys := runActions (System.invoke (smallConfig .perSubArray 0) busyChild)
      (System.setConfig (smallConfig .perSubArray 0) () .create) racingCalls
    sys.sent.map (·.type) = [.prechargeAll, .activate, .refresh, .read] ∧
      (OpenRows.closed.replay sys.sent).map (fun rows => rows 0 0 1) = some (some 0) ∧
      sys.mc.effectiveRow 0 0 1 = (smallConfig .perSubArray 0).rows ∧
      (OpenRows.closed.replay (runActions (System.invoke (smallConfig .perSubArray 0) busyChild) sys
        followingCalls).sent).isNone = true := by
  decide

end Emas.Nvmain

/-
**A bank and its subarrays agree.**

The bank keeps the active subarrays in `activeSubArrayQueue`, each subarray keeps its own state, and the events
of precharges and refreshes change the one and not the other. With `UsePrecharge` the two agree in every run of
commands and events (`bank_agreement`).

Within a cycle commands and events come in any order, only that for `tRP = 0` an implicit precharge that is due
comes before the commands to its subarray, as in the event queue, where an `EventResponse` goes before the
callbacks that issue commands.
-/

import Emas.Lib.ActionRun
import Emas.Nvmain.DDR3Bank

namespace Emas.Nvmain

open Table

/-! ### One subarray -/

/-- What a command leaves of a subarray that was active or not. -/
def DeviceOp.leavesActive (active : Bool) : DeviceOp → Bool
  | .activate => true
  | .readPrecharge | .writePrecharge | .precharge | .prechargeAll => false
  | _ => active

/-- The subarray fits the queue of the bank, where it is or is not active: it is open; or it is open and will be
precharged, and takes no command before that; or it is busy; or it is closed. -/
inductive Agrees (params : SubArrayParams) (now : Nat) (device : SubArray) : Bool → Prop where
  | active (state : device.state = .open) (none : device.changing = []) : Agrees params now device true
  | leaving {event : DeviceEvent} (state : device.state = .open) (one : device.changing = [event])
      (starts : event.startsPrecharge = true) (later : now ≤ event.cycle)
      (behind : device.Behind (event.cycle + params.tRP)) : Agrees params now device false
  | busy {event : DeviceEvent} (state : device.state = .precharging ∨ device.state = .refreshing)
      (one : device.changing = [event]) (ends : event.endsBusy = true) : Agrees params now device false
  | closed (state : device.state = .closed) (none : device.changing = []) : Agrees params now device false

section Device

variable {params : SubArrayParams} {now : Nat} {device next : SubArray} {active : Bool}
  {request : DeviceRequest} {latency : DeviceLatency}

/-- An implicit precharge that is due comes before the commands of its cycle, where `tRP = 0`. -/
def StartsFirst (params : SubArrayParams) (now : Nat) (device : SubArray) : Prop :=
  params.tRP = 0 → ∀ event ∈ device.events, event.startsPrecharge = true → now < event.cycle

instance (params : SubArrayParams) (now : Nat) (device : SubArray) :
    Decidable (StartsFirst params now device) := inferInstanceAs (Decidable (_ → _))

/-- **A subarray that is open or closed and ready has no change on its way.** -/
theorem Agrees.ready (agrees : Agrees params now device active) (first : active = false → StartsFirst params now device)
    (still : device.state = .open ∨ device.state = .closed) {register : Nat} (ready : register ≤ now)
    (behind : ∀ cycle, device.Behind cycle → cycle ≤ register) :
    device.changing = [] ∧ (device.state = .open ↔ active = true) := by
  cases agrees with
  | active state none => exact ⟨none, by simp [state]⟩
  | @leaving event state one starts later behindEnd =>
    have late := behind _ behindEnd
    have none : params.tRP = 0 := by omega
    have member : event ∈ device.changing := by simp [one]
    have := first rfl none event (List.mem_filter.mp member).1 starts
    omega
  | busy state one ends => rcases state with state | state <;> simp [state] at still
  | closed state none => exact ⟨none, by simp [state]⟩

theorem Agrees.of_closed (agrees : Agrees params now device active) (state : device.state = .closed) :
    device.changing = [] ∧ active = false := by
  cases agrees with
  | active other none => simp [state] at other
  | leaving other one starts later behind => simp [state] at other
  | busy other one ends => simp [state] at other
  | closed _ none => exact ⟨none, rfl⟩

theorem Agrees.access (state : device.state = .open) (none : device.changing = []) {start : Nat}
    (same : next.state = device.state) {auto : Prop} [Decidable auto]
    (changing : next.changing = device.changing ++ if auto then [⟨start, request, true, 0⟩] else [])
    (type : auto → request.type = .readPrecharge ∨ request.type = .writePrecharge) (later : now ≤ start)
    (behind : auto → next.Behind (start + params.tRP)) : Agrees params now next !decide auto := by
  rw [none, List.nil_append] at changing
  by_cases isAuto : auto
  · rw [if_pos isAuto] at changing
    rw [decide_eq_true isAuto]
    refine .leaving (same.trans state) changing ?_ later (behind isAuto)
    rcases type isAuto with type | type <;> simp [DeviceEvent.startsPrecharge, type]
  · rw [if_neg isAuto] at changing
    rw [decide_eq_false isAuto]
    exact .active (same.trans state) changing

theorem Agrees.busyFor (none : device.changing = [])
    (type : request.type = .precharge ∨ request.type = .prechargeAll ∨ request.type = .refresh) (timer : Nat)
    {state : SubArrayState} (isBusy : state = .precharging ∨ state = .refreshing) :
    Agrees params now (device.busyFor now request timer state) false := by
  have changing := @SubArray.busyFor_changing device now request timer state type
  rw [none, List.nil_append] at changing
  refine .busy isBusy changing ?_
  rcases type with type | type | type <;> simp [DeviceEvent.endsBusy, type]

/-- **A command that is taken**: the subarray fits the queue after it. An access is to an active subarray, an
activation is of one that is not. -/
theorem Agrees.effect (agrees : Agrees params now device active) (use : params.usePrecharge = true)
    (first : active = false → StartsFirst params now device)
    (effect : SubArray.Effect params device now request latency next) :
    Agrees params now next (request.type.leavesActive active) ∧ (request.type = .activate → active = false) := by
  cases effect with
  | activate type ready idle =>
    obtain ⟨none, inactive⟩ := agrees.of_closed (idle use)
    refine ⟨?_, fun _ => inactive⟩
    rw [type]
    exact .active rfl ((SubArray.openRowOf_changing type).trans none)
  | read type ready state =>
    obtain ⟨none, isActive⟩ := agrees.ready first (.inl state) ready fun _ => SubArray.Behind.nextRead
    have access := Agrees.access state none SubArray.readRow_state SubArray.readRow_changing .inl
      SubArray.le_readPrechargeStart (@SubArray.readRow_registers params device now request latency).2
    rw [isActive.mp state]
    rcases type with type | type <;> simp only [type] at access ⊢ <;> exact ⟨access, nofun⟩
  | write type ready state =>
    obtain ⟨none, isActive⟩ := agrees.ready first (.inl state) ready fun _ => SubArray.Behind.nextWrite
    have access := Agrees.access state none SubArray.writeRow_state SubArray.writeRow_changing .inr
      SubArray.le_writePrechargeStart (@SubArray.writeRow_registers params device now request latency).2
    rw [isActive.mp state]
    rcases type with type | type <;> simp only [type] at access ⊢ <;> exact ⟨access, nofun⟩
  | precharge type ready still =>
    obtain ⟨none, -⟩ := agrees.ready first still ready fun _ => SubArray.Behind.nextPrecharge
    have inactive : request.type.leavesActive active = false := by
      rcases type with type | type <;> rw [type] <;> rfl
    rw [inactive]
    exact ⟨.busyFor none (type.imp id .inl) _ (.inl rfl), fun other => by simp [other] at type⟩
  | refresh type ready idle =>
    obtain ⟨none, inactive⟩ := agrees.of_closed (idle use)
    rw [type, inactive]
    exact ⟨.busyFor none (.inr (.inr type)) _ (.inr rfl), nofun⟩
  | power type =>
    rcases type with type | type | type | type <;> rw [type] <;> exact ⟨agrees, nofun⟩

/-- **An event is delivered.** -/
theorem Agrees.deliver (agrees : Agrees params now device active) (use : params.usePrecharge = true)
    {event : DeviceEvent} (member : event ∈ device.events) :
    Agrees params now (device.deliver params now event) active := by
  have changing := @SubArray.deliver_changing params device now event
  have state' := @SubArray.deliver_state params device now event
  cases changes : event.changesState with
  | false =>
    obtain ⟨noStart, noEnd⟩ : event.startsPrecharge = false ∧ event.endsBusy = false := by
      simpa [DeviceEvent.changesState] using changes
    have gone : event ∉ device.changing := fun member => by
      rw [(List.mem_filter.mp member).2] at changes
      cases changes
    rw [noStart, if_neg Bool.false_ne_true, List.append_nil, List.erase_of_not_mem gone] at changing
    rw [noStart, noEnd, if_neg Bool.false_ne_true, if_neg Bool.false_ne_true] at state'
    obtain ⟨activate, precharge, read, write⟩ := @SubArray.deliver_registers params device now event
    cases agrees with
    | active state none => exact .active (state'.trans state) (changing.trans none)
    | leaving state one starts later behind =>
      refine .leaving (state'.trans state) (changing.trans one) starts later ⟨?_, ?_, ?_, ?_⟩
      · rw [activate]
        exact behind.nextActivate
      · rw [precharge]
        exact behind.nextPrecharge
      · rw [read]
        exact behind.nextRead
      · rw [write]
        exact behind.nextWrite
    | busy state one ends => exact .busy (by rwa [state']) (changing.trans one) ends
    | closed state none => exact .closed (state'.trans state) (changing.trans none)
  | true =>
    have waits : event ∈ device.changing := List.mem_filter.mpr ⟨member, changes⟩
    cases agrees with
    | active state none => simp [none] at waits
    | @leaving start state one starts later behind =>
      rw [one, List.mem_singleton] at waits
      obtain rfl := waits
      rw [one, List.erase_cons_head, starts, if_pos rfl, List.nil_append] at changing
      rw [starts, if_pos rfl] at state'
      exact .busy (.inl state') changing rfl
    | @busy last state one ends =>
      rw [one, List.mem_singleton] at waits
      obtain rfl := waits
      have noStart : event.startsPrecharge = false := by
        unfold DeviceEvent.startsPrecharge DeviceEvent.endsBusy at *
        grind
      rw [one, List.erase_cons_head, noStart, if_neg Bool.false_ne_true, List.append_nil] at changing
      rw [noStart, if_neg Bool.false_ne_true, ends, if_pos rfl, use, if_neg (by simp)] at state'
      exact .closed state' changing
    | closed state none => simp [none] at waits

/-- **The clock goes on.** -/
theorem Agrees.tick (agrees : Agrees params now device active)
    (passed : ∀ event ∈ device.events, now < event.cycle) : Agrees params (now + 1) device active := by
  cases agrees with
  | active state none => exact .active state none
  | @leaving event state one starts later behind =>
    have member : event ∈ device.changing := by simp [one]
    exact .leaving state one starts (passed event (List.mem_filter.mp member).1) behind
  | busy state one ends => exact .busy state one ends
  | closed state none => exact .closed state none

end Device

/-! ### Runs of a bank -/

/-- The bank, the current cycle, and the commands that were accepted. -/
structure BankRun where
  bank : DDR3Bank
  now : Nat
  accepted : List DeviceRequest

/-- A command to the bank, an event of a subarray that comes due, or the next cycle. -/
inductive BankAction where
  | issue (request : DeviceRequest) (latency : Nat → DeviceLatency)
  | complete (subArray : Nat) (event : DeviceEvent)
  | tick

namespace BankRun

variable (params : BankParams) (run : BankRun)

def create : BankRun := ⟨.create params, 0, []⟩

/-- What an action leaves of the bank and the clock. -/
def act : BankAction → BankRun
  | .issue request latency =>
    let (bank, success) := run.bank.issueCommand params run.now request latency
    { run with
      bank := bank
      accepted := if success then run.accepted ++ [request] else run.accepted }
  | .complete subArray event =>
    { run with bank := { run.bank with
        subArrays := set1 run.bank.subArrays subArray
          ((run.bank.subArrays subArray).deliver params.toSubArrayParams run.now event) } }
  | .tick => { run with now := run.now + 1 }

/-- Commands are to subarrays of the bank. An event is delivered when it is due, and before the clock goes on;
with `tRP = 0`, an implicit precharge before the commands of its cycle. -/
def Allowed : BankAction → Prop
  | .issue request _ => request.subarray < params.subArrayNum ∧
      StartsFirst params.toSubArrayParams run.now (run.bank.subArrays request.subarray)
  | .complete subArray event => subArray < params.subArrayNum ∧
      event ∈ (run.bank.subArrays subArray).events ∧ event.cycle ≤ run.now
  | .tick => ∀ i < params.subArrayNum, ∀ event ∈ (run.bank.subArrays i).events, run.now < event.cycle

instance : ∀ action, Decidable (run.Allowed params action)
  | .issue _ _ => inferInstanceAs (Decidable (_ ∧ _))
  | .complete _ _ => inferInstanceAs (Decidable (_ ∧ _ ∧ _))
  | .tick => inferInstanceAs (Decidable (∀ i < _, ∀ _ ∈ _, _))

end BankRun

/-- The subarrays that the commands have activated and not precharged since, explicitly or implicitly. -/
def activeAfter (accepted : List DeviceRequest) (subArray : Nat) : Bool :=
  accepted.foldl (fun active request =>
    if request.type = .prechargeAll ∨ request.subarray = subArray then request.type.leavesActive active
    else active) false

/-- The queue has each active subarray once, and every subarray fits it. -/
structure QueueOk (params : BankParams) (now : Nat) (bank : DDR3Bank) : Prop where
  nodup : bank.activeSubArrayQueue.Nodup
  inside : ∀ i ∈ bank.activeSubArrayQueue, i < params.subArrayNum
  agrees : ∀ i < params.subArrayNum, Agrees params.toSubArrayParams now (bank.subArrays i)
    (decide (i ∈ bank.activeSubArrayQueue))
  failures : bank.failures = []

/-- The state of the bank says whether a subarray is active. -/
structure StateOk (bank : DDR3Bank) : Prop where
  opened : bank.activeSubArrayQueue ≠ [] → bank.state = .open ∨ bank.state = .pda
  closed : bank.activeSubArrayQueue = [] → bank.state = .closed ∨ bank.state = .pdpf ∨ bank.state = .pdps

/-- **The bank and its subarrays agree**, and the queue is what the commands say. -/
structure BankInv (params : BankParams) (run : BankRun) : Prop where
  queue : QueueOk params run.now run.bank
  state : StateOk run.bank
  active : ∀ i, i ∈ run.bank.activeSubArrayQueue ↔ activeAfter run.accepted i = true

section Bank

variable {params : BankParams} {now : Nat} {bank : DDR3Bank} {request : DeviceRequest}
  {latency : Nat → DeviceLatency}

theorem BankInv.create (params : BankParams) : BankInv params (.create params) where
  queue := ⟨List.nodup_nil, nofun, fun _ _ => .closed rfl rfl, rfl⟩
  state := by
    refine ⟨fun some => absurd rfl some, fun _ => ?_⟩
    unfold BankRun.create DDR3Bank.create
    dsimp only
    split
    · exact .inr (.inl rfl)
    · exact .inl rfl
  active := fun _ => ⟨nofun, nofun⟩

theorem issueTo_taken (latency : Nat → DeviceLatency) {i : Nat}
    (issuable : (bank.subArrays i).isIssuable params.toSubArrayParams now request = true) :
    ∃ next, SubArray.Effect params.toSubArrayParams (bank.subArrays i) now request (latency i) next ∧
      bank.issueTo params now request latency i = ({ bank with subArrays := set1 bank.subArrays i next }, true) := by
  obtain ⟨taken, effect⟩ := SubArray.issueCommand_effect (latency i) issuable
  refine ⟨_, effect, ?_⟩
  unfold DDR3Bank.issueTo
  dsimp only
  rw [taken, if_pos rfl]

variable {queue : List Nat}

theorem QueueOk.update (ok : QueueOk params now bank) {i : Nat} (inside : i < params.subArrayNum)
    {next : SubArray} (agrees : Agrees params.toSubArrayParams now next (decide (i ∈ queue))) (nodup : queue.Nodup)
    (others : ∀ j, j ≠ i → (j ∈ queue ↔ j ∈ bank.activeSubArrayQueue)) :
    QueueOk params now { bank with
      subArrays := set1 bank.subArrays i next
      activeSubArrayQueue := queue } where
  nodup := nodup
  inside := fun j member => by
    by_cases here : j = i
    · rw [here]
      exact inside
    · exact ok.inside j ((others j here).mp member)
  agrees := fun j small => by
    dsimp only
    by_cases here : j = i
    · rw [here, set1_self]
      exact agrees
    · rw [set1_of_ne _ _ here]
      simpa only [others j here] using ok.agrees j small
  failures := ok.failures

/-- What a command leaves in `activeSubArrayQueue`. -/
def queueAfter (request : DeviceRequest) (queue : List Nat) : List Nat :=
  match request.type with
  | .activate => request.subarray :: queue
  | .readPrecharge | .writePrecharge | .precharge => queue.erase request.subarray
  | .prechargeAll => []
  | _ => queue

theorem mem_queueAfter (nodup : queue.Nodup) (i : Nat) : i ∈ queueAfter request queue ↔
      (if request.type = .prechargeAll ∨ request.subarray = i then
        request.type.leavesActive (decide (i ∈ queue)) else decide (i ∈ queue)) = true := by
  unfold queueAfter
  by_cases here : request.subarray = i
  · rw [if_pos (.inr here), here]
    cases request.type with
    | activate => simp [DeviceOp.leavesActive]
    | readPrecharge | writePrecharge | precharge => simp [DeviceOp.leavesActive, nodup.mem_erase_iff]
    | prechargeAll => simp [DeviceOp.leavesActive]
    | _ => simp [DeviceOp.leavesActive]
  · cases request.type with
    | activate => simp [here, Ne.symm here]
    | readPrecharge | writePrecharge | precharge => simp [here, nodup.mem_erase_iff, Ne.symm here]
    | prechargeAll => simp [DeviceOp.leavesActive]
    | _ => simp [here]

theorem nodup_queueAfter (nodup : queue.Nodup)
    (fresh : request.type = .activate → request.subarray ∉ queue) : (queueAfter request queue).Nodup := by
  unfold queueAfter
  cases type : request.type with
  | activate => exact List.nodup_cons.mpr ⟨fresh type, nodup⟩
  | readPrecharge | writePrecharge | precharge => exact nodup.erase _
  | prechargeAll => exact List.nodup_nil
  | _ => exact nodup

/-- **A command to one subarray** is taken by it, and it fits the queue after it. -/
theorem QueueOk.issueTo (ok : QueueOk params now bank) (latency : Nat → DeviceLatency)
    (use : params.usePrecharge = true) (inside : request.subarray < params.subArrayNum)
    (single : request.type ≠ .prechargeAll)
    (first : StartsFirst params.toSubArrayParams now (bank.subArrays request.subarray))
    (issuable : (bank.subArrays request.subarray).isIssuable params.toSubArrayParams now request = true) :
    ∃ subArrays, bank.issueTo params now request latency request.subarray =
        ({ bank with subArrays := subArrays }, true) ∧
      QueueOk params now { bank with
        subArrays := subArrays
        activeSubArrayQueue := queueAfter request bank.activeSubArrayQueue } := by
  obtain ⟨next, effect, taken⟩ := issueTo_taken latency issuable
  obtain ⟨agrees, fresh⟩ := (ok.agrees _ inside).effect use (fun _ => first) effect
  refine ⟨_, taken, ok.update inside ?_ (nodup_queueAfter ok.nodup ?_) ?_⟩
  · have active : decide (request.subarray ∈ queueAfter request bank.activeSubArrayQueue) =
        request.type.leavesActive (decide (request.subarray ∈ bank.activeSubArrayQueue)) := by
      rw [Bool.eq_iff_iff, decide_eq_true_eq, mem_queueAfter ok.nodup, if_pos (.inr rfl)]
    rw [active]
    exact agrees
  · exact fun type => of_decide_eq_false (fresh type)
  · intro j other
    rw [mem_queueAfter ok.nodup, if_neg, decide_eq_true_eq]
    rintro (all | here)
    · exact single all
    · exact other here.symm

/-- **`PRECHARGE_ALL` goes through**: every subarray of the queue takes it. -/
theorem QueueOk.prechargeQueue (ok : QueueOk params now bank)
    (latency : Nat → DeviceLatency) (use : params.usePrecharge = true) (type : request.type = .prechargeAll)
    (isQueue : bank.activeSubArrayQueue = queue)
    (issuable : ∀ i ∈ queue, (bank.subArrays i).isIssuable params.toSubArrayParams now request = true) :
    ∃ subArrays, DDR3Bank.prechargeQueue params now request latency bank queue =
        ({ bank with subArrays := subArrays, activeSubArrayQueue := [] }, true) ∧
      QueueOk params now { bank with subArrays := subArrays, activeSubArrayQueue := [] } ∧
      (∀ i ∈ queue, (subArrays i).state = .precharging) ∧ ∀ i ∉ queue, subArrays i = bank.subArrays i := by
  induction queue generalizing bank with
  | nil =>
    refine ⟨bank.subArrays, ?_, ?_, nofun, fun _ _ => rfl⟩
    · rw [DDR3Bank.prechargeQueue, ← isQueue]
    · rw [← isQueue]
      exact ok
  | cons i rest ih =>
    have nodup := ok.nodup
    rw [isQueue, List.nodup_cons] at nodup
    have inside : i < params.subArrayNum := ok.inside i (by simp [isQueue])
    obtain ⟨next, effect, taken⟩ := @issueTo_taken params now { bank with activeSubArrayQueue := rest }
      request latency i (issuable i (List.mem_cons_self ..))
    have isActive : decide (i ∈ bank.activeSubArrayQueue) = true := by simp [isQueue]
    have agrees := ok.agrees i inside
    rw [isActive] at agrees
    have left := (agrees.effect use nofun effect).1
    have precharging : next.state = .precharging := by
      cases effect <;> simp_all [SubArray.busyFor]
    have step : QueueOk params now { bank with
        subArrays := set1 bank.subArrays i next
        activeSubArrayQueue := rest } := by
      refine ok.update inside ?_ nodup.2 fun j other => ?_
      · rw [decide_eq_false nodup.1]
        rwa [type] at left
      · rw [isQueue, List.mem_cons, or_iff_right other]
    have others : ∀ j ∈ rest, set1 bank.subArrays i next j = bank.subArrays j := fun j member =>
      set1_of_ne _ _ fun same => nodup.1 (same ▸ member)
    obtain ⟨subArrays, loop, okAfter, closed, same⟩ := ih step rfl fun j member => by
      dsimp only
      rw [others j member]
      exact issuable j (.tail _ member)
    refine ⟨subArrays, ?_, okAfter, fun j member => ?_, fun j out => ?_⟩
    · rw [DDR3Bank.prechargeQueue]
      dsimp only
      rw [taken]
      exact loop
    · rcases List.mem_cons.mp member with here | later
      · rw [here, same i nodup.1]
        exact (congrArg _ (set1_self ..)).trans precharging
      · exact closed j later
    · rw [List.mem_cons, not_or] at out
      exact (same j out.2).trans (set1_of_ne _ _ out.1)

theorem StateOk.open_iff (state : StateOk bank) :
    bank.state = .open ∨ bank.state = .pda ↔ bank.activeSubArrayQueue ≠ [] := by
  refine ⟨fun opened none => ?_, state.opened⟩
  rcases opened with opened | opened <;>
    rcases state.closed none with other | other | other <;> rw [opened] at other <;> cases other

theorem StateOk.closeSubArray (state : StateOk bank) (i : Nat) : StateOk (bank.closeSubArray i) := by
  unfold DDR3Bank.closeSubArray
  refine ⟨fun some => ?_, fun none => .inl (if_pos none)⟩
  dsimp only at some ⊢
  rw [if_neg some]
  exact state.opened fun none => some (by rw [none]; rfl)

/-- What holds after a command that could be issued. -/
structure Taken (params : BankParams) (now : Nat) (request : DeviceRequest) (result : DDR3Bank × Bool)
    (before : List Nat) : Prop where
  success : result.2 = true
  queue : QueueOk params now result.1
  state : StateOk result.1
  after : result.1.activeSubArrayQueue = queueAfter request before
  precharged : request.type = .prechargeAll → ∀ i ∈ before, (result.1.subArrays i).state = .precharging

section Commands

variable (ok : QueueOk params now bank) (state : StateOk bank) (use : params.usePrecharge = true)
  (inside : request.subarray < params.subArrayNum)
  (first : StartsFirst params.toSubArrayParams now (bank.subArrays request.subarray))
  (issuable : (bank.subArrays request.subarray).isIssuable params.toSubArrayParams now request = true)

include ok state use inside first issuable

theorem activate_taken (type : request.type = .activate) (ready : bank.nextActivate ≤ now)
    (awake : bank.state ≠ .pdpf ∧ bank.state ≠ .pdps) :
    Taken params now request (bank.activate params now request latency) bank.activeSubArrayQueue := by
  -- an empty queue is that of a closed bank, or of one that is powered down
  have sane : ¬(bank.state ≠ .closed ∧ bank.activeSubArrayQueue = []) := by
    rintro ⟨notClosed, none⟩
    rcases state.closed none with closed | other | other
    · exact notClosed closed
    · exact awake.1 other
    · exact awake.2 other
  have okWith : QueueOk params now { bank with
      nextPowerDown := max bank.nextPowerDown (now + params.tRCD) } := { ok with }
  obtain ⟨subArrays, taken, okAfter⟩ :=
    okWith.issueTo latency use inside (by rw [type]; nofun) first issuable
  have after : queueAfter request bank.activeSubArrayQueue = request.subarray :: bank.activeSubArrayQueue := by
    unfold queueAfter
    rw [type]
  unfold DDR3Bank.activate
  rw [if_neg (Nat.not_lt.mpr ready), if_neg sane]
  dsimp only at taken okAfter ⊢
  rw [taken]
  rw [after] at okAfter
  exact ⟨rfl, { okAfter with }, ⟨fun _ => .inl rfl, nofun⟩, after.symm, fun all => by simp [type] at all⟩

theorem closing_taken (single : request.type ≠ .prechargeAll) (leaves : Prop) [Decidable leaves]
    (after : queueAfter request bank.activeSubArrayQueue = if leaves then
      bank.activeSubArrayQueue.erase request.subarray else bank.activeSubArrayQueue) :
    Taken params now request
      (let (bank, success) := bank.issueTo params now request latency request.subarray
       if success ∧ leaves then (bank.closeSubArray request.subarray, success) else (bank, success))
      bank.activeSubArrayQueue := by
  obtain ⟨subArrays, taken, okAfter⟩ := ok.issueTo latency use inside single first issuable
  rw [taken]
  rw [after] at okAfter
  dsimp only
  have stateWith : StateOk { bank with subArrays := subArrays } := { state with }
  by_cases leaving : leaves
  · rw [if_pos leaving] at okAfter after
    rw [if_pos ⟨rfl, leaving⟩]
    exact ⟨rfl, { okAfter with }, stateWith.closeSubArray _, after.symm, fun all => absurd all single⟩
  · rw [if_neg leaving] at okAfter after
    rw [if_neg fun both => leaving both.2]
    exact ⟨rfl, { okAfter with }, stateWith, after.symm, fun all => absurd all single⟩

theorem read_taken (type : request.type = .read ∨ request.type = .readPrecharge)
    (ready : bank.nextRead ≤ now) (opened : bank.state = .open) :
    Taken params now request (bank.read params now request latency) bank.activeSubArrayQueue := by
  have single : request.type ≠ .prechargeAll := by rcases type with type | type <;> rw [type] <;> nofun
  have after : queueAfter request bank.activeSubArrayQueue = if request.type = .readPrecharge then
      bank.activeSubArrayQueue.erase request.subarray else bank.activeSubArrayQueue := by
    unfold queueAfter
    rcases type with type | type <;> rw [type] <;> rfl
  unfold DDR3Bank.read
  rw [if_neg (Nat.not_lt.mpr ready), if_neg (not_not_intro opened)]
  refine closing_taken ?_ ?_ use inside ?_ ?_ single _ ?_
  · exact { ok with }
  · exact { state with }
  · exact first
  · exact issuable
  · exact after

theorem write_taken (type : request.type = .write ∨ request.type = .writePrecharge)
    (ready : bank.nextWrite ≤ now) (opened : bank.state = .open) :
    Taken params now request (bank.write params now request latency) bank.activeSubArrayQueue := by
  have single : request.type ≠ .prechargeAll := by rcases type with type | type <;> rw [type] <;> nofun
  have after : queueAfter request bank.activeSubArrayQueue = if request.type = .writePrecharge then
      bank.activeSubArrayQueue.erase request.subarray else bank.activeSubArrayQueue := by
    unfold queueAfter
    rcases type with type | type <;> rw [type] <;> rfl
  unfold DDR3Bank.write
  rw [if_neg (Nat.not_lt.mpr ready), if_neg (not_not_intro opened)]
  refine closing_taken ?_ ?_ use inside ?_ ?_ single _ ?_
  · exact { ok with }
  · exact { state with }
  · exact first
  · exact issuable
  · exact after

theorem refresh_taken (type : request.type = .refresh) (ready : bank.nextActivate ≤ now) :
    Taken params now request (bank.refresh params now request latency) bank.activeSubArrayQueue := by
  have after : queueAfter request bank.activeSubArrayQueue = bank.activeSubArrayQueue := by
    unfold queueAfter
    rw [type]
  have okWith : QueueOk params now { bank with
      nextPowerDown := max bank.nextPowerDown (now + params.tRFC) } := { ok with }
  obtain ⟨subArrays, taken, okAfter⟩ :=
    okWith.issueTo latency use inside (by rw [type]; nofun) first issuable
  unfold DDR3Bank.refresh
  rw [if_neg (Nat.not_lt.mpr ready)]
  dsimp only at taken okAfter ⊢
  rw [taken]
  rw [after] at okAfter
  exact ⟨rfl, { okAfter with }, { state with }, after.symm, fun all => by simp [type] at all⟩

theorem precharge_taken (type : request.type = .precharge) (ready : bank.nextPrecharge ≤ now)
    (still : bank.state = .closed ∨ bank.state = .open) :
    Taken params now request (bank.precharge params now request latency) bank.activeSubArrayQueue := by
  have after : queueAfter request bank.activeSubArrayQueue = bank.activeSubArrayQueue.erase request.subarray := by
    unfold queueAfter
    rw [type]
  have okWith : QueueOk params now { bank with
      nextPowerDown := max bank.nextPowerDown (now + params.tRP) } := { ok with }
  obtain ⟨subArrays, taken, okAfter⟩ :=
    okWith.issueTo latency use inside (by rw [type]; nofun) first issuable
  unfold DDR3Bank.precharge
  rw [if_neg (Nat.not_lt.mpr ready), if_neg fun both => still.elim both.1 both.2]
  simp only [type] at taken okAfter ⊢
  rw [taken]
  rw [after] at okAfter
  have stateWith : StateOk { bank with
      nextPowerDown := max bank.nextPowerDown (now + params.tRP)
      subArrays := subArrays } := { state with }
  exact ⟨rfl, { okAfter with }, stateWith.closeSubArray _, after.symm, fun all => by simp [type] at all⟩

end Commands

theorem prechargeAll_taken (ok : QueueOk params now bank) (use : params.usePrecharge = true)
    (type : request.type = .prechargeAll) (ready : bank.nextPrecharge ≤ now)
    (still : bank.state = .closed ∨ bank.state = .open) (issuable : ∀ i ∈ bank.activeSubArrayQueue,
      (bank.subArrays i).isIssuable params.toSubArrayParams now request = true) :
    Taken params now request (bank.precharge params now request latency) bank.activeSubArrayQueue := by
  have okWith : QueueOk params now { bank with
      nextPowerDown := max bank.nextPowerDown (now + params.tRP) } := { ok with }
  obtain ⟨subArrays, taken, okAfter, precharging, -⟩ :=
    okWith.prechargeQueue latency use type rfl issuable
  unfold DDR3Bank.precharge
  rw [if_neg (Nat.not_lt.mpr ready), if_neg fun both => still.elim both.1 both.2]
  simp only [type] at taken okAfter ⊢
  rw [taken]
  have after : queueAfter request bank.activeSubArrayQueue = [] := by
    unfold queueAfter
    rw [type]
  exact ⟨rfl, { okAfter with }, ⟨fun some => absurd rfl some, fun _ => .inl rfl⟩, after.symm, fun _ => precharging⟩

theorem queueAfter_power (type : request.type = .powerdownPda ∨ request.type = .powerdownPdpf ∨
    request.type = .powerdownPdps ∨ request.type = .powerup) (queue : List Nat) :
    queueAfter request queue = queue ∧ request.type ≠ .prechargeAll := by
  unfold queueAfter
  rcases type with type | type | type | type <;> rw [type] <;> exact ⟨rfl, nofun⟩

theorem powerDown_taken (ok : QueueOk params now bank) (state : StateOk bank)
    (type : request.type = .powerdownPda ∨ request.type = .powerdownPdpf ∨ request.type = .powerdownPdps)
    (ready : bank.nextPowerDown ≤ now)
    (still : bank.state = .closed ∨ bank.state = .open ∧ request.type = .powerdownPda) :
    Taken params now request (bank.powerDown params now request) bank.activeSubArrayQueue := by
  obtain ⟨after, single⟩ := queueAfter_power (type.imp id (Or.imp id .inl)) bank.activeSubArrayQueue
  unfold DDR3Bank.powerDown
  rw [if_pos ⟨ready, still.symm.imp And.left id⟩]
  rcases still with closed | ⟨opened, pda⟩
  · have none : bank.activeSubArrayQueue = [] := by
      simpa [closed] using state.open_iff
    simp only [closed]
    split
    · exact ⟨rfl, { ok with }, ⟨fun some => absurd none some, fun _ => .inr (.inr rfl)⟩, after.symm,
        fun all => absurd all single⟩
    · exact ⟨rfl, { ok with }, ⟨fun some => absurd none some, fun _ => .inr (.inl rfl)⟩, after.symm,
        fun all => absurd all single⟩
  · have some : bank.activeSubArrayQueue ≠ [] := state.open_iff.mp (.inl opened)
    simp only [opened, pda, if_pos]
    exact ⟨rfl, { ok with }, ⟨fun _ => .inr rfl, fun none => absurd none some⟩, after.symm,
      fun all => absurd all single⟩

theorem powerUp_taken (ok : QueueOk params now bank) (state : StateOk bank) (type : request.type = .powerup)
    (ready : bank.nextPowerUp ≤ now) (down : bank.state = .pdpf ∨ bank.state = .pdps ∨ bank.state = .pda) :
    Taken params now request (bank.powerUp params now) bank.activeSubArrayQueue := by
  obtain ⟨after, single⟩ := queueAfter_power (.inr (.inr (.inr type))) bank.activeSubArrayQueue
  unfold DDR3Bank.powerUp
  rw [if_pos ⟨ready, down⟩]
  refine ⟨rfl, { ok with }, ⟨fun some => ?_, fun none => ?_⟩, after.symm, fun all => absurd all single⟩
  · have pda : bank.state = .pda := by
      rcases state.opened some with other | other
      · rcases down with down | down | down <;> rw [down] at other <;> cases other
      · exact other
    exact .inl (if_pos pda)
  · have notPda : bank.state ≠ .pda := fun pda => state.open_iff.mp (.inr pda) none
    exact .inl (if_neg notPda)

/-- **A command that can be issued is taken**, by the bank and by every subarray it goes to. -/
theorem issueCommand_taken (latency : Nat → DeviceLatency) (ok : QueueOk params now bank)
    (state : StateOk bank) (use : params.usePrecharge = true) (inside : request.subarray < params.subArrayNum)
    (first : StartsFirst params.toSubArrayParams now (bank.subArrays request.subarray))
    (issuable : bank.isIssuable params now request = true) :
    Taken params now request (bank.issueCommand params now request latency) bank.activeSubArrayQueue := by
  unfold DDR3Bank.issueCommand
  rw [if_pos issuable]
  unfold DDR3Bank.isIssuable at issuable
  cases type : request.type with
  | activate =>
    simp only [type, Bool.and_eq_true, decide_eq_true_eq] at issuable ⊢
    obtain ⟨⟨⟨⟨ready, pdpf⟩, pdps⟩, -⟩, child⟩ := issuable
    exact activate_taken ok state use inside first child type ready ⟨pdpf, pdps⟩
  | read | readPrecharge =>
    simp only [type, Bool.and_eq_true, decide_eq_true_eq] at issuable ⊢
    obtain ⟨⟨ready, opened⟩, child⟩ := issuable
    exact read_taken ok state use inside first child (by simp [type]) ready opened
  | write | writePrecharge =>
    simp only [type, Bool.and_eq_true, decide_eq_true_eq] at issuable ⊢
    obtain ⟨⟨ready, opened⟩, child⟩ := issuable
    exact write_taken ok state use inside first child (by simp [type]) ready opened
  | precharge =>
    simp only [type, Bool.and_eq_true, Bool.or_eq_true, decide_eq_true_eq] at issuable ⊢
    obtain ⟨⟨ready, still⟩, child⟩ := issuable
    exact precharge_taken ok state use inside first child type ready still
  | prechargeAll =>
    simp only [type, Bool.and_eq_true, Bool.or_eq_true, decide_eq_true_eq, List.all_eq_true] at issuable ⊢
    obtain ⟨⟨ready, still⟩, children⟩ := issuable
    exact prechargeAll_taken ok use type ready still children
  | powerdownPda =>
    simp only [type, Bool.and_eq_true, Bool.or_eq_true, decide_eq_true_eq] at issuable ⊢
    obtain ⟨⟨ready, still⟩, -⟩ := issuable
    exact powerDown_taken ok state (.inl type) ready (still.imp id fun opened => ⟨opened, type⟩)
  | powerdownPdpf | powerdownPdps =>
    simp only [type, Bool.and_eq_true, decide_eq_true_eq] at issuable ⊢
    obtain ⟨⟨ready, closed⟩, -⟩ := issuable
    exact powerDown_taken ok state (by simp [type]) ready (.inl closed)
  | powerup =>
    simp only [type, Bool.and_eq_true, Bool.or_eq_true, decide_eq_true_eq] at issuable ⊢
    obtain ⟨⟨ready, down⟩, -⟩ := issuable
    exact powerUp_taken ok state type ready (or_assoc.mp down)
  | refresh =>
    simp only [type, Bool.and_eq_true, decide_eq_true_eq] at issuable ⊢
    obtain ⟨⟨ready, -⟩, child⟩ := issuable
    exact refresh_taken ok state use inside first child type ready
  | nop | busRead | busWrite | cachedRead | cachedWrite =>
    -- the subarray does not know the command
    simp only [type, SubArray.isIssuable] at issuable
    cases issuable

end Bank

/-! ### Every run -/

section Run

variable {params : BankParams} {run : BankRun}

theorem activeAfter_append (accepted : List DeviceRequest) (request : DeviceRequest) (i : Nat) :
    activeAfter (accepted ++ [request]) i = if request.type = .prechargeAll ∨ request.subarray = i then
      request.type.leavesActive (activeAfter accepted i) else activeAfter accepted i := by
  unfold activeAfter
  rw [List.foldl_append]
  rfl

theorem BankInv.issue (inv : BankInv params run) (use : params.usePrecharge = true) {request : DeviceRequest}
    {latency : Nat → DeviceLatency} (fits : run.Allowed params (.issue request latency)) :
    BankInv params (run.act params (.issue request latency)) := by
  cases issuable : run.bank.isIssuable params run.now request with
  | true =>
    have taken := issueCommand_taken latency inv.queue inv.state use fits.1 fits.2 issuable
    have result : run.act params (.issue request latency) = { run with
        bank := (run.bank.issueCommand params run.now request latency).1
        accepted := run.accepted ++ [request] } := by
      rw [BankRun.act]
      dsimp only
      rw [if_pos taken.success]
    rw [result]
    refine ⟨taken.queue, taken.state, fun i => ?_⟩
    have active : decide (i ∈ run.bank.activeSubArrayQueue) = activeAfter run.accepted i := by
      rw [Bool.eq_iff_iff, decide_eq_true_eq]
      exact inv.active i
    dsimp only
    rw [taken.after, mem_queueAfter inv.queue.nodup, activeAfter_append, active]
  | false =>
    have refused : run.bank.issueCommand params run.now request latency = (run.bank, false) := by
      unfold DDR3Bank.issueCommand
      rw [issuable, if_neg nofun]
    have same : run.act params (.issue request latency) = run := by
      rw [BankRun.act, refused]
      rfl
    rw [same]
    exact inv

theorem BankInv.complete (inv : BankInv params run) (use : params.usePrecharge = true) {subArray : Nat}
    {event : DeviceEvent} (fits : run.Allowed params (.complete subArray event)) :
    BankInv params (run.act params (.complete subArray event)) where
  queue := inv.queue.update fits.1 ((inv.queue.agrees subArray fits.1).deliver use fits.2.1) inv.queue.nodup
    fun _ _ => Iff.rfl
  state := { inv.state with }
  active := inv.active

theorem BankInv.tick (inv : BankInv params run) (fits : run.Allowed params .tick) :
    BankInv params (run.act params .tick) where
  queue := { inv.queue with agrees := fun i small => (inv.queue.agrees i small).tick (fits i small) }
  state := inv.state
  active := inv.active

theorem BankInv.act (use : params.usePrecharge = true) (run : BankRun) (action : BankAction)
    (fits : run.Allowed params action) (inv : BankInv params run) : BankInv params (run.act params action) := by
  cases action with
  | issue request latency => exact inv.issue use fits
  | complete subArray event => exact inv.complete use fits
  | tick => exact inv.tick fits

end Run

/-- **A bank and its subarrays agree**: after every run of commands and events, the queue has each subarray that
was activated and not precharged since once, and the bank is open if and only if there is one. No subarray has
refused a command and no assertion has failed; any command that can be issued succeeds, and `PRECHARGE_ALL` leaves
nothing behind. -/
theorem bank_agreement (params : BankParams) (use : params.usePrecharge = true) (actions : List BankAction)
    (allowed : AllowedRun (BankRun.act params) (BankRun.Allowed params) (.create params) actions) :
    let run := runActions (BankRun.act params) (.create params) actions
    let bank := run.bank
    bank.activeSubArrayQueue.Nodup ∧
      (∀ i, i ∈ bank.activeSubArrayQueue ↔ activeAfter run.accepted i = true) ∧
      (bank.state = .open ∨ bank.state = .pda ↔ bank.activeSubArrayQueue ≠ []) ∧
      bank.failures = [] ∧
      ∀ request latency, run.Allowed params (.issue request latency) →
        bank.isIssuable params run.now request = true →
        let (next, success) := bank.issueCommand params run.now request latency
        success = true ∧ next.failures = [] ∧
          (request.type = .prechargeAll → next.activeSubArrayQueue = [] ∧
            ∀ i ∈ bank.activeSubArrayQueue, (next.subArrays i).state = .precharging) := by
  intro run bank
  have inv : BankInv params run := allowed.invariant (BankInv params) (BankInv.act use) (.create params)
  refine ⟨inv.queue.nodup, inv.active, inv.state.open_iff, inv.queue.failures, ?_⟩
  intro request latency fits issuable
  have taken := issueCommand_taken latency inv.queue inv.state use fits.1 fits.2 issuable
  refine ⟨taken.success, taken.queue.failures, fun all => ⟨?_, taken.precharged all⟩⟩
  refine taken.after.trans ?_
  unfold queueAfter
  rw [all]

/-- Two subarrays, with the default timing. -/
def twoSubArrays : BankParams where
  toSubArrayParams := defaultSubArray
  subArrayNum := 2
  initPD := false
  tRDPDEN := 24
  tWRPDEN := 19
  tPD := 6
  tXP := 6
  tXPDLL := 17

/-- Both subarrays are activated, the first is read with `READ_PRECHARGE` in cycle 9, which closes it; `tRAS` of
the second has passed at the end. -/
def readFirst : List BankAction :=
  let latency : Nat → DeviceLatency := fun _ => ⟨0, 0, 0, 0⟩
  let request : DeviceOp → Nat → DeviceRequest := fun type subarray => ⟨type, 0, 0, 0, subarray, 1⟩
  List.flatten [[.issue (request .activate 0) latency, .issue (request .activate 1) latency], List.replicate 9 .tick,
    [.complete 0 ⟨9, request .activate 0, true, 0⟩, .complete 1 ⟨9, request .activate 1, true, 0⟩,
      .issue (request .readPrecharge 0) latency], List.replicate 5 .tick,
    [.complete 0 ⟨14, request .readPrecharge 0, true, 0⟩], List.replicate 5 .tick,
    [.complete 0 ⟨19, request .busWrite 0, true, 0⟩], List.replicate 4 .tick,
    [.complete 0 ⟨23, request .readPrecharge 0, false, 0⟩, .complete 0 ⟨23, request .precharge 0, true, 0⟩, .tick]]

/-- After that run the second subarray is active, and `PRECHARGE_ALL` can be issued and closes it. -/
theorem bank_agreement_readFirst :
    let run := runActions (BankRun.act twoSubArrays) (.create twoSubArrays) readFirst
    run.bank.activeSubArrayQueue = [1] ∧
      (∀ i, i ∈ run.bank.activeSubArrayQueue ↔ activeAfter run.accepted i = true) ∧
      (run.bank.issueCommand twoSubArrays run.now ⟨.prechargeAll, 0, 0, 0, 1, 1⟩
        fun _ => ⟨0, 0, 0, 0⟩).1.activeSubArrayQueue = [] := by
  have agreement := bank_agreement twoSubArrays rfl readFirst (by decide +kernel)
  exact ⟨by decide +kernel, agreement.2.1,
    ((agreement.2.2.2.2 ⟨.prechargeAll, 0, 0, 0, 1, 1⟩ (fun _ => ⟨0, 0, 0, 0⟩) (by decide +kernel)
      (by decide +kernel)).2.2 rfl).1⟩

end Emas.Nvmain

/-
**Row timing of a subarray.**

A subarray in a run: commands of any kind, accepted or not, the events that come due, and the clock. `log` has
what happens to the rows, in order: the activations, the column accesses, the precharges, and the implicit
precharges when they start. The clock does not pass an event; within a cycle commands and events come in any
order, only that for `tRP = 0` an implicit precharge that is due comes first, as in the event queue, where an
`EventResponse` goes before the callbacks that issue commands.
-/

import Emas.Lib.ActionRun
import Emas.Lib.Spacing
import Emas.Nvmain.SubArray

namespace Emas.Nvmain

/-! ### Runs of a subarray -/

/-- What happens to the rows. -/
inductive RowKind where
  | activate
  | column
  | precharge
  | autoPrecharge
  deriving DecidableEq, Repr

/-- What an accepted command does to the rows. -/
def DeviceOp.rowKind : DeviceOp → Option RowKind
  | .activate => some .activate
  | .read | .readPrecharge | .write | .writePrecharge => some .column
  | .precharge | .prechargeAll => some .precharge
  | _ => none

/-- A subarray, the current cycle, and what has happened to its rows. -/
structure SubArrayRun where
  device : SubArray
  now : Nat
  log : List (Timed RowKind)

/-- A command to the subarray, an event that comes due, or the next cycle. -/
inductive SubArrayAction where
  | issue (request : DeviceRequest) (latency : DeviceLatency)
  | complete (event : DeviceEvent)
  | tick

namespace SubArrayRun

def create : SubArrayRun := ⟨.create, 0, []⟩

variable (params : SubArrayParams) (run : SubArrayRun)

/-- The log after something has happened now. -/
def note (kind : Option RowKind) : List (Timed RowKind) := run.log ++ (kind.map (⟨run.now, ·⟩)).toList

/-- What an action leaves. -/
def act : SubArrayAction → SubArrayRun
  | .issue request latency =>
    let (device, success) := run.device.issueCommand params run.now request latency
    { run with device := device, log := if success then run.note request.type.rowKind else run.log }
  | .complete event =>
    { run with
      device := run.device.deliver params run.now event
      log := run.note (if event.startsPrecharge then some .autoPrecharge else none) }
  | .tick => { run with now := run.now + 1 }

/-- An event is delivered when it is due, and before the clock goes on; with `tRP = 0`, an implicit precharge
before the commands of its cycle. -/
def Allowed : SubArrayAction → Prop
  | .issue _ _ => params.tRP = 0 → ∀ event ∈ run.device.events, event.startsPrecharge = true →
      run.now < event.cycle
  | .complete event => event ∈ run.device.events ∧ event.cycle ≤ run.now
  | .tick => ∀ event ∈ run.device.events, run.now < event.cycle

instance : ∀ action, Decidable (run.Allowed params action)
  | .issue _ _ => inferInstanceAs (Decidable (_ → _))
  | .complete _ => inferInstanceAs (Decidable (_ ∧ _))
  | .tick => inferInstanceAs (Decidable (∀ _ ∈ _, _))

/-- When the implicit precharge of an access starts. -/
def autoStart (request : DeviceRequest) (latency : DeviceLatency) : Nat :=
  if request.type = .readPrecharge then SubArray.readPrechargeStart params run.now request latency
  else run.device.writePrechargeStart params run.now request latency

/-- An access with implicit precharge, if it is accepted, is so late that the precharge starts at least `least`
cycles after every `ACTIVATE`. -/
def StartsLate (least : Nat) : SubArrayAction → Prop
  | .issue request latency =>
    (request.type = .readPrecharge ∨ request.type = .writePrecharge) →
      run.device.isIssuable params run.now request = true →
      ∀ earlier ∈ run.log, earlier.kind = .activate → earlier.cycle + least ≤ run.autoStart params request latency
  | _ => True

instance (least : Nat) : ∀ action, Decidable (run.StartsLate params least action)
  | .issue _ _ => inferInstanceAs (Decidable (_ → _ → _))
  | .complete _ | .tick => isTrue trivial

end SubArrayRun

/-- The gaps: `tRCD - tAL` before a column access, `tRP` before an activation, `max tRCD tRAS` before a
precharge, and some number of cycles before an implicit precharge. -/
def rowGap (params : SubArrayParams) (autoGap : Nat) : RowKind → RowKind → Nat
  | .activate, .column => params.tRCD - params.tAL
  | .activate, .precharge => max params.tRCD params.tRAS
  | .activate, .autoPrecharge => autoGap
  | .precharge, .activate | .autoPrecharge, .activate => params.tRP
  | _, _ => 0

/-! ### The invariant -/

/-- Every register guards its kind of occurrence; an implicit precharge that waits keeps its own gap, and
`nextActivate` is behind its end. -/
structure RowInv (params : SubArrayParams) (autoGap : Nat) (run : SubArrayRun) : Prop where
  past : ∀ earlier ∈ run.log, earlier.cycle ≤ run.now
  respects : Respects (rowGap params autoGap) run.log
  activate : Guards (rowGap params autoGap) run.log .activate run.device.nextActivate
  read : Guards (rowGap params autoGap) run.log .column run.device.nextRead
  write : Guards (rowGap params autoGap) run.log .column run.device.nextWrite
  precharge : Guards (rowGap params autoGap) run.log .precharge run.device.nextPrecharge
  waiting : ∀ event ∈ run.device.changing, event.startsPrecharge = true → run.now ≤ event.cycle ∧
    event.cycle + params.tRP ≤ run.device.nextActivate ∧
    Guards (rowGap params autoGap) run.log .autoPrecharge event.cycle

section Steps

variable {params : SubArrayParams} {autoGap : Nat} {run : SubArrayRun}

theorem RowInv.create (params : SubArrayParams) (autoGap : Nat) : RowInv params autoGap .create where
  past := nofun
  respects := respects_nil
  activate := guards_nil
  read := guards_nil
  write := guards_nil
  precharge := guards_nil
  waiting := nofun

theorem RowInv.grow (inv : RowInv params autoGap run) (device : SubArray) (grows : run.device.Grows device)
    (waiting : ∀ event ∈ device.changing, event.startsPrecharge = true →
      event ∈ run.device.changing ∨ run.now ≤ event.cycle ∧ event.cycle + params.tRP ≤ device.nextActivate ∧
        Guards (rowGap params autoGap) run.log .autoPrecharge event.cycle) :
    RowInv params autoGap { run with device := device } where
  past := inv.past
  respects := inv.respects
  activate := inv.activate.mono grows.nextActivate
  read := inv.read.mono grows.nextRead
  write := inv.write.mono grows.nextWrite
  precharge := inv.precharge.mono grows.nextPrecharge
  waiting := fun event member starts => by
    rcases waiting event member starts with old | new
    · obtain ⟨due, behind, guards⟩ := inv.waiting event old starts
      exact ⟨due, Nat.le_trans behind grows.nextActivate, guards⟩
    · exact new

theorem RowInv.note (inv : RowInv params autoGap run) (kind : RowKind) {register : Nat}
    (guards : Guards (rowGap params autoGap) run.log kind register) (behind : register ≤ run.now)
    (activate : rowGap params autoGap kind .activate = 0 ∨
      run.now + rowGap params autoGap kind .activate ≤ run.device.nextActivate)
    (read : rowGap params autoGap kind .column = 0 ∨ run.now + rowGap params autoGap kind .column ≤ run.device.nextRead)
    (write : rowGap params autoGap kind .column = 0 ∨
      run.now + rowGap params autoGap kind .column ≤ run.device.nextWrite)
    (precharge : rowGap params autoGap kind .precharge = 0 ∨
      run.now + rowGap params autoGap kind .precharge ≤ run.device.nextPrecharge)
    (waiting : ∀ event ∈ run.device.changing, event.startsPrecharge = true →
      rowGap params autoGap kind .autoPrecharge = 0 ∨
        run.now + rowGap params autoGap kind .autoPrecharge ≤ event.cycle) :
    RowInv params autoGap { run with log := run.note (some kind) } where
  past := fun earlier member => by
    rcases List.mem_append.mp member with old | new
    · exact inv.past earlier old
    · obtain rfl := List.mem_singleton.mp new
      exact Nat.le_refl _
  respects := inv.respects.append guards behind inv.past
  activate := inv.activate.append activate
  read := inv.read.append read
  write := inv.write.append write
  precharge := inv.precharge.append precharge
  waiting := fun event member starts => by
    obtain ⟨due, behind, guards⟩ := inv.waiting event member starts
    exact ⟨due, behind, guards.append (waiting event member starts)⟩

theorem RowInv.not_waiting (inv : RowInv params autoGap run) (ready : run.device.nextActivate ≤ run.now)
    (first : params.tRP = 0 → ∀ event ∈ run.device.events, event.startsPrecharge = true → run.now < event.cycle)
    {event : DeviceEvent} (member : event ∈ run.device.changing) : event.startsPrecharge = false := by
  by_contra starts
  rw [Bool.not_eq_false] at starts
  obtain ⟨due, behind, -⟩ := inv.waiting event member starts
  have none : params.tRP = 0 := by omega
  have later := first none event (List.mem_filter.mp member).1 starts
  omega

variable {request : DeviceRequest}

theorem RowInv.openRow (inv : RowInv params autoGap run) (latencyFits : params.tAL ≤ params.tRCD)
    (type : request.type = .activate) (ready : run.device.nextActivate ≤ run.now)
    (first : params.tRP = 0 → ∀ event ∈ run.device.events, event.startsPrecharge = true → run.now < event.cycle) :
    RowInv params autoGap { run with
      device := run.device.openRowOf params run.now request
      log := run.note (some .activate) } := by
  have column : run.now + (params.tRCD - params.tAL) = minusCycles (run.now + params.tRCD) params.tAL := by
    unfold minusCycles
    rw [if_pos (by omega)]
    omega
  have grown := inv.grow (run.device.openRowOf params run.now request) SubArray.openRowOf_grows
    fun event member _ => .inl (SubArray.openRowOf_changing type ▸ member)
  refine grown.note .activate inv.activate ready (.inl rfl) (.inr ?_) (.inr ?_) (.inr ?_) fun event member starts => ?_
  · exact Nat.le_trans (Nat.le_of_eq column) (Nat.le_max_right ..)
  · exact Nat.le_trans (Nat.le_of_eq column) (Nat.le_max_right ..)
  · exact Nat.le_max_right ..
  · have member : event ∈ run.device.changing := SubArray.openRowOf_changing type ▸ member
    rw [inv.not_waiting ready first member] at starts
    cases starts

theorem RowInv.access (inv : RowInv params autoGap run) {device : SubArray} (grows : run.device.Grows device)
    {register : Nat} (guards : Guards (rowGap params autoGap) run.log .column register)
    (ready : register ≤ run.now) {start : Nat} {auto : Prop} [Decidable auto]
    (changing : device.changing = run.device.changing ++ if auto then [⟨start, request, true, 0⟩] else [])
    (behind : auto → device.Behind (start + params.tRP)) (later : run.now ≤ start)
    (late : auto → autoGap = 0 ∨ ∀ earlier ∈ run.log, earlier.kind = .activate → earlier.cycle + autoGap ≤ start) :
    RowInv params autoGap { run with device := device, log := run.note (some .column) } := by
  have grown := inv.grow device grows fun event member starts => by
    rw [changing] at member
    rcases List.mem_append.mp member with old | new
    · exact .inl old
    · split at new
      · rename_i isAuto
        rw [List.mem_singleton.mp new]
        refine .inr ⟨later, (behind isAuto).nextActivate, fun earlier member => ?_⟩
        cases kind : earlier.kind with
        | activate => exact (late isAuto).imp id fun apart => apart earlier member kind
        | column | precharge | autoPrecharge => exact .inl rfl
      · cases new
  exact grown.note .column guards ready (.inl rfl) (.inl rfl) (.inl rfl) (.inl rfl) fun _ _ _ => .inl rfl

theorem RowInv.busy (inv : RowInv params autoGap run)
    (type : request.type = .precharge ∨ request.type = .prechargeAll ∨ request.type = .refresh)
    (timer : Nat) (state : SubArrayState) :
    RowInv params autoGap { run with device := run.device.busyFor run.now request timer state } := by
  refine inv.grow _ SubArray.busyFor_grows fun event member starts => ?_
  rw [SubArray.busyFor_changing type] at member
  rcases List.mem_append.mp member with old | new
  · exact .inl old
  · rw [List.mem_singleton.mp new] at starts
    rcases type with type | type | type <;> simp [DeviceEvent.startsPrecharge, type] at starts

/-- **A command is issued.** -/
theorem RowInv.issue (inv : RowInv params autoGap run) (latencyFits : params.tAL ≤ params.tRCD)
    {latency : DeviceLatency} (allowed : run.Allowed params (.issue request latency))
    (late : autoGap = 0 ∨ run.StartsLate params autoGap (.issue request latency)) :
    RowInv params autoGap (run.act params (.issue request latency)) := by
  cases issuable : run.device.isIssuable params run.now request with
  | false =>
    rw [SubArrayRun.act, SubArray.issueCommand_refused _ _ _ _ _ issuable]
    exact inv
  | true =>
    obtain ⟨taken, effect⟩ := SubArray.issueCommand_effect latency issuable
    rw [SubArrayRun.act]
    dsimp only
    rw [taken, if_pos rfl]
    generalize (run.device.issueCommand params run.now request latency).1 = next at effect ⊢
    cases effect with
    | activate type ready idle =>
      rw [type]
      exact inv.openRow latencyFits type ready allowed
    | read type ready active =>
      obtain ⟨grows, behind⟩ := @SubArray.readRow_registers params run.device run.now request latency
      have kind : request.type.rowKind = some .column := by
        rcases type with type | type <;> rw [type] <;> rfl
      rw [kind]
      refine inv.access grows inv.read ready SubArray.readRow_changing behind SubArray.le_readPrechargeStart
        fun auto => late.imp id fun late => ?_
      have apart := late (.inl auto) issuable
      rwa [SubArrayRun.autoStart, if_pos auto] at apart
    | write type ready active =>
      obtain ⟨grows, behind⟩ := @SubArray.writeRow_registers params run.device run.now request latency
      have kind : request.type.rowKind = some .column := by
        rcases type with type | type <;> rw [type] <;> rfl
      rw [kind]
      refine inv.access grows inv.write ready SubArray.writeRow_changing behind SubArray.le_writePrechargeStart
        fun auto => late.imp id fun late => ?_
      have apart := late (.inr auto) issuable
      rwa [SubArrayRun.autoStart, if_neg (by rw [auto]; nofun)] at apart
    | precharge type ready still =>
      have kind : request.type.rowKind = some .precharge := by
        rcases type with type | type <;> rw [type] <;> rfl
      have timer : params.tRP ≤ run.device.prechargeTimer params latency := by
        unfold SubArray.prechargeTimer
        split <;> omega
      rw [kind]
      refine (inv.busy (type.imp id .inl) _ _).note .precharge inv.precharge ready (.inr ?_) (.inl rfl) (.inl rfl)
        (.inl rfl) fun _ _ _ => .inl rfl
      exact Nat.le_trans (Nat.add_le_add_left timer _) (Nat.le_max_right ..)
    | refresh type ready idle =>
      rw [type]
      have busy := inv.busy (.inr (.inr type)) params.tRFC .refreshing
      rwa [← List.append_nil run.log] at busy
    | power type =>
      have kind : request.type.rowKind = none := by
        rcases type with type | type | type | type <;> rw [type] <;> rfl
      rw [kind, SubArrayRun.note, Option.map_none, Option.toList_none, List.append_nil]
      exact inv

/-- **An event is delivered.** -/
theorem RowInv.complete (inv : RowInv params autoGap run) {event : DeviceEvent}
    (allowed : run.Allowed params (.complete event)) : RowInv params autoGap (run.act params (.complete event)) := by
  obtain ⟨member, due⟩ := allowed
  obtain ⟨activate, precharge, read, write⟩ :=
    @SubArray.deliver_registers params run.device run.now event
  have delivered := inv.grow (run.device.deliver params run.now event)
    ⟨Nat.le_of_eq activate.symm, Nat.le_of_eq precharge.symm, Nat.le_of_eq read.symm, Nat.le_of_eq write.symm⟩
    fun other member starts => by
      rw [SubArray.deliver_changing] at member
      rcases List.mem_append.mp member with old | new
      · exact .inl (List.mem_of_mem_erase old)
      · split at new
        · rw [List.mem_singleton.mp new] at starts
          cases starts
        · cases new
  rw [SubArrayRun.act]
  cases starts : event.startsPrecharge with
  | false =>
    rw [if_neg nofun, SubArrayRun.note, Option.map_none, Option.toList_none, List.append_nil]
    exact delivered
  | true =>
    have waits : event ∈ run.device.changing :=
      List.mem_filter.mpr ⟨member, by rw [DeviceEvent.changesState, starts, Bool.true_or]⟩
    obtain ⟨later, behind, guards⟩ := inv.waiting event waits starts
    rw [if_pos rfl]
    refine delivered.note .autoPrecharge guards due (.inr ?_) (.inl rfl) (.inl rfl) (.inl rfl) fun _ _ _ => .inl rfl
    dsimp only
    rw [activate]
    exact Nat.le_trans (Nat.add_le_add_right later _) behind

/-- **The clock goes on.** -/
theorem RowInv.tick (inv : RowInv params autoGap run) (allowed : run.Allowed params .tick) :
    RowInv params autoGap (run.act params .tick) where
  past := fun earlier member => Nat.le_succ_of_le (inv.past earlier member)
  respects := inv.respects
  activate := inv.activate
  read := inv.read
  write := inv.write
  precharge := inv.precharge
  waiting := fun event member starts =>
    ⟨allowed event (List.mem_filter.mp member).1, (inv.waiting event member starts).2⟩

theorem RowInv.act (inv : RowInv params autoGap run) (latencyFits : params.tAL ≤ params.tRCD)
    {action : SubArrayAction} (allowed : run.Allowed params action)
    (late : autoGap = 0 ∨ run.StartsLate params autoGap action) : RowInv params autoGap (run.act params action) := by
  cases action with
  | issue request latency => exact inv.issue latencyFits allowed late
  | complete event => exact inv.complete allowed
  | tick => exact inv.tick allowed

end Steps

/-- **Row timing.** In every run a column access comes `tRCD - tAL` after the `ACTIVATE` or later, a `PRECHARGE`
`max tRCD tRAS` after it, and an `ACTIVATE` comes `tRP` after the start of a precharge of either kind. If every
access with implicit precharge comes so late that its precharge starts `max tRCD tRAS` after every `ACTIVATE`,
the implicit precharges keep that distance too. -/
theorem row_timing (params : SubArrayParams) (latencyFits : params.tAL ≤ params.tRCD) (actions : List SubArrayAction)
    (allowed : AllowedRun (SubArrayRun.act params) (SubArrayRun.Allowed params) .create actions) :
    Respects (rowGap params 0) (runActions (SubArrayRun.act params) .create actions).log ∧
    (AllowedRun (SubArrayRun.act params)
        (fun run => run.StartsLate params (max params.tRCD params.tRAS)) .create actions →
      Respects (rowGap params (max params.tRCD params.tRAS))
        (runActions (SubArrayRun.act params) .create actions).log) := by
  constructor
  · exact (allowed.invariant (RowInv params 0) (fun _ _ fits inv => inv.act latencyFits fits (.inl rfl))
      (RowInv.create params 0)).respects
  · intro late
    exact ((allowed.and late).invariant (RowInv params (max params.tRCD params.tRAS))
      (fun _ _ fits inv => inv.act latencyFits fits.1 (.inr fits.2)) (RowInv.create params _)).respects

/-- Row 0 is activated in cycle 0 and read with `READ_PRECHARGE` some cycles after `tRCD`; the implicit precharge
starts. -/
def readAfter (cycles : Nat) : List SubArrayAction :=
  List.flatten [[.issue ⟨.activate, 0, 0, 0, 0, 1⟩ ⟨0, 0, 0, 0⟩], List.replicate 9 .tick,
    [.complete ⟨9, ⟨.activate, 0, 0, 0, 0, 1⟩, true, 0⟩], List.replicate cycles .tick,
    [.issue ⟨.readPrecharge, 0, 0, 0, 0, 1⟩ ⟨0, 0, 0, 0⟩], List.replicate 5 .tick,
    [.complete ⟨cycles + 14, ⟨.readPrecharge, 0, 0, 0, 0, 1⟩, true, 0⟩]]

/-- A read in cycle 19 is late enough: its precharge starts in cycle 24. -/
theorem row_timing_readAfter : Respects (rowGap defaultSubArray (max defaultSubArray.tRCD defaultSubArray.tRAS))
    (runActions (SubArrayRun.act defaultSubArray) .create (readAfter 10)).log :=
  (row_timing defaultSubArray (by decide) (readAfter 10) (by decide +kernel)).2 (by decide +kernel)

/-- **An implicit precharge that starts too early.** With the default parameters, a read in cycle 9, as soon as
`tRCD` allows it, starts its precharge in cycle 14, ten cycles before `tRAS`. -/
theorem precharge_before_tRAS :
    AllowedRun (SubArrayRun.act defaultSubArray) (SubArrayRun.Allowed defaultSubArray) .create (readAfter 0) ∧
    (runActions (SubArrayRun.act defaultSubArray) .create (readAfter 0)).log =
      [⟨0, .activate⟩, ⟨9, .column⟩, ⟨14, .autoPrecharge⟩] ∧
    ¬Respects (rowGap defaultSubArray (max defaultSubArray.tRCD defaultSubArray.tRAS))
      (runActions (SubArrayRun.act defaultSubArray) .create (readAfter 0)).log := by
  have log : (runActions (SubArrayRun.act defaultSubArray) .create (readAfter 0)).log =
      [⟨0, .activate⟩, ⟨9, .column⟩, ⟨14, .autoPrecharge⟩] := by decide +kernel
  refine ⟨by decide +kernel, log, ?_⟩
  rw [log]
  unfold Respects
  decide

end Emas.Nvmain

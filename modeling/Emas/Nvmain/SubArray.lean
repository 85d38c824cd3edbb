/-
**Subarrays.**

`class SubArray` with write pausing off. `events` are the `EventResponse`s that the subarray has put into the
event queue and not yet received; one that it `owns` it takes itself, the others it passes to the bank. The
latencies that the data encoder, the endurance model and the cells ask for are inputs of a command
(`DeviceLatency`). `writeRequest` is the write in progress, by the number of writes before it, as the code
knows it by pointer. Energies, statistics and the simulated data are left out, and printed text.

* `readRow_registers`, `writeRow_registers`: the registers only grow, and behind an access with implicit
  precharge they are past the end of the precharge.
-/

import Emas.Nvmain.DeviceData

namespace Emas.Nvmain

/-- What `SetConfig` reads. -/
structure SubArrayParams where
  rows : Nat
  usePrecharge : Bool
  writeBack : Bool
  tRCD : Nat
  tRAS : Nat
  tRP : Nat
  tAL : Nat
  tRTP : Nat
  tBURST : Nat
  tCCD : Nat
  tCAS : Nat
  tCWD : Nat
  tRTRS : Nat
  tWTR : Nat
  tWR : Nat
  tRFC : Nat

/-- The timing parameters of `Params( )`. -/
def defaultSubArray : SubArrayParams where
  rows := 65536
  usePrecharge := true
  writeBack := false
  tRCD := 9
  tRAS := 24
  tRP := 9
  tAL := 0
  tRTP := 5
  tBURST := 4
  tCCD := 4
  tCAS := 10
  tCWD := 7
  tRTRS := 1
  tWTR := 5
  tWR := 10
  tRFC := 107

/-- The cycles that the encoder asks for in a read, and those of a write: the cells, the encoder, the
endurance model. -/
structure DeviceLatency where
  decLat : Nat
  cellData : Nat
  encLat : Nat
  endrLat : Nat
  deriving DecidableEq, Repr

/-- `enum SubArrayState`. -/
inductive SubArrayState where
  | unknown
  | «open»
  | closed
  | precharging
  | refreshing
  deriving DecidableEq, Repr

/-- An `EventResponse`: its cycle, the request, whether its owner is the subarray, and for a write which one
it is. -/
structure DeviceEvent where
  cycle : Nat
  request : DeviceRequest
  owned : Bool
  id : Nat
  deriving DecidableEq, Repr

namespace DeviceEvent

variable (event : DeviceEvent)

/-- The event starts an implicit precharge. -/
def startsPrecharge : Bool :=
  event.owned && (event.request.type = .readPrecharge || event.request.type = .writePrecharge)

/-- The event ends a precharge or a refresh. -/
def endsBusy : Bool :=
  event.owned && (event.request.type = .precharge || event.request.type = .prechargeAll ||
    event.request.type = .refresh)

def changesState : Bool := event.startsPrecharge || event.endsBusy

end DeviceEvent

/-- `class SubArray`. -/
structure SubArray where
  state : SubArrayState
  nextActivate : Nat
  nextPrecharge : Nat
  nextRead : Nat
  nextWrite : Nat
  nextPowerDown : Nat
  openRow : Nat
  lastActivate : Nat
  writeCycle : Bool
  isWriting : Bool
  writeRequest : Nat
  writes : Nat
  events : List DeviceEvent

namespace SubArray

/-- `SubArray( )`. -/
def create : SubArray where
  state := .closed
  nextActivate := 0
  nextPrecharge := 0
  nextRead := 0
  nextWrite := 0
  nextPowerDown := 0
  openRow := 0
  lastActivate := 0
  writeCycle := false
  isWriting := false
  writeRequest := 0
  writes := 0
  events := []

variable (params : SubArrayParams) (device : SubArray) (now : Nat) (request : DeviceRequest)
  (latency : DeviceLatency)

/-- `GetEventQueue( )->InsertEvent( EventResponse, this, req, cycle )`. -/
def insertEvent (event : DeviceEvent) : SubArray := { device with events := device.events ++ [event] }

/-- An activation that passes its checks. -/
def openRowOf : SubArray :=
  let device := { device with
    nextPrecharge := max device.nextPrecharge (now + max params.tRCD params.tRAS)
    nextRead := max device.nextRead (minusCycles (now + params.tRCD) params.tAL)
    nextWrite := max device.nextWrite (minusCycles (now + params.tRCD) params.tAL)
    nextPowerDown := max device.nextPowerDown (now + max params.tRCD params.tRAS) }
  let device := device.insertEvent ⟨now + params.tRCD, request, true, 0⟩
  { device with
    openRow := request.row
    state := .open
    writeCycle := false
    lastActivate := now }

/-- `Activate( request )`. -/
def activate : SubArray × Bool :=
  if now < device.nextActivate then (device, false)
  else if params.usePrecharge ∧ device.state ≠ .closed then (device, false)
  else (device.openRowOf params now request, true)

/-- The cycles of all bursts but the last one. -/
def bursts : Nat := max params.tBURST params.tCCD * minusCycles request.burstCount 1

/-- When the implicit precharge of a read starts. -/
def readPrechargeStart : Nat :=
  now + params.tAL + params.tRTP + latency.decLat + bursts params request

/-- What an access with implicit precharge does: the registers, and the event that starts the precharge. -/
def prechargeLater (nextActivate start : Nat) : SubArray :=
  let nextActivate := max device.nextActivate nextActivate
  { device with
    nextActivate := nextActivate
    nextPrecharge := max device.nextPrecharge nextActivate
    nextRead := max device.nextRead nextActivate
    nextWrite := max device.nextWrite nextActivate }.insertEvent ⟨start, request, true, 0⟩

/-- The registers after a read. -/
def readTiming : SubArray :=
  let decLat := latency.decLat
  let bursts := bursts params request
  if request.type = .readPrecharge then
    device.prechargeLater request (now + bursts + params.tAL + params.tRTP + params.tRP + decLat)
      (readPrechargeStart params now request latency)
  else
    { device with
      nextPrecharge := max device.nextPrecharge
        (minusCycles (now + bursts + params.tAL + params.tBURST + params.tRTP + decLat) params.tCCD)
      nextRead := max device.nextRead (now + max params.tBURST params.tCCD * request.burstCount)
      nextWrite := max device.nextWrite
        (minusCycles (now + bursts + params.tCAS + params.tBURST + params.tRTRS + decLat) params.tCWD) }

/-- A read that passes its checks. -/
def readRow : SubArray :=
  let decLat := latency.decLat
  let device := device.readTiming params now request latency
  let device := { device with
    nextPowerDown := max device.nextPowerDown
      (now + bursts params request + params.tCAS + params.tAL + params.tBURST + 1 + decLat) }
  let device := device.insertEvent ⟨now + params.tCAS + decLat, { request with type := .busWrite }, true, 0⟩
  device.insertEvent ⟨now + params.tCAS + params.tBURST + decLat, request, false, 0⟩

/-- `Read( request )`. -/
def read : SubArray × Bool :=
  if now < device.nextRead then (device, false)
  else if device.state ≠ .open then (device, false)
  else if request.row ≠ device.openRow then (device, false)
  else (device.readRow params now request latency, true)

/-- The time of a write: none for a further write to the row buffer. -/
def writeTimer : Nat :=
  let writeTimer := if params.writeBack && device.writeCycle then 0 else latency.cellData
  if params.writeBack then writeTimer else writeTimer + latency.encLat + latency.endrLat

/-- When the implicit precharge of a write starts. -/
def writePrechargeStart : Nat :=
  now + bursts params request + params.tAL + params.tCWD + params.tBURST + device.writeTimer params latency + params.tWR

/-- The registers after a write. -/
def writeTiming : SubArray :=
  let timer := device.writeTimer params latency
  let start := device.writePrechargeStart params now request latency
  if request.type = .writePrecharge then device.prechargeLater request (start + params.tRP) start
  else
    { device with
      nextPrecharge := max device.nextPrecharge start
      nextRead := max device.nextRead
        (now + bursts params request + params.tCWD + params.tBURST + params.tWTR + timer)
      nextWrite := max device.nextWrite
        (now + max params.tBURST params.tCCD * request.burstCount + timer) }

/-- A write that passes its checks. -/
def writeRow : SubArray :=
  let timer := device.writeTimer params latency
  let device := device.writeTiming params now request latency
  let id := device.writes + 1
  let device := { device with
    nextPowerDown := max device.nextPowerDown device.nextPrecharge
    isWriting := true
    writeRequest := id }
  let device := device.insertEvent ⟨now + params.tCWD, { request with type := .busRead }, true, 0⟩
  let device := device.insertEvent
    ⟨now + params.tCWD + max params.tBURST params.tCCD * request.burstCount + timer, request, false, id⟩
  { device with
    writeCycle := true
    writes := id }

/-- `Write( request )`. -/
def write : SubArray × Bool :=
  if now < device.nextWrite then (device, false)
  else if device.state ≠ .open then (device, false)
  else if request.row ≠ device.openRow then (device, false)
  else (device.writeRow params now request latency, true)

/-- The time of a precharge; a row buffer that was written is written back. -/
def prechargeTimer : Nat :=
  if params.writeBack && device.writeCycle then
    max 1 (params.tRP + latency.cellData) + latency.encLat + latency.endrLat
  else max 1 params.tRP

/-- The subarray is busy for some time, which an event of its own ends. -/
def busyFor (timer : Nat) (state : SubArrayState) : SubArray :=
  let device := { device with nextActivate := max device.nextActivate (now + timer) }
  let device := device.insertEvent ⟨now + timer, request, true, 0⟩
  { device with state := state }

/-- `Precharge( request )`. -/
def precharge : SubArray × Bool :=
  if now < device.nextPrecharge then (device, false)
  else if device.state ≠ .closed ∧ device.state ≠ .open then (device, false)
  else (device.busyFor now request (device.prechargeTimer params latency) .precharging, true)

/-- `Refresh( request )`. -/
def refresh : SubArray × Bool :=
  if now < device.nextActivate then (device, false)
  else if device.state ≠ .closed ∧ params.usePrecharge then (device, false)
  else (device.busyFor now request params.tRFC .refreshing, true)

/-- `IsIssuable( req, reason )`. -/
def isIssuable : Bool :=
  match request.type with
  | .activate => device.nextActivate ≤ now && (!params.usePrecharge || device.state = .closed)
  | .read | .readPrecharge => device.nextRead ≤ now && device.state = .open && request.row = device.openRow
  | .write | .writePrecharge => device.nextWrite ≤ now && device.state = .open && request.row = device.openRow
  | .precharge | .prechargeAll =>
    device.nextPrecharge ≤ now && (device.state = .open || device.state = .closed)
  | .powerdownPda | .powerdownPdpf | .powerdownPdps => device.nextPowerDown ≤ now && !device.isWriting
  | .powerup => true
  | .refresh => device.nextActivate ≤ now && (device.state = .closed || !params.usePrecharge)
  | _ => false

/-- `IssueCommand( req )`. -/
def issueCommand : SubArray × Bool :=
  if device.isIssuable params now request then
    match request.type with
    | .activate => device.activate params now request
    | .read | .readPrecharge => device.read params now request latency
    | .write | .writePrecharge => device.write params now request latency
    | .precharge | .prechargeAll => device.precharge params now request latency
    | .refresh => device.refresh params now request
    | _ => (device, true)
  else (device, false)

/-- `RequestComplete( req )`, of an event that has left the queue. -/
def requestComplete (event : DeviceEvent) : SubArray :=
  let type := event.request.type
  let device :=
    if (type = .write ∨ type = .writePrecharge) ∧ event.id = device.writeRequest then
      { device with isWriting := false }
    else device
  if event.owned then
    match type with
    | .readPrecharge | .writePrecharge =>
      { device with state := .precharging }.insertEvent
        ⟨now + params.tRP, { event.request with type := .precharge }, true, 0⟩
    | .precharge | .prechargeAll => { device with state := .closed, openRow := params.rows }
    | .refresh =>
      if params.usePrecharge then { device with state := .closed, openRow := params.rows }
      else { device with state := .open }
    | _ => device
  else device

/-! ### What a command does -/

/-- The commands that a subarray takes, with the checks that they have passed. -/
inductive Effect : SubArray → Prop where
  | activate (type : request.type = .activate) (ready : device.nextActivate ≤ now)
      (idle : params.usePrecharge = true → device.state = .closed) :
      Effect (device.openRowOf params now request)
  | read (type : request.type = .read ∨ request.type = .readPrecharge) (ready : device.nextRead ≤ now)
      (active : device.state = .open) : Effect (device.readRow params now request latency)
  | write (type : request.type = .write ∨ request.type = .writePrecharge) (ready : device.nextWrite ≤ now)
      (active : device.state = .open) : Effect (device.writeRow params now request latency)
  | precharge (type : request.type = .precharge ∨ request.type = .prechargeAll)
      (ready : device.nextPrecharge ≤ now) (still : device.state = .open ∨ device.state = .closed) :
      Effect (device.busyFor now request (device.prechargeTimer params latency) .precharging)
  | refresh (type : request.type = .refresh) (ready : device.nextActivate ≤ now)
      (idle : params.usePrecharge = true → device.state = .closed) :
      Effect (device.busyFor now request params.tRFC .refreshing)
  | power (type : request.type = .powerdownPda ∨ request.type = .powerdownPdpf ∨
      request.type = .powerdownPdps ∨ request.type = .powerup) : Effect device

variable {params device now request} in
/-- **A command that can be issued is taken**: the second check does not fail. -/
theorem issueCommand_effect (issuable : device.isIssuable params now request = true) :
    (device.issueCommand params now request latency).2 = true ∧
      Effect params device now request latency (device.issueCommand params now request latency).1 := by
  unfold issueCommand
  rw [if_pos issuable]
  unfold isIssuable at issuable
  cases type : request.type with
  | activate =>
    simp only [type, Bool.and_eq_true, Bool.or_eq_true, Bool.not_eq_true', decide_eq_true_eq] at issuable ⊢
    have idle : params.usePrecharge = true → device.state = .closed := by
      intro use
      exact issuable.2.resolve_left (by rw [use]; nofun)
    have taken : device.activate params now request = (device.openRowOf params now request, true) := by
      unfold activate
      rw [if_neg (Nat.not_lt.mpr issuable.1), if_neg fun both => both.2 (idle both.1)]
    rw [taken]
    exact ⟨rfl, .activate type issuable.1 idle⟩
  | read | readPrecharge =>
    simp only [type, Bool.and_eq_true, decide_eq_true_eq] at issuable ⊢
    have taken : device.read params now request latency = (device.readRow params now request latency, true) := by
      unfold read
      rw [if_neg (Nat.not_lt.mpr issuable.1.1), if_neg (not_not_intro issuable.1.2), if_neg (not_not_intro issuable.2)]
    rw [taken]
    exact ⟨rfl, .read (by simp [type]) issuable.1.1 issuable.1.2⟩
  | write | writePrecharge =>
    simp only [type, Bool.and_eq_true, decide_eq_true_eq] at issuable ⊢
    have taken : device.write params now request latency = (device.writeRow params now request latency, true) := by
      unfold write
      rw [if_neg (Nat.not_lt.mpr issuable.1.1), if_neg (not_not_intro issuable.1.2), if_neg (not_not_intro issuable.2)]
    rw [taken]
    exact ⟨rfl, .write (by simp [type]) issuable.1.1 issuable.1.2⟩
  | precharge | prechargeAll =>
    simp only [type, Bool.and_eq_true, Bool.or_eq_true, decide_eq_true_eq] at issuable ⊢
    have taken : device.precharge params now request latency =
        (device.busyFor now request (device.prechargeTimer params latency) .precharging, true) := by
      unfold precharge
      rw [if_neg (Nat.not_lt.mpr issuable.1), if_neg fun neither => issuable.2.elim neither.2 neither.1]
    rw [taken]
    exact ⟨rfl, .precharge (by simp [type]) issuable.1 issuable.2⟩
  | refresh =>
    simp only [type, Bool.and_eq_true, Bool.or_eq_true, Bool.not_eq_true', decide_eq_true_eq] at issuable ⊢
    have idle : params.usePrecharge = true → device.state = .closed := by
      intro use
      exact issuable.2.resolve_right (by rw [use]; nofun)
    have taken : device.refresh params now request = (device.busyFor now request params.tRFC .refreshing, true) := by
      unfold refresh
      rw [if_neg (Nat.not_lt.mpr issuable.1), if_neg fun both => both.1 (idle both.2)]
    rw [taken]
    exact ⟨rfl, .refresh type issuable.1 idle⟩
  | powerdownPda | powerdownPdpf | powerdownPdps | powerup => exact ⟨rfl, .power (by simp [type])⟩
  | nop | busRead | busWrite | cachedRead | cachedWrite =>
    simp only [type] at issuable
    cases issuable

theorem issueCommand_refused (refused : device.isIssuable params now request = false) :
    device.issueCommand params now request latency = (device, false) := by
  unfold issueCommand
  rw [refused]
  rfl

/-! ### Registers -/

/-- No register goes back. -/
structure Grows (device next : SubArray) : Prop where
  nextActivate : device.nextActivate ≤ next.nextActivate
  nextPrecharge : device.nextPrecharge ≤ next.nextPrecharge
  nextRead : device.nextRead ≤ next.nextRead
  nextWrite : device.nextWrite ≤ next.nextWrite

/-- No command may come before that cycle. -/
structure Behind (device : SubArray) (cycle : Nat) : Prop where
  nextActivate : cycle ≤ device.nextActivate
  nextPrecharge : cycle ≤ device.nextPrecharge
  nextRead : cycle ≤ device.nextRead
  nextWrite : cycle ≤ device.nextWrite

variable {params device now request latency}

theorem openRowOf_grows : Grows device (device.openRowOf params now request) :=
  ⟨Nat.le_refl _, Nat.le_max_left .., Nat.le_max_left .., Nat.le_max_left ..⟩

theorem busyFor_grows {timer : Nat} {state : SubArrayState} : Grows device (device.busyFor now request timer state) :=
  ⟨Nat.le_max_left .., Nat.le_refl _, Nat.le_refl _, Nat.le_refl _⟩

theorem prechargeLater_registers (nextActivate start : Nat) :
    Grows device (device.prechargeLater request nextActivate start) ∧
      Behind (device.prechargeLater request nextActivate start) nextActivate := by
  refine ⟨⟨?_, ?_, ?_, ?_⟩, ⟨?_, ?_, ?_, ?_⟩⟩
  all_goals
    simp only [prechargeLater, insertEvent]
    omega

theorem readRow_registers : Grows device (device.readRow params now request latency) ∧
    (request.type = .readPrecharge → Behind (device.readRow params now request latency)
      (readPrechargeStart params now request latency + params.tRP)) := by
  have timing : Grows device (device.readTiming params now request latency) ∧
      (request.type = .readPrecharge → Behind (device.readTiming params now request latency)
        (readPrechargeStart params now request latency + params.tRP)) := by
    unfold readTiming
    dsimp only
    split
    · have cycle : readPrechargeStart params now request latency + params.tRP =
          now + bursts params request + params.tAL + params.tRTP + params.tRP + latency.decLat := by
        unfold readPrechargeStart
        omega
      rw [cycle]
      exact ⟨(prechargeLater_registers ..).1, fun _ => (prechargeLater_registers ..).2⟩
    · rename_i plain
      exact ⟨⟨Nat.le_refl _, Nat.le_max_left .., Nat.le_max_left .., Nat.le_max_left ..⟩, fun auto => absurd auto plain⟩
  unfold readRow
  generalize device.readTiming params now request latency = timed at timing ⊢
  exact ⟨{ timing.1 with }, fun auto => { timing.2 auto with }⟩

theorem writeRow_registers : Grows device (device.writeRow params now request latency) ∧
    (request.type = .writePrecharge → Behind (device.writeRow params now request latency)
      (device.writePrechargeStart params now request latency + params.tRP)) := by
  have timing : Grows device (device.writeTiming params now request latency) ∧
      (request.type = .writePrecharge → Behind (device.writeTiming params now request latency)
        (device.writePrechargeStart params now request latency + params.tRP)) := by
    unfold writeTiming
    dsimp only
    split
    · exact ⟨(prechargeLater_registers ..).1, fun _ => (prechargeLater_registers ..).2⟩
    · rename_i plain
      exact ⟨⟨Nat.le_refl _, Nat.le_max_left .., Nat.le_max_left .., Nat.le_max_left ..⟩, fun auto => absurd auto plain⟩
  unfold writeRow
  generalize device.writeTiming params now request latency = timed at timing ⊢
  exact ⟨{ timing.1 with }, fun auto => { timing.2 auto with }⟩

theorem readRow_state : (device.readRow params now request latency).state = device.state := by
  have timing : (device.readTiming params now request latency).state = device.state := by
    unfold readTiming
    dsimp only
    split <;> rfl
  exact timing

theorem writeRow_state : (device.writeRow params now request latency).state = device.state := by
  have timing : (device.writeTiming params now request latency).state = device.state := by
    unfold writeTiming
    dsimp only
    split <;> rfl
  exact timing

theorem le_readPrechargeStart : now ≤ readPrechargeStart params now request latency := by
  unfold readPrechargeStart
  omega

theorem le_writePrechargeStart : now ≤ device.writePrechargeStart params now request latency := by
  unfold writePrechargeStart
  omega

/-! ### Events -/

/-- The events that change the state of the subarray. -/
def changing (device : SubArray) : List DeviceEvent := device.events.filter (·.changesState)

theorem changing_insertEvent (event : DeviceEvent) : (device.insertEvent event).changing =
    device.changing ++ if event.changesState then [event] else [] := by
  unfold changing insertEvent
  rw [List.filter_append, List.filter_cons, List.filter_nil]

theorem openRowOf_changing (type : request.type = .activate) :
    (device.openRowOf params now request).changing = device.changing := by
  have plain : DeviceEvent.changesState ⟨now + params.tRCD, request, true, 0⟩ = false := by
    simp [DeviceEvent.changesState, DeviceEvent.startsPrecharge, DeviceEvent.endsBusy, type]
  refine (changing_insertEvent _).trans ?_
  rw [plain]
  exact List.append_nil _

theorem prechargeLater_changing (auto : request.type = .readPrecharge ∨ request.type = .writePrecharge)
    (nextActivate start : Nat) : (device.prechargeLater request nextActivate start).changing =
      device.changing ++ [⟨start, request, true, 0⟩] := by
  have starts : DeviceEvent.changesState ⟨start, request, true, 0⟩ = true := by
    rcases auto with type | type <;>
      simp [DeviceEvent.changesState, DeviceEvent.startsPrecharge, type]
  refine (changing_insertEvent _).trans ?_
  rw [starts]
  rfl

theorem readRow_changing : (device.readRow params now request latency).changing =
    device.changing ++ if request.type = .readPrecharge then
      [⟨readPrechargeStart params now request latency, request, true, 0⟩] else [] := by
  have timing : (device.readTiming params now request latency).changing =
      device.changing ++ if request.type = .readPrecharge then
        [⟨readPrechargeStart params now request latency, request, true, 0⟩] else [] := by
    unfold readTiming
    dsimp only
    split
    · rename_i auto
      exact prechargeLater_changing (.inl auto) ..
    · exact (List.append_nil _).symm
  refine Eq.trans ?_ timing
  refine (changing_insertEvent _).trans ((List.append_nil _).trans ?_)
  exact (changing_insertEvent _).trans (List.append_nil _)

theorem writeRow_changing : (device.writeRow params now request latency).changing =
    device.changing ++ if request.type = .writePrecharge then
      [⟨device.writePrechargeStart params now request latency, request, true, 0⟩] else [] := by
  have timing : (device.writeTiming params now request latency).changing =
      device.changing ++ if request.type = .writePrecharge then
        [⟨device.writePrechargeStart params now request latency, request, true, 0⟩] else [] := by
    unfold writeTiming
    dsimp only
    split
    · rename_i auto
      exact prechargeLater_changing (.inr auto) ..
    · exact (List.append_nil _).symm
  refine Eq.trans ?_ timing
  refine (changing_insertEvent _).trans ((List.append_nil _).trans ?_)
  exact (changing_insertEvent _).trans (List.append_nil _)

theorem busyFor_changing {timer : Nat} {state : SubArrayState}
    (type : request.type = .precharge ∨ request.type = .prechargeAll ∨ request.type = .refresh) :
    (device.busyFor now request timer state).changing = device.changing ++ [⟨now + timer, request, true, 0⟩] := by
  have ends : DeviceEvent.changesState ⟨now + timer, request, true, 0⟩ = true := by
    rcases type with type | type | type <;>
      simp [DeviceEvent.changesState, DeviceEvent.endsBusy, type]
  refine (changing_insertEvent _).trans ?_
  rw [ends]
  rfl

/-- An event leaves the queue. -/
def deliver (params : SubArrayParams) (device : SubArray) (now : Nat) (event : DeviceEvent) : SubArray :=
  { device with events := device.events.erase event }.requestComplete params now event

theorem deliver_registers (event : DeviceEvent) :
    (device.deliver params now event).nextActivate = device.nextActivate ∧
    (device.deliver params now event).nextPrecharge = device.nextPrecharge ∧
    (device.deliver params now event).nextRead = device.nextRead ∧
    (device.deliver params now event).nextWrite = device.nextWrite := by
  unfold deliver requestComplete insertEvent
  grind

theorem deliver_changing (event : DeviceEvent) : (device.deliver params now event).changing =
    device.changing.erase event ++ if event.startsPrecharge then
      [⟨now + params.tRP, { event.request with type := .precharge }, true, 0⟩] else [] := by
  have events : (device.deliver params now event).events =
      device.events.erase event ++ if event.startsPrecharge then
        [⟨now + params.tRP, { event.request with type := .precharge }, true, 0⟩] else [] := by
    unfold deliver requestComplete insertEvent DeviceEvent.startsPrecharge
    grind
  unfold changing
  rw [events, List.filter_append, List.erase_filter]
  split <;> rfl

theorem deliver_state (event : DeviceEvent) : (device.deliver params now event).state =
    if event.startsPrecharge then .precharging
    else if event.endsBusy then
      if event.request.type = .refresh ∧ params.usePrecharge = false then .open else .closed
    else device.state := by
  unfold deliver requestComplete insertEvent DeviceEvent.startsPrecharge DeviceEvent.endsBusy
  grind

end SubArray

end Emas.Nvmain

/-
**Banks of subarrays.**

`class DDR3Bank` over its `SubArray`s. Every command is checked by `IsIssuable`, again by the function for it,
and twice more in the subarray. `failures` has what must not happen: a subarray that refuses a command which
the bank passes on, and a failing `assert`. `activeSubArrayQueue` is a deque, with its front first. Latencies are
inputs, one for each subarray. Energies, statistics and printed text are left out, and `openRow`, which nothing
here reads.
-/

import Emas.Lib.Table
import Emas.Nvmain.SubArray

namespace Emas.Nvmain

open Table

/-- What `SetConfig` reads. -/
structure BankParams extends SubArrayParams where
  subArrayNum : Nat
  initPD : Bool
  tRDPDEN : Nat
  tWRPDEN : Nat
  tPD : Nat
  tXP : Nat
  tXPDLL : Nat

/-- `enum DDR3BankState`. -/
inductive DDR3BankState where
  | unknown
  | «open»
  | closed
  | pdpf
  | pda
  | pdps
  deriving DecidableEq, Repr

/-- A subarray refuses a command, or an `assert` fails. -/
inductive BankFailure where
  | subArray
  | assertion
  deriving DecidableEq, Repr

/-- `class DDR3Bank`. -/
structure DDR3Bank where
  state : DDR3BankState
  nextActivate : Nat
  nextPrecharge : Nat
  nextRead : Nat
  nextWrite : Nat
  nextPowerDown : Nat
  nextPowerUp : Nat
  activeSubArrayQueue : List Nat
  subArrays : Nat → SubArray
  failures : List BankFailure

namespace DDR3Bank

/-- `DDR3Bank( )` and `SetConfig`. -/
def create (params : BankParams) : DDR3Bank where
  state := if params.initPD then .pdpf else .closed
  nextActivate := 0
  nextPrecharge := 0
  nextRead := 0
  nextWrite := 0
  nextPowerDown := 0
  nextPowerUp := 0
  activeSubArrayQueue := []
  subArrays := fun _ => .create
  failures := []

variable (params : BankParams) (bank : DDR3Bank) (now : Nat) (request : DeviceRequest)
  (latency : Nat → DeviceLatency)

/-- `GetChild( i )->IssueCommand( request )`. -/
def issueTo (i : Nat) : DDR3Bank × Bool :=
  let (device, success) := (bank.subArrays i).issueCommand params.toSubArrayParams now request (latency i)
  ({ bank with
    subArrays := set1 bank.subArrays i device
    failures := if success then bank.failures else bank.failures ++ [.subArray] }, success)

/-- The subarray leaves `activeSubArrayQueue`; the last one closes the bank. -/
def closeSubArray (i : Nat) : DDR3Bank :=
  let queue := bank.activeSubArrayQueue.erase i
  { bank with
    activeSubArrayQueue := queue
    state := if queue = [] then .closed else bank.state }

/-- `PowerDown( request )`. -/
def powerDown : DDR3Bank × Bool :=
  if bank.nextPowerDown ≤ now ∧ (bank.state = .open ∨ bank.state = .closed) then
    let bank := { bank with nextPowerUp := max bank.nextPowerUp (now + params.tPD) }
    match bank.state with
    | .open =>
      ({ bank with
        state := .pda
        failures :=
          if request.type = .powerdownPda then bank.failures else bank.failures ++ [.assertion] }, true)
    | .closed =>
      match request.type with
      | .powerdownPdps => ({ bank with state := .pdps }, true)
      | _ => ({ bank with state := .pdpf }, true)
    | _ => (bank, true)
  else (bank, false)

/-- `PowerUp( request )`. -/
def powerUp : DDR3Bank × Bool :=
  if bank.nextPowerUp ≤ now ∧ (bank.state = .pdpf ∨ bank.state = .pdps ∨ bank.state = .pda) then
    ({ bank with
      nextPowerDown := max bank.nextPowerDown (now + params.tXP)
      nextActivate := max bank.nextActivate (now + params.tXP)
      nextPrecharge := max bank.nextPrecharge (now + params.tXP)
      nextWrite := max bank.nextWrite (now + params.tXP)
      nextRead := max bank.nextRead (now + if bank.state = .pdps then params.tXPDLL else params.tXP)
      state := if bank.state = .pda then .open else .closed }, true)
  else (bank, false)

/-- `Activate( request )`. -/
def activate : DDR3Bank × Bool :=
  if now < bank.nextActivate then (bank, false)
  else if bank.state ≠ .closed ∧ bank.activeSubArrayQueue = [] then (bank, false)
  else
    let bank := { bank with nextPowerDown := max bank.nextPowerDown (now + params.tRCD) }
    let (bank, success) := bank.issueTo params now request latency request.subarray
    if success then
      ({ bank with
        state := .open
        activeSubArrayQueue := request.subarray :: bank.activeSubArrayQueue }, true)
    else (bank, false)

/-- `Read( request )`. -/
def read : DDR3Bank × Bool :=
  if now < bank.nextRead then (bank, false)
  else if bank.state ≠ .open then (bank, false)
  else
    let bursts := SubArray.bursts params.toSubArrayParams request
    let bank := { bank with
      nextPowerDown := max bank.nextPowerDown
        (if request.type = DeviceOp.readPrecharge then now + bursts + params.tAL + params.tRTP + params.tRP
          else bursts + now + params.tRDPDEN)
      nextRead := max bank.nextRead (now + max params.tBURST params.tCCD * request.burstCount)
      nextWrite := max bank.nextWrite
        (minusCycles (now + bursts + params.tCAS + params.tBURST + params.tRTRS) params.tCWD) }
    let (bank, success) := bank.issueTo params now request latency request.subarray
    if success ∧ request.type = DeviceOp.readPrecharge then (bank.closeSubArray request.subarray, success)
    else (bank, success)

/-- `Write( request )`. -/
def write : DDR3Bank × Bool :=
  if now < bank.nextWrite then (bank, false)
  else if bank.state ≠ .open then (bank, false)
  else
    let bursts := SubArray.bursts params.toSubArrayParams request
    let bank := { bank with
      nextPowerDown :=
        if request.type = DeviceOp.writePrecharge then
          max bank.nextActivate (now + bursts + params.tAL + params.tCWD + params.tBURST + params.tWR + params.tRP)
        else max bank.nextPowerDown (bursts + now + params.tWRPDEN)
      nextRead := max bank.nextRead (now + bursts + params.tCWD + params.tBURST + params.tWTR)
      nextWrite := max bank.nextWrite (now + max params.tBURST params.tCCD * request.burstCount) }
    let (bank, success) := bank.issueTo params now request latency request.subarray
    if success ∧ request.type = DeviceOp.writePrecharge then (bank.closeSubArray request.subarray, success)
    else (bank, success)

/-- The loop of `PRECHARGE_ALL` over the queue, front first. -/
def prechargeQueue (bank : DDR3Bank) : List Nat → DDR3Bank × Bool
  | [] => (bank, true)
  | openedSubArray :: rest =>
    let bank := { bank with activeSubArrayQueue := rest }
    let (bank, success) := bank.issueTo params now request latency openedSubArray
    if success then prechargeQueue bank rest else (bank, false)

/-- `Precharge( request )`. -/
def precharge : DDR3Bank × Bool :=
  if now < bank.nextPrecharge then (bank, false)
  else if bank.state ≠ .closed ∧ bank.state ≠ .open then (bank, false)
  else
    let bank := { bank with nextPowerDown := max bank.nextPowerDown (now + params.tRP) }
    match request.type with
    | .precharge =>
      let (bank, success) := bank.issueTo params now request latency request.subarray
      if success then (bank.closeSubArray request.subarray, true) else (bank, false)
    | .prechargeAll =>
      let (bank, success) := prechargeQueue params now request latency bank bank.activeSubArrayQueue
      if success then
        ({ bank with state := if bank.activeSubArrayQueue = [] then .closed else bank.state }, true)
      else (bank, false)
    | _ => (bank, false)

/-- `Refresh( request )`. -/
def refresh : DDR3Bank × Bool :=
  if now < bank.nextActivate then (bank, false)
  else
    let bank := { bank with nextPowerDown := max bank.nextPowerDown (now + params.tRFC) }
    bank.issueTo params now request latency request.subarray

/-- `IsIssuable( req, reason )`. -/
def isIssuable : Bool :=
  let child := fun i => (bank.subArrays i).isIssuable params.toSubArrayParams now request
  match request.type with
  | .activate => bank.nextActivate ≤ now && bank.state ≠ .pdpf && bank.state ≠ .pdps && bank.state ≠ .pda &&
      child request.subarray
  | .read | .readPrecharge => bank.nextRead ≤ now && bank.state = .open && child request.subarray
  | .write | .writePrecharge => bank.nextWrite ≤ now && bank.state = .open && child request.subarray
  | .precharge => bank.nextPrecharge ≤ now && (bank.state = .closed || bank.state = .open) &&
      child request.subarray
  | .prechargeAll => bank.nextPrecharge ≤ now && (bank.state = .closed || bank.state = .open) &&
      bank.activeSubArrayQueue.all child
  | .powerdownPda => bank.nextPowerDown ≤ now && (bank.state = .closed || bank.state = .open) &&
      (List.range params.subArrayNum).all child
  | .powerdownPdpf | .powerdownPdps => bank.nextPowerDown ≤ now && bank.state = .closed &&
      (List.range params.subArrayNum).all child
  | .powerup => bank.nextPowerUp ≤ now && (bank.state = .pdpf || bank.state = .pdps || bank.state = .pda) &&
      (List.range params.subArrayNum).all child
  | .refresh => bank.nextActivate ≤ now && (bank.state = .closed || bank.state = .open) &&
      child request.subarray
  | _ => child request.subarray

/-- `IssueCommand( req )`. -/
def issueCommand : DDR3Bank × Bool :=
  if bank.isIssuable params now request then
    match request.type with
    | .activate => bank.activate params now request latency
    | .read | .readPrecharge => bank.read params now request latency
    | .write | .writePrecharge => bank.write params now request latency
    | .precharge | .prechargeAll => bank.precharge params now request latency
    | .refresh => bank.refresh params now request latency
    | .powerdownPda | .powerdownPdpf | .powerdownPdps => bank.powerDown params now request
    | .powerup => bank.powerUp params now
    | _ => bank.issueTo params now request latency request.subarray
  else (bank, false)

end DDR3Bank

end Emas.Nvmain

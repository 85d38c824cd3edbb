/-
**The row activation window of a rank.**

`class StandardRank` over banks of any kind (`BankDevice`). `lastActivate` with `RAWindex` is a ring of
`rawNum` cycles, which `Activate` and `Refresh` write in turn; `events` are the `EventResponse`s that the
rank has put into the event queue, `accepted` the commands for which `IssueCommand` returned true, with
their cycles. Statistics and printed text are left out, and the `assert`s, which are off in the default
build.
-/

import Emas.Nvmain.DeviceData
import Emas.Lib.ActionRun
import Emas.Lib.Ring
import Emas.Lib.Table

namespace Emas.Nvmain

open Table

/-! ### The rank -/

/-- What the rank asks of a bank. The `Nat` argument is the current cycle. -/
structure BankDevice (β : Type) where
  isIssuable : β → Nat → DeviceRequest → Bool
  issueCommand : β → Nat → DeviceRequest → β × Bool
  idle : β → Bool

/-- What `SetConfig` reads; `assert( rawNum != 0 )`. -/
structure RankParams where
  rawNum : Nat
  bankCount : Nat
  banksPerRefresh : Nat
  tCMD : Nat
  tRAW : Nat
  tRRDR : Nat
  tBURST : Nat
  tCCD : Nat
  tCAS : Nat
  tCWD : Nat
  tRTRS : Nat
  tWTR : Nat
  tOST : Nat
  tPPD : Nat
  tAL : Nat
  tRTP : Nat
  tWR : Nat
  tPD : Nat
  tXP : Nat
  tXPDLL : Nat
  tRFC : Nat
  rawNum_pos : 0 < rawNum

/-- `enum StandardRankState`. -/
inductive StandardRankState where
  | closed
  | «open»
  | refreshing
  | pda
  | pdpf
  | pdps
  deriving DecidableEq, Repr

/-- `class StandardRank`. -/
structure StandardRank (params : RankParams) (β : Type) where
  state : StandardRankState
  nextRead : Nat
  nextWrite : Nat
  nextActivate : Nat
  nextPrecharge : Nat
  lastActivate : Ring Nat params.rawNum
  banks : Nat → β
  events : List (Nat × DeviceRequest)

namespace StandardRank

variable {β : Type} {params : RankParams} (bank : BankDevice β) (rank : StandardRank params β)
  (now : Nat) (request : DeviceRequest)

/-- The state after the constructor and `SetConfig`. -/
def create (params : RankParams) (banks : Nat → β) : StandardRank params β where
  state := .closed
  nextRead := params.tCMD
  nextWrite := params.tCMD
  nextActivate := params.tCMD
  nextPrecharge := params.tCMD
  lastActivate := .replicate params.rawNum_pos 0
  banks := banks
  events := []

/-- `GetChild( i )->IssueCommand( request )`. -/
def issueTo (i : Nat) : StandardRank params β × Bool :=
  let (device, success) := bank.issueCommand (rank.banks i) now request
  ({ rank with banks := set1 rank.banks i device }, success)

/-- `Idle( )`. -/
def idle : Bool := (List.range params.bankCount).all fun i => bank.idle (rank.banks i)

/-- `GetEventQueue( )->InsertEvent( EventResponse, this, req, cycle )`. -/
def insertEvent (req : DeviceRequest) (cycle : Nat) : StandardRank params β :=
  { rank with events := rank.events ++ [(cycle, req)] }

/-- The new `PRECHARGE` that closes the rank. -/
def dupPre : DeviceRequest := ⟨.precharge, 0, 0, 0, 0, 1⟩

/-- The row activation window lets an `ACTIVATE` through. -/
def windowOpen : Bool := rank.nextActivate ≤ now && rank.lastActivate.oldest + params.tRAW ≤ now

/-- The bookkeeping of an activation. -/
def noteActivate : StandardRank params β :=
  { rank with
    lastActivate := rank.lastActivate.push now
    nextActivate := max rank.nextActivate (now + params.tRRDR) }

/-- `Activate( request )`. -/
def activate : StandardRank params β × Bool :=
  if params.bankCount ≤ request.bank then (rank, false)
  else if rank.windowOpen now then
    let rank := (rank.issueTo bank now request request.bank).1
    let rank := if rank.state = .closed then { rank with state := .open } else rank
    (rank.noteActivate now, true)
  else (rank, true)

/-- `Read( request )`. -/
def read : StandardRank params β × Bool :=
  if params.bankCount ≤ request.bank then (rank, false)
  else if now < rank.nextRead then (rank, false)
  else
    let (rank, success) := rank.issueTo bank now request request.bank
    let bursts := max params.tBURST params.tCCD * minusCycles request.burstCount 1
    let rank := { rank with
      nextRead := max rank.nextRead (now + max params.tBURST params.tCCD * request.burstCount)
      nextWrite := max rank.nextWrite
        (minusCycles (now + bursts + params.tCAS + params.tBURST + params.tRTRS) params.tCWD) }
    if request.type = .readPrecharge then
      (rank.insertEvent dupPre (bursts + now + params.tAL + params.tRTP), success)
    else (rank, success)

/-- `Write( request )`. -/
def write : StandardRank params β × Bool :=
  if params.bankCount ≤ request.bank then (rank, false)
  else if now < rank.nextWrite then (rank, false)
  else
    let (rank, success) := rank.issueTo bank now request request.bank
    let bursts := max params.tBURST params.tCCD * minusCycles request.burstCount 1
    let rank := { rank with
      nextRead := max rank.nextRead (now + bursts + params.tCWD + params.tBURST + params.tWTR)
      nextWrite := max rank.nextWrite (now + max params.tBURST params.tCCD * request.burstCount) }
    if request.type = .writePrecharge then
      (rank.insertEvent dupPre (now + bursts + params.tAL + params.tCWD + params.tBURST + params.tWR), success)
    else (rank, success)

/-- `Precharge( request )`. -/
def precharge : StandardRank params β × Bool :=
  if params.bankCount ≤ request.bank then (rank, false)
  else
    let (rank, success) := rank.issueTo bank now request request.bank
    let rank := if rank.idle bank then { rank with state := .closed } else rank
    ({ rank with nextPrecharge := max rank.nextPrecharge (now + params.tPPD) }, success)

/-- `CanPowerDown( request )`. -/
def canPowerDown : Bool :=
  rank.state ≠ .refreshing && (List.range params.bankCount).all fun i => bank.isIssuable (rank.banks i) now request

/-- The loop of `PowerDown` and `PowerUp` over the children. -/
def issueToAll : StandardRank params β :=
  (List.range params.bankCount).foldl (fun rank i => (rank.issueTo bank now request i).1) rank

/-- `PowerDown( request )`. -/
def powerDown : StandardRank params β × Bool :=
  let rank := rank.issueToAll bank now request
  let rank := match request.type with
    | .powerdownPda => { rank with state := .pda }
    | .powerdownPdpf => { rank with state := .pdpf }
    | .powerdownPdps => { rank with state := .pdps }
    | _ => rank
  (rank.insertEvent request (now + params.tPD), true)

/-- `CanPowerUp( request )`. -/
def canPowerUp : Bool :=
  (List.range params.bankCount).all fun i => bank.isIssuable (rank.banks i) now request

/-- `PowerUp( request )`. -/
def powerUp : StandardRank params β × Bool :=
  let rank := rank.issueToAll bank now request
  let (rank, puTimer) := match rank.state with
    | .pda => ({ rank with state := .open }, params.tXP)
    | .pdpf => ({ rank with state := .closed }, params.tXP)
    | .pdps => ({ rank with state := .closed }, params.tXPDLL)
    | _ => (rank, 1)
  (rank.insertEvent request (now + puTimer), true)

/-- `Refresh( request )`. -/
def refresh : StandardRank params β × Bool :=
  let rank := (List.range params.banksPerRefresh).foldl
    (fun rank i => (rank.issueTo bank now request (request.bank + i)).1) rank
  let rank := { rank with state := .refreshing }
  let rank := rank.insertEvent request (now + params.tRFC)
  (rank.noteActivate now, true)

/-- `IsIssuable( req, reason )`. -/
def isIssuable : Bool :=
  let child := bank.isIssuable (rank.banks request.bank) now request
  match request.type with
  | .activate => rank.windowOpen now && child
  | .read | .readPrecharge => rank.nextRead ≤ now && child
  | .write | .writePrecharge => rank.nextWrite ≤ now && child
  | .precharge | .prechargeAll => rank.nextPrecharge ≤ now && child
  | .powerdownPda | .powerdownPdpf | .powerdownPdps => rank.canPowerDown bank now request
  | .powerup => rank.canPowerUp bank now request
  | .refresh => rank.windowOpen now &&
      (List.range params.banksPerRefresh).all fun i =>
        bank.isIssuable (rank.banks (request.bank + i)) now request
  | _ => child

/-- `IssueCommand( req )`. -/
def issueCommand : StandardRank params β × Bool :=
  if rank.isIssuable bank now request then
    match request.type with
    | .activate => rank.activate bank now request
    | .read | .readPrecharge => rank.read bank now request
    | .write | .writePrecharge => rank.write bank now request
    | .precharge | .prechargeAll => rank.precharge bank now request
    | .powerdownPda | .powerdownPdpf | .powerdownPdps => rank.powerDown bank now request
    | .powerup => rank.powerUp bank now request
    | .refresh => rank.refresh bank now request
    | _ => (rank, true)
  else (rank, false)

/-- Another rank reads or writes. -/
def notify : StandardRank params β :=
  match request.type with
  | .read | .readPrecharge => { rank with
      nextRead := max rank.nextRead (now + params.tBURST + params.tRTRS)
      nextWrite := max rank.nextWrite
        (minusCycles (now + params.tCAS + params.tBURST + params.tRTRS) params.tCWD) }
  | .write | .writePrecharge => { rank with
      nextWrite := max rank.nextWrite (now + params.tBURST + params.tOST)
      nextRead := max rank.nextRead
        (minusCycles (now + params.tBURST + params.tCWD + params.tRTRS) params.tCAS) }
  | _ => rank

/-- `RequestComplete( req )` for a request of the rank's own. -/
def requestComplete : StandardRank params β :=
  match request.type with
  | .precharge | .refresh => if rank.idle bank then { rank with state := .closed } else rank
  | _ => rank

/-! ### The window across a command -/

/-- The window: the cycle from which `tRRDR` allows an activation, and the last ones. -/
def window : Nat × Ring Nat params.rawNum := (rank.nextActivate, rank.lastActivate)

@[simp] theorem issueTo_window (i : Nat) : (rank.issueTo bank now request i).1.window = rank.window := rfl

@[simp] theorem foldl_issueTo_window (index : Nat → Nat) (indices : List Nat) :
    (indices.foldl (fun rank i => (rank.issueTo bank now request (index i)).1) rank).window = rank.window := by
  induction indices generalizing rank with
  | nil => rfl
  | cons i rest ih =>
    rw [List.foldl_cons, ih]
    exact issueTo_window bank rank now request (index i)

@[simp] theorem issueToAll_window : (rank.issueToAll bank now request).window = rank.window :=
  foldl_issueTo_window bank rank now request id _

theorem read_window : (rank.read bank now request).1.window = rank.window := by
  unfold read
  split
  · rfl
  · split
    · rfl
    · dsimp only
      split
      · rfl
      · rfl

theorem write_window : (rank.write bank now request).1.window = rank.window := by
  unfold write
  split
  · rfl
  · split
    · rfl
    · dsimp only
      split
      · rfl
      · rfl

theorem precharge_window : (rank.precharge bank now request).1.window = rank.window := by
  unfold precharge
  split
  · rfl
  · dsimp only
    split
    · rfl
    · rfl

theorem powerDown_window : (rank.powerDown bank now request).1.window = rank.window := by
  unfold powerDown
  refine Eq.trans ?_ (issueToAll_window bank rank now request)
  dsimp only
  split
  · rfl
  · rfl
  · rfl
  · rfl

theorem powerUp_window : (rank.powerUp bank now request).1.window = rank.window := by
  unfold powerUp
  refine Eq.trans ?_ (issueToAll_window bank rank now request)
  dsimp only
  split
  · rfl
  · rfl
  · rfl
  · rfl

/-- The window after an activation at `now`. -/
def movedOn : Nat × Ring Nat params.rawNum :=
  (max rank.nextActivate (now + params.tRRDR), rank.lastActivate.push now)

theorem noteActivate_window {before : StandardRank params β} (same : rank.window = before.window) :
    (rank.noteActivate now).window = before.movedOn now := by
  obtain ⟨next, last⟩ := Prod.ext_iff.mp same
  have next : rank.nextActivate = before.nextActivate := next
  have last : rank.lastActivate = before.lastActivate := last
  unfold window noteActivate movedOn
  rw [next, last]

/-- `ACTIVATE` and `REFRESH`. -/
def IsActivation : Prop := request.type = .activate ∨ request.type = .refresh

instance : Decidable (IsActivation request) :=
  inferInstanceAs (Decidable (request.type = .activate ∨ request.type = .refresh))

theorem activate_window (opened : rank.windowOpen now = true) (accepted : (rank.activate bank now request).2 = true) :
    (rank.activate bank now request).1.window = rank.movedOn now := by
  unfold activate at accepted ⊢
  split at accepted
  · cases accepted
  · rename_i inside
    rw [if_neg inside, if_pos opened]
    refine noteActivate_window _ now ?_
    split
    · rfl
    · rfl

theorem activate_refused (refused : (rank.activate bank now request).2 = false) :
    (rank.activate bank now request).1 = rank := by
  unfold activate at refused ⊢
  split at refused
  · rename_i outside
    rw [if_pos outside]
  · split at refused
    · cases refused
    · cases refused

theorem refresh_window : (rank.refresh bank now request).1.window = rank.movedOn now :=
  noteActivate_window _ now (foldl_issueTo_window bank rank now request (request.bank + ·) _)

/-- **What a command does to the window.** -/
theorem issueCommand_cases :
    ((rank.issueCommand bank now request).2 = true ∧ IsActivation request ∧
      rank.windowOpen now = true ∧ (rank.issueCommand bank now request).1.window = rank.movedOn now) ∨
    (¬((rank.issueCommand bank now request).2 = true ∧ IsActivation request) ∧
      (rank.issueCommand bank now request).1.window = rank.window) := by
  unfold issueCommand
  split
  · rename_i issuable
    unfold isIssuable at issuable
    unfold IsActivation
    cases type : request.type with
    | activate =>
      simp only [type, Bool.and_eq_true] at issuable ⊢
      cases accepted : (rank.activate bank now request).2 with
      | true =>
        exact .inl ⟨rfl, .inl trivial, issuable.1, activate_window bank rank now request issuable.1 accepted⟩
      | false =>
        rw [activate_refused bank rank now request accepted]
        exact .inr ⟨nofun, rfl⟩
    | refresh =>
      simp only [type, Bool.and_eq_true] at issuable ⊢
      exact .inl ⟨rfl, .inr trivial, issuable.1, refresh_window bank rank now request⟩
    | read | readPrecharge => exact .inr ⟨nofun, read_window bank rank now request⟩
    | write | writePrecharge => exact .inr ⟨nofun, write_window bank rank now request⟩
    | precharge | prechargeAll => exact .inr ⟨nofun, precharge_window bank rank now request⟩
    | powerdownPda | powerdownPdpf | powerdownPdps =>
      exact .inr ⟨nofun, powerDown_window bank rank now request⟩
    | powerup => exact .inr ⟨nofun, powerUp_window bank rank now request⟩
    | nop | busRead | busWrite | cachedRead | cachedWrite => exact .inr ⟨nofun, rfl⟩
  · exact .inr ⟨nofun, rfl⟩

theorem notify_window : (rank.notify now request).window = rank.window := by
  unfold notify
  split
  · rfl
  · rfl
  · rfl
  · rfl
  · rfl

theorem requestComplete_window : (rank.requestComplete bank request).window = rank.window := by
  unfold requestComplete
  split
  · split
    · rfl
    · rfl
  · split
    · rfl
    · rfl
  · rfl

end StandardRank

/-! ### Runs -/

/-- What happens to a rank: a command of the controller, a command to another rank, an `EventResponse` of
its own, and whatever changes its banks otherwise. -/
inductive RankAction (β : Type) where
  | issueCommand (now : Nat) (request : DeviceRequest)
  | notify (now : Nat) (request : DeviceRequest)
  | requestComplete (request : DeviceRequest)
  | banks (banks : Nat → β)

/-- The rank with the commands it has accepted, in order. -/
structure RankRun (params : RankParams) (β : Type) where
  rank : StandardRank params β
  accepted : List (Nat × DeviceRequest)

namespace RankRun

variable {β : Type} {params : RankParams}

def act (bank : BankDevice β) (run : RankRun params β) : RankAction β → RankRun params β
  | .issueCommand now request =>
    let (rank, success) := run.rank.issueCommand bank now request
    ⟨rank, if success then run.accepted ++ [(now, request)] else run.accepted⟩
  | .notify now request => { run with rank := run.rank.notify now request }
  | .requestComplete request => { run with rank := run.rank.requestComplete bank request }
  | .banks banks => { run with rank := { run.rank with banks := banks } }

/-- The cycles of the activations. -/
def activations (run : RankRun params β) : List Nat :=
  (run.accepted.filter fun entry => StandardRank.IsActivation entry.2).map Prod.fst

/-- The invariant: the ring has the last activations, `nextActivate` keeps the last one apart. -/
structure Windowed (run : RankRun params β) : Prop where
  recent : run.rank.lastActivate.Recent 0 run.activations.reverse
  next : ∀ last, run.activations.reverse[0]? = some last → last + params.tRRDR ≤ run.rank.nextActivate
  apart : Spaced params.tRRDR 1 run.activations
  span : Spaced params.tRAW params.rawNum run.activations

theorem Windowed.create (params : RankParams) (banks : Nat → β) : Windowed ⟨StandardRank.create params banks, []⟩ where
  recent := Ring.recent_replicate params.rawNum_pos 0
  next := nofun
  apart := spaced_nil _ _
  span := spaced_nil _ _

theorem Windowed.frame {run run' : RankRun params β} (windowed : run.Windowed)
    (window : run'.rank.window = run.rank.window) (activations : run'.activations = run.activations) :
    run'.Windowed := by
  obtain ⟨next, last⟩ := Prod.ext_iff.mp window
  have next : run'.rank.nextActivate = run.rank.nextActivate := next
  have last : run'.rank.lastActivate = run.rank.lastActivate := last
  refine ⟨?_, ?_, ?_, ?_⟩
  · rw [last, activations]
    exact windowed.recent
  · rw [next, activations]
    exact windowed.next
  · rw [activations]
    exact windowed.apart
  · rw [activations]
    exact windowed.span

theorem Windowed.moveOn {run run' : RankRun params β} {now : Nat} (windowed : run.Windowed)
    (opened : run.rank.windowOpen now = true) (window : run'.rank.window = run.rank.movedOn now)
    (activations : run'.activations = run.activations ++ [now]) : run'.Windowed := by
  obtain ⟨next, last⟩ := Prod.ext_iff.mp window
  have next : run'.rank.nextActivate = max run.rank.nextActivate (now + params.tRRDR) := next
  have last : run'.rank.lastActivate = run.rank.lastActivate.push now := last
  unfold StandardRank.windowOpen at opened
  simp only [Bool.and_eq_true, decide_eq_true_eq] at opened
  refine ⟨?_, ?_, ?_, ?_⟩
  · rw [last, activations, List.reverse_concat]
    exact Ring.recent_push windowed.recent now
  · rw [next, activations, List.reverse_concat]
    rintro _ ⟨rfl⟩
    exact Nat.le_max_right ..
  · rw [activations]
    exact spaced_append Nat.one_pos windowed.apart fun first found => Nat.le_trans (windowed.next first found) opened.1
  · rw [activations]
    exact windowed.recent.spaced_append windowed.span opened.2

theorem act_windowed (bank : BankDevice β) (run : RankRun params β) (action : RankAction β)
    (windowed : run.Windowed) : (run.act bank action).Windowed := by
  cases action with
  | issueCommand now request =>
    rcases run.rank.issueCommand_cases bank now request with
      ⟨accepted, activation, opened, window⟩ | ⟨other, window⟩
    · refine windowed.moveOn opened window ?_
      simp [act, activations, accepted, activation]
    · refine windowed.frame window ?_
      unfold act activations
      dsimp only
      split
      · rename_i accepted
        have plain : ¬StandardRank.IsActivation request := fun activation => other ⟨accepted, activation⟩
        simp [plain]
      · rfl
  | notify now request => exact windowed.frame (StandardRank.notify_window ..) rfl
  | requestComplete request => exact windowed.frame (StandardRank.requestComplete_window ..) rfl
  | banks banks => exact windowed.frame rfl rfl

end RankRun

/-- **The row activation window.** Whatever happens to a rank, its activations are `tRRDR` apart and
`rawNum + 1` of them span `tRAW`. -/
theorem activation_window {β : Type} (params : RankParams) (bank : BankDevice β) (banks : Nat → β)
    (actions : List (RankAction β)) :
    Spaced params.tRRDR 1 (runActions (RankRun.act bank) ⟨StandardRank.create params banks, []⟩ actions).activations ∧
      Spaced params.tRAW params.rawNum
        (runActions (RankRun.act bank) ⟨StandardRank.create params banks, []⟩ actions).activations := by
  have windowed := runActions_invariant RankRun.Windowed (RankRun.act_windowed bank)
    (RankRun.Windowed.create params banks) actions
  exact ⟨windowed.apart, windowed.span⟩

/-- A rank with `rawNum = 2`, `tRRDR = 4` and `tRAW = 24`. -/
def smallRank : RankParams where
  rawNum := 2
  bankCount := 4
  banksPerRefresh := 2
  tCMD := 1
  tRAW := 24
  tRRDR := 4
  tBURST := 4
  tCCD := 4
  tCAS := 10
  tCWD := 7
  tRTRS := 1
  tWTR := 5
  tOST := 0
  tPPD := 0
  tAL := 0
  tRTP := 5
  tWR := 10
  tPD := 4
  tXP := 5
  tXPDLL := 16
  tRFC := 107
  rawNum_pos := by decide

-- the commands at 33 and 53 are refused: too close to the last one, and the third within the window
example : (runActions (RankRun.act ⟨fun _ _ _ => true, fun bank _ _ => (bank, true), fun _ => true⟩)
    ⟨StandardRank.create smallRank fun _ => (), []⟩
    ([(30, .activate), (33, .activate), (34, .refresh), (53, .activate), (54, .activate)].map
      fun (now, type) => .issueCommand now ⟨type, 0, 0, 0, 0, 1⟩)).activations = [30, 34, 54] := by
  decide

end Emas.Nvmain

/-
**The timing registers of a bank.**

Each command raises registers of `DDR3Bank` to the cycle from which the next one may come, by `MAX` of the register
and the new cycle. `Write` takes `nextActivate` for `nextPowerDown` in one place: with an implicit precharge,
`nextPowerDown` is no less than `nextActivate`, but may be less than it was.

* `registers_grow_iff`: **the runs in which no register ever goes back.**
-/

import Emas.Nvmain.BankAgreement

namespace Emas.Nvmain

open Table

/-! ### Registers -/

/-- The cycles from which the next command of each kind may come. -/
structure BankRegisters where
  nextActivate : Nat
  nextRead : Nat
  nextWrite : Nat
  nextPrecharge : Nat
  nextPowerDown : Nat
  nextPowerUp : Nat
  deriving DecidableEq, Repr

/-- The registers of a bank. -/
def DDR3Bank.registers (bank : DDR3Bank) : BankRegisters :=
  ⟨bank.nextActivate, bank.nextRead, bank.nextWrite, bank.nextPrecharge, bank.nextPowerDown, bank.nextPowerUp⟩

/-- No register goes back. -/
structure RegistersLe (before after : BankRegisters) : Prop where
  nextActivate : before.nextActivate ≤ after.nextActivate
  nextRead : before.nextRead ≤ after.nextRead
  nextWrite : before.nextWrite ≤ after.nextWrite
  nextPrecharge : before.nextPrecharge ≤ after.nextPrecharge
  nextPowerDown : before.nextPowerDown ≤ after.nextPowerDown
  nextPowerUp : before.nextPowerUp ≤ after.nextPowerUp

namespace RegistersLe

variable {first second third : BankRegisters}

theorem refl (registers : BankRegisters) : RegistersLe registers registers :=
  ⟨Nat.le_refl _, Nat.le_refl _, Nat.le_refl _, Nat.le_refl _, Nat.le_refl _, Nat.le_refl _⟩

theorem trans (le : RegistersLe first second) (le' : RegistersLe second third) : RegistersLe first third :=
  ⟨Nat.le_trans le.nextActivate le'.nextActivate, Nat.le_trans le.nextRead le'.nextRead,
    Nat.le_trans le.nextWrite le'.nextWrite, Nat.le_trans le.nextPrecharge le'.nextPrecharge,
    Nat.le_trans le.nextPowerDown le'.nextPowerDown, Nat.le_trans le.nextPowerUp le'.nextPowerUp⟩

end RegistersLe

/-! ### Commands -/

namespace DDR3Bank

variable {params : BankParams} {bank : DDR3Bank} {now : Nat} {request : DeviceRequest} {latency : Nat → DeviceLatency}

@[simp] theorem issueTo_registers (i : Nat) :
    (bank.issueTo params now request latency i).1.registers = bank.registers := rfl

@[simp] theorem closeSubArray_registers (i : Nat) : (bank.closeSubArray i).registers = bank.registers := rfl

@[simp] theorem prechargeQueue_registers (queue : List Nat) :
    (prechargeQueue params now request latency bank queue).1.registers = bank.registers := by
  induction queue generalizing bank with
  | nil => rfl
  | cons openedSubArray rest ih =>
    unfold prechargeQueue
    dsimp only
    split
    · exact ih
    · rfl

theorem passOn_registers (leaves : Prop) [Decidable leaves] :
    (if (bank.issueTo params now request latency request.subarray).2 = true ∧ leaves then
        ((bank.issueTo params now request latency request.subarray).1.closeSubArray request.subarray,
          (bank.issueTo params now request latency request.subarray).2)
      else bank.issueTo params now request latency request.subarray).1.registers = bank.registers := by
  split <;> rfl

theorem powerDown_registersLe : RegistersLe bank.registers (bank.powerDown params now request).1.registers := by
  have raised : RegistersLe bank.registers
      { bank.registers with nextPowerUp := max bank.nextPowerUp (now + params.tPD) } :=
    ⟨Nat.le_refl _, Nat.le_refl _, Nat.le_refl _, Nat.le_refl _, Nat.le_refl _, Nat.le_max_left ..⟩
  unfold powerDown
  split
  · dsimp only
    split
    · exact raised
    · split <;> exact raised
    · exact raised
  · exact .refl _

theorem powerUp_registersLe : RegistersLe bank.registers (bank.powerUp params now).1.registers := by
  unfold powerUp
  split
  · exact ⟨Nat.le_max_left .., Nat.le_max_left .., Nat.le_max_left .., Nat.le_max_left .., Nat.le_max_left ..,
      Nat.le_refl _⟩
  · exact .refl _

theorem powerDown_raised (cycle : Nat) : RegistersLe bank.registers
    { bank with nextPowerDown := max bank.nextPowerDown cycle }.registers :=
  ⟨Nat.le_refl _, Nat.le_refl _, Nat.le_refl _, Nat.le_refl _, Nat.le_max_left .., Nat.le_refl _⟩

theorem activate_registersLe : RegistersLe bank.registers (bank.activate params now request latency).1.registers := by
  unfold activate
  split
  · exact .refl _
  · split
    · exact .refl _
    · dsimp only
      split <;> exact powerDown_raised _

theorem refresh_registersLe : RegistersLe bank.registers (bank.refresh params now request latency).1.registers := by
  unfold refresh
  split
  · exact .refl _
  · exact powerDown_raised _

theorem precharge_registersLe : RegistersLe bank.registers (bank.precharge params now request latency).1.registers := by
  unfold precharge
  split
  · exact .refl _
  · split
    · exact .refl _
    · dsimp only
      split
      · split <;> exact powerDown_raised _
      · split
        · show RegistersLe bank.registers (prechargeQueue params now request latency _ _).1.registers
          rw [prechargeQueue_registers]
          exact powerDown_raised _
        · rw [prechargeQueue_registers]
          exact powerDown_raised _
      · exact powerDown_raised _

theorem read_registersLe : RegistersLe bank.registers (bank.read params now request latency).1.registers := by
  unfold read
  split
  · exact .refl _
  · split
    · exact .refl _
    · dsimp only
      rw [passOn_registers]
      exact ⟨Nat.le_refl _, Nat.le_max_left .., Nat.le_max_left .., Nat.le_refl _, Nat.le_max_left .., Nat.le_refl _⟩

/-- When an implicit precharge after a write is done, and the bank may be powered down. -/
def writePrechargeEnd (params : BankParams) (now : Nat) (request : DeviceRequest) : Nat :=
  now + SubArray.bursts params.toSubArrayParams request + params.tAL + params.tCWD + params.tBURST + params.tWR +
    params.tRP

theorem write_registers (ready : bank.nextWrite ≤ now) (isOpen : bank.state = .open) :
    (bank.write params now request latency).1.registers =
      { bank.registers with
        nextPowerDown :=
          if request.type = .writePrecharge then max bank.nextActivate (writePrechargeEnd params now request)
          else max bank.nextPowerDown (SubArray.bursts params.toSubArrayParams request + now + params.tWRPDEN)
        nextRead := max bank.nextRead (now + SubArray.bursts params.toSubArrayParams request + params.tCWD +
          params.tBURST + params.tWTR)
        nextWrite := max bank.nextWrite (now + max params.tBURST params.tCCD * request.burstCount) } := by
  unfold write
  rw [if_neg (Nat.not_lt.mpr ready), if_neg (not_not_intro isOpen)]
  dsimp only
  rw [passOn_registers]
  rfl

/-- **A write** that the bank takes: its registers grow exactly if an implicit precharge is not done before
`nextPowerDown`, or the bank is to wait as long for an activation. -/
theorem write_registersLe_iff (ready : bank.nextWrite ≤ now) (isOpen : bank.state = .open) :
    RegistersLe bank.registers (bank.write params now request latency).1.registers ↔ (request.type = .writePrecharge →
        bank.nextPowerDown ≤ max bank.nextActivate (writePrechargeEnd params now request)) := by
  rw [write_registers ready isOpen]
  constructor
  · intro grows auto
    have powerDown := grows.nextPowerDown
    dsimp only at powerDown
    rwa [if_pos auto] at powerDown
  · intro late
    refine ⟨Nat.le_refl _, Nat.le_max_left .., Nat.le_max_left .., Nat.le_refl _, ?_, Nat.le_refl _⟩
    dsimp only
    split
    · exact late ‹_›
    · exact Nat.le_max_left ..

/-- A WRITE_PRECHARGE that is accepted does not let the bank power down earlier than before. -/
def KeepsPowerDown (params : BankParams) (bank : DDR3Bank) (now : Nat) (request : DeviceRequest) : Prop :=
  bank.isIssuable params now request = true → request.type = .writePrecharge →
    bank.nextPowerDown ≤ max bank.nextActivate (writePrechargeEnd params now request)

/-- **One command.** -/
theorem issueCommand_registersLe_iff (latency : Nat → DeviceLatency) :
    RegistersLe bank.registers (bank.issueCommand params now request latency).1.registers ↔
      KeepsPowerDown params bank now request := by
  unfold issueCommand
  split
  · rename_i issuable
    have only : request.type ≠ .writePrecharge → KeepsPowerDown params bank now request := fun other _ auto =>
      absurd auto other
    have writes : request.type = .write ∨ request.type = .writePrecharge →
        (RegistersLe bank.registers (bank.write params now request latency).1.registers ↔
          KeepsPowerDown params bank now request) := by
      intro type
      have able : decide (bank.nextWrite ≤ now) = true ∧ decide (bank.state = .open) = true := by
        unfold isIssuable at issuable
        rcases type with type | type <;>
        · rw [type] at issuable
          simp only [Bool.and_eq_true] at issuable
          exact issuable.1
      rw [write_registersLe_iff (of_decide_eq_true able.1) (of_decide_eq_true able.2)]
      exact ⟨fun late _ => late, fun keeps => keeps issuable⟩
    split
    · rename_i type
      exact iff_of_true activate_registersLe (only (by simp [type]))
    · rename_i type
      exact iff_of_true read_registersLe (only (by simp [type]))
    · rename_i type
      exact iff_of_true read_registersLe (only (by simp [type]))
    · rename_i type
      exact writes (.inl type)
    · rename_i type
      exact writes (.inr type)
    · rename_i type
      exact iff_of_true precharge_registersLe (only (by simp [type]))
    · rename_i type
      exact iff_of_true precharge_registersLe (only (by simp [type]))
    · rename_i type
      exact iff_of_true refresh_registersLe (only (by simp [type]))
    · rename_i type
      exact iff_of_true powerDown_registersLe (only (by simp [type]))
    · rename_i type
      exact iff_of_true powerDown_registersLe (only (by simp [type]))
    · rename_i type
      exact iff_of_true powerDown_registersLe (only (by simp [type]))
    · rename_i type
      exact iff_of_true powerUp_registersLe (only (by simp [type]))
    · exact iff_of_true (.refl _) (only ‹_›)
  · rename_i refused
    exact iff_of_true (.refl _) fun issuable => absurd issuable refused

end DDR3Bank

/-! ### Runs -/

namespace BankRun

/-- The action does not move `nextPowerDown` back. -/
def KeepsPowerDown (params : BankParams) (run : BankRun) : BankAction → Prop
  | .issue request _ => DDR3Bank.KeepsPowerDown params run.bank run.now request
  | _ => True

/-- **One step of a run.** Events of the subarrays and the clock touch no register of the bank. -/
theorem act_registersLe_iff (params : BankParams) (run : BankRun) (action : BankAction) :
    RegistersLe run.bank.registers (run.act params action).bank.registers ↔ run.KeepsPowerDown params action := by
  cases action with
  | issue request latency => exact DDR3Bank.issueCommand_registersLe_iff latency
  | complete subArray event => exact iff_of_true (.refl _) trivial
  | tick => exact iff_of_true (.refl _) trivial

/-- **When no timing register of the bank ever goes back**: whatever the commands, their order and their cycles, if and
only if every WRITE_PRECHARGE that is accepted finds `nextPowerDown` no later than `nextActivate` or the end of its
own precharge. -/
theorem registers_grow_iff (params : BankParams) (actions : List BankAction) :
    (∀ before between after, before ++ between ++ after = actions →
        RegistersLe (runActions (BankRun.act params) (.create params) before).bank.registers
          (runActions (BankRun.act params) (.create params) (before ++ between)).bank.registers) ↔
      AllowedRun (BankRun.act params) (BankRun.KeepsPowerDown params) (.create params) actions := by
  refine Iff.trans (AllowedRun.iff_forall_between
    (fun run run' : BankRun => RegistersLe run.bank.registers run'.bank.registers)
    (fun run => .refl run.bank.registers) (fun first second => first.trans second) (.create params) actions).symm ?_
  exact ⟨fun run => run.mono fun run action => (act_registersLe_iff params run action).mp,
    fun run => run.mono fun run action => (act_registersLe_iff params run action).mpr⟩

end BankRun

/-- With the default timing, one subarray is refreshed, and the other one is activated and written with an implicit
precharge. -/
def refreshThenWrite : List BankAction :=
  let latency : Nat → DeviceLatency := fun _ => ⟨0, 0, 0, 0⟩
  let request : DeviceOp → Nat → DeviceRequest := fun type subarray => ⟨type, 0, 0, 0, subarray, 1⟩
  List.flatten [[.issue (request .refresh 1) latency, .issue (request .activate 0) latency], List.replicate 9 .tick,
    [.complete 0 ⟨9, request .activate 0, true, 0⟩, .issue (request .writePrecharge 0) latency]]

/-- **A refresh is forgotten.** All three commands are accepted; the bank could not power down before cycle 107, and may
from cycle 39 on. -/
theorem refresh_forgotten :
    let before := runActions (BankRun.act twoSubArrays) (.create twoSubArrays) (refreshThenWrite.take 12)
    let after := runActions (BankRun.act twoSubArrays) (.create twoSubArrays) refreshThenWrite
    AllowedRun (BankRun.act twoSubArrays) (BankRun.Allowed twoSubArrays) (.create twoSubArrays) refreshThenWrite ∧
      after.accepted.map (·.type) = [.refresh, .activate, .writePrecharge] ∧
      before.bank.nextPowerDown = 107 ∧ after.bank.nextPowerDown = 39 ∧
      ¬RegistersLe before.bank.registers after.bank.registers := by
  refine ⟨by decide +kernel, by decide +kernel, by decide +kernel, by decide +kernel, fun grows => ?_⟩
  have late := grows.nextPowerDown
  revert late
  decide +kernel

end Emas.Nvmain

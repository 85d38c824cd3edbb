/-
**The row bookkeeping of the memory controller.**

Three parallel arrays say, for every subarray, whether it is active and with which row, and a flag for
every bank whether any of its subarrays is. `Rows` is that part of the controller, `Rows.Consistent`
what ties the arrays together.

* `Rows.Consistent.openRow`, `.closeOnly`, `.releaseRow`, `.closeBank`: the four kinds of update keep
  it, each under the condition the controller makes it in. The branch of `IssueMemoryCommands` for a
  closed bank clears the flag of the bank without a look at the other subarrays; none of them is active
  there (`.closeOnly`).
-/

import Emas.Nvmain.CommandPushes

namespace Emas.Nvmain

open Table

variable {χ : Type}

/-! ### The arrays -/

/-- The row bookkeeping: `activateQueued`, `activeSubArray`, `effectiveRow`, `effectiveMuxedRow`. -/
structure Rows where
  activateQueued : Nat → Nat → Bool
  active : Nat → Nat → Nat → Bool
  row : Nat → Nat → Nat → Nat
  muxedRow : Nat → Nat → Nat → Nat

namespace Rows

/-- The subarray of the address becomes active with its row, and the bank is flagged. -/
def openRow (rows : Rows) (cfg : Config) (address : NVMAddress) : Rows where
  activateQueued := set2 rows.activateQueued address.rank address.bank true
  active := set3 rows.active address.rank address.bank address.subarray true
  row := set3 rows.row address.rank address.bank address.subarray address.row
  muxedRow := set3 rows.muxedRow address.rank address.bank address.subarray (MemoryController.muxLevel cfg address)

/-- The subarray becomes inactive. -/
def closeRow (rows : Rows) (cfg : Config) (rank bank subarray : Nat) : Rows where
  activateQueued := rows.activateQueued
  active := set3 rows.active rank bank subarray false
  row := set3 rows.row rank bank subarray cfg.rows
  muxedRow := set3 rows.muxedRow rank bank subarray cfg.rows

/-- The bank is not flagged any more. -/
def clearBank (rows : Rows) (rank bank : Nat) : Rows :=
  { rows with activateQueued := set2 rows.activateQueued rank bank false }

/-- The subarray becomes inactive, and with the last one of its bank the flag goes. -/
def releaseRow (rows : Rows) (cfg : Config) (rank bank subarray : Nat) : Rows :=
  let rows := rows.closeRow cfg rank bank subarray
  if (List.range cfg.subArrayNum).all fun other => !rows.active rank bank other then
    rows.clearBank rank bank
  else rows

/-- All subarrays of the bank become inactive. -/
def closeBank (rows : Rows) (cfg : Config) (rank bank : Nat) : Rows :=
  ((List.range cfg.subArrayNum).foldl (fun rows subarray => rows.closeRow cfg rank bank subarray)
    rows).clearBank rank bank

/-- **The bookkeeping is consistent.** A bank is flagged iff one of its subarrays is active, only
subarrays there are become active, an active one has a valid row and an inactive one the invalid row. -/
structure Consistent (cfg : Config) (rows : Rows) : Prop where
  flagged : ∀ rank bank, rows.activateQueued rank bank = true ↔ ∃ subarray, rows.active rank bank subarray = true
  bounded : ∀ {rank bank subarray}, rows.active rank bank subarray = true → subarray < cfg.subArrayNum
  valid : ∀ {rank bank subarray}, rows.active rank bank subarray = true → rows.row rank bank subarray < cfg.rows
  invalid : ∀ {rank bank subarray}, rows.active rank bank subarray = false →
    rows.row rank bank subarray = cfg.rows ∧ rows.muxedRow rank bank subarray = cfg.rows

namespace Consistent

variable {cfg : Config} {rows : Rows}

theorem inactive (consistent : Consistent cfg rows) {rank bank : Nat}
    (unflagged : rows.activateQueued rank bank = false) (subarray : Nat) : rows.active rank bank subarray = false := by
  by_contra active
  have flagged := (consistent.flagged rank bank).mpr ⟨subarray, by simpa using active⟩
  rw [unflagged] at flagged
  cases flagged

theorem openRow (consistent : Consistent cfg rows) {address : NVMAddress}
    (range : cfg.InRange address) : Consistent cfg (rows.openRow cfg address) where
  flagged rank bank := by
    show set2 rows.activateQueued address.rank address.bank true rank bank = true ↔
      ∃ subarray, set3 rows.active address.rank address.bank address.subarray true rank bank subarray = true
    simp only [set2_apply, set3_apply]
    by_cases here : rank = address.rank ∧ bank = address.bank
    · rw [if_pos here]
      exact ⟨fun _ => ⟨address.subarray, if_pos ⟨here.1, here.2, rfl⟩⟩, fun _ => rfl⟩
    · rw [if_neg here, consistent.flagged]
      refine exists_congr fun subarray => ?_
      rw [if_neg fun there => here ⟨there.1, there.2.1⟩]
  bounded {rank bank subarray} active := by
    have active : set3 rows.active address.rank address.bank address.subarray true rank bank subarray = true := active
    rw [set3_apply] at active
    split at active
    · rename_i here
      exact here.2.2 ▸ range.subarray
    · exact consistent.bounded active
  valid {rank bank subarray} active := by
    have active : set3 rows.active address.rank address.bank address.subarray true rank bank subarray = true := active
    show set3 rows.row address.rank address.bank address.subarray address.row rank bank subarray < _
    rw [set3_apply] at active ⊢
    split at active
    · rename_i here
      rw [if_pos here]
      exact range.row
    · rename_i there
      rw [if_neg there]
      exact consistent.valid active
  invalid {rank bank subarray} inactive := by
    have inactive : set3 rows.active address.rank address.bank address.subarray true rank bank
      subarray = false := inactive
    show set3 rows.row address.rank address.bank address.subarray address.row rank bank subarray = _ ∧
      set3 rows.muxedRow address.rank address.bank address.subarray _ rank bank subarray = _
    rw [set3_apply] at inactive ⊢
    rw [set3_apply]
    split at inactive
    · cases inactive
    · rename_i there
      rw [if_neg there, if_neg there]
      exact consistent.invalid inactive

theorem closeRow_fields (consistent : Consistent cfg rows) (rank bank subarray : Nat) :
    (∀ {rank' bank' subarray'}, (rows.closeRow cfg rank bank subarray).active rank' bank' subarray' =
        true → rows.active rank' bank' subarray' = true ∧
          ¬(rank' = rank ∧ bank' = bank ∧ subarray' = subarray) ∧ subarray' < cfg.subArrayNum ∧
          (rows.closeRow cfg rank bank subarray).row rank' bank' subarray' < cfg.rows) ∧
      ∀ {rank' bank' subarray'}, (rows.closeRow cfg rank bank subarray).active rank' bank' subarray' =
        false → (rows.closeRow cfg rank bank subarray).row rank' bank' subarray' = cfg.rows ∧
          (rows.closeRow cfg rank bank subarray).muxedRow rank' bank' subarray' = cfg.rows := by
  constructor
  · intro rank' bank' subarray' active
    have active : set3 rows.active rank bank subarray false rank' bank' subarray' = true := active
    rw [set3_apply] at active
    split at active
    · cases active
    · rename_i there
      refine ⟨active, there, consistent.bounded active, ?_⟩
      show set3 rows.row rank bank subarray cfg.rows rank' bank' subarray' < cfg.rows
      rw [set3_apply, if_neg there]
      exact consistent.valid active
  · intro rank' bank' subarray' inactive
    have inactive : set3 rows.active rank bank subarray false rank' bank' subarray' = false := inactive
    show set3 rows.row rank bank subarray cfg.rows rank' bank' subarray' = cfg.rows ∧
      set3 rows.muxedRow rank bank subarray cfg.rows rank' bank' subarray' = cfg.rows
    rw [set3_apply, set3_apply]
    rw [set3_apply] at inactive
    split at inactive
    · rename_i here
      simp only [if_pos here, and_self]
    · rename_i there
      simp only [if_neg there]
      exact consistent.invalid inactive

theorem closeOnly (consistent : Consistent cfg rows) {rank bank subarray : Nat}
    (only : ∀ other, rows.active rank bank other = true → other = subarray) :
    Consistent cfg ((rows.closeRow cfg rank bank subarray).clearBank rank bank) := by
  obtain ⟨active, inactive⟩ := consistent.closeRow_fields rank bank subarray
  refine ⟨fun rank' bank' => ?_, fun still => (active still).2.2.1, fun still => (active still).2.2.2, inactive⟩
  show set2 rows.activateQueued rank bank false rank' bank' = true ↔
    ∃ subarray', set3 rows.active rank bank subarray false rank' bank' subarray' = true
  simp only [set2_apply, set3_apply]
  by_cases here : rank' = rank ∧ bank' = bank
  · obtain ⟨rfl, rfl⟩ := here
    simp only [and_self, if_true, true_and, Bool.false_eq_true, false_iff, not_exists]
    intro other
    split
    · simp
    · rename_i different
      exact fun still => different (only other still)
  · rw [if_neg here, consistent.flagged]
    refine exists_congr fun other => ?_
    rw [if_neg fun there => here ⟨there.1, there.2.1⟩]

theorem closeOther (consistent : Consistent cfg rows) {rank bank subarray other : Nat}
    (different : other ≠ subarray) (still : rows.active rank bank other = true) :
    Consistent cfg (rows.closeRow cfg rank bank subarray) := by
  obtain ⟨active, inactive⟩ := consistent.closeRow_fields rank bank subarray
  refine ⟨fun rank' bank' => ?_, fun still => (active still).2.2.1, fun still => (active still).2.2.2, inactive⟩
  show rows.activateQueued rank' bank' = true ↔
    ∃ subarray', set3 rows.active rank bank subarray false rank' bank' subarray' = true
  rw [consistent.flagged]
  constructor
  · rintro ⟨subarray', present⟩
    by_cases here : rank' = rank ∧ bank' = bank
    · obtain ⟨rfl, rfl⟩ := here
      exact ⟨other, by rw [set3_apply, if_neg fun there => different there.2.2]; exact still⟩
    · exact ⟨subarray', by rw [set3_apply, if_neg fun there => here ⟨there.1, there.2.1⟩]; exact present⟩
  · rintro ⟨subarray', present⟩
    exact ⟨subarray', (active present).1⟩

theorem releaseRow (consistent : Consistent cfg rows) (rank bank subarray : Nat) :
    Consistent cfg (rows.releaseRow cfg rank bank subarray) := by
  unfold Rows.releaseRow
  dsimp only
  obtain ⟨active, -⟩ := consistent.closeRow_fields rank bank subarray
  split
  · rename_i idle
    refine consistent.closeOnly fun other still => ?_
    by_contra different
    have kept : (rows.closeRow cfg rank bank subarray).active rank bank other = true := by
      show set3 rows.active rank bank subarray false rank bank other = true
      rw [set3_apply, if_neg fun there => different there.2.2]
      exact still
    have silent := List.all_eq_true.mp idle other (List.mem_range.mpr (active kept).2.2.1)
    rw [kept] at silent
    cases silent
  · rename_i busy
    obtain ⟨other, -, kept⟩ := by simpa only [List.all_eq_true, not_forall] using busy
    have kept : (rows.closeRow cfg rank bank subarray).active rank bank other = true := by
      simpa using kept
    exact consistent.closeOther (fun same => (active kept).2.1 ⟨rfl, rfl, same⟩) (active kept).1

end Consistent

/-! ### Closing a bank -/

theorem closeRows_eq (cfg : Config) (rank bank : Nat) (subarrays : List Nat) (rows : Rows) :
    subarrays.foldl (fun rows subarray => rows.closeRow cfg rank bank subarray) rows =
      { activateQueued := rows.activateQueued
        active := fun rank' bank' subarray' =>
          if rank' = rank ∧ bank' = bank ∧ subarray' ∈ subarrays then false
          else rows.active rank' bank' subarray'
        row := fun rank' bank' subarray' =>
          if rank' = rank ∧ bank' = bank ∧ subarray' ∈ subarrays then cfg.rows
          else rows.row rank' bank' subarray'
        muxedRow := fun rank' bank' subarray' =>
          if rank' = rank ∧ bank' = bank ∧ subarray' ∈ subarrays then cfg.rows
          else rows.muxedRow rank' bank' subarray' } := by
  induction subarrays generalizing rows with
  | nil => simp
  | cons first rest ih =>
    rw [List.foldl_cons, ih]
    have merge : ∀ {α : Type} (value : α) (table : Nat → Nat → Nat → α) (rank' bank' subarray' : Nat),
        (if rank' = rank ∧ bank' = bank ∧ subarray' ∈ rest then value
          else set3 table rank bank first value rank' bank' subarray') =
        if rank' = rank ∧ bank' = bank ∧ subarray' ∈ first :: rest then value
          else table rank' bank' subarray' := by
      intro α value table rank' bank' subarray'
      rw [set3_apply]
      by_cases inRest : rank' = rank ∧ bank' = bank ∧ subarray' ∈ rest
      · rw [if_pos inRest, if_pos ⟨inRest.1, inRest.2.1, List.mem_cons_of_mem _ inRest.2.2⟩]
      · rw [if_neg inRest]
        refine if_congr ?_ rfl rfl
        rw [List.mem_cons]
        tauto
    simp only [closeRow, merge]

theorem closeBank_eq (rows : Rows) (cfg : Config) (rank bank : Nat) : rows.closeBank cfg rank bank =
    { activateQueued := set2 rows.activateQueued rank bank false
      active := fun rank' bank' subarray' =>
        if rank' = rank ∧ bank' = bank ∧ subarray' < cfg.subArrayNum then false
        else rows.active rank' bank' subarray'
      row := fun rank' bank' subarray' =>
        if rank' = rank ∧ bank' = bank ∧ subarray' < cfg.subArrayNum then cfg.rows
        else rows.row rank' bank' subarray'
      muxedRow := fun rank' bank' subarray' =>
        if rank' = rank ∧ bank' = bank ∧ subarray' < cfg.subArrayNum then cfg.rows
        else rows.muxedRow rank' bank' subarray' } := by
  unfold closeBank
  rw [closeRows_eq]
  simp only [clearBank, List.mem_range]

theorem Consistent.closeBank {cfg : Config} {rows : Rows} (consistent : Consistent cfg rows)
    (rank bank : Nat) : Consistent cfg (rows.closeBank cfg rank bank) := by
  rw [closeBank_eq]
  constructor
  · intro rank' bank'
    show set2 rows.activateQueued rank bank false rank' bank' = true ↔ ∃ subarray',
      (if rank' = rank ∧ bank' = bank ∧ subarray' < cfg.subArrayNum then false
        else rows.active rank' bank' subarray') = true
    rw [set2_apply]
    by_cases here : rank' = rank ∧ bank' = bank
    · rw [if_pos here]
      simp only [here.1, here.2, true_and, Bool.false_eq_true, false_iff, not_exists]
      intro subarray'
      split
      · simp
      · rename_i beyond
        exact fun active => beyond (consistent.bounded active)
    · rw [if_neg here, consistent.flagged]
      refine exists_congr fun subarray' => ?_
      rw [if_neg fun there => here ⟨there.1, there.2.1⟩]
  · intro rank' bank' subarray' active
    dsimp only at active
    split at active
    · cases active
    · exact consistent.bounded active
  · intro rank' bank' subarray' active
    dsimp only at active ⊢
    split at active
    · cases active
    · rename_i there
      rw [if_neg there]
      exact consistent.valid active
  · intro rank' bank' subarray' inactive
    dsimp only at inactive ⊢
    split at inactive
    · rename_i here
      simp only [if_pos here, and_self]
    · rename_i there
      simp only [if_neg there]
      exact consistent.invalid inactive

end Rows

/-! ### The arrays of the controller -/

namespace MemoryController

/-- The row bookkeeping of a controller. -/
def rows (mc : MemoryController) : Rows :=
  ⟨mc.activateQueued, mc.activeSubArray, mc.effectiveRow, mc.effectiveMuxedRow⟩

variable (cfg : Config) (mc : MemoryController)

@[simp] theorem rows_pushBack (queueId : Nat) (request : NVMainRequest) :
    (mc.pushBack queueId request).rows = mc.rows := rfl

@[simp] theorem rows_check (assertion : Assertion) (condition : Bool) :
    (mc.check assertion condition).rows = mc.rows := by
  unfold check
  split <;> rfl

theorem rows_queueClosedBank (request : NVMainRequest) (writing : Bool) (now : Nat) :
    (mc.queueClosedBank cfg request writing now).rows =
      if request.lastRequest && cfg.usePrecharge then
        ((mc.rows.openRow cfg request.address).closeRow cfg request.address.rank request.address.bank
          request.address.subarray).clearBank request.address.rank request.address.bank
      else mc.rows.openRow cfg request.address := by
  unfold queueClosedBank
  dsimp only
  split <;> rfl

theorem rows_queueRowMiss (request : NVMainRequest) (writing : Bool) (now : Nat) :
    (mc.queueRowMiss cfg request writing now).rows = mc.rows.openRow cfg request.address := by
  unfold queueRowMiss
  dsimp only
  split <;> rfl

theorem rows_releaseRow (rank bank subarray : Nat) :
    (mc.releaseRow cfg rank bank subarray).rows = mc.rows.releaseRow cfg rank bank subarray :=
  apply_ite rows _ _ _

theorem rows_queueRowHit (request : NVMainRequest) (now : Nat) :
    (mc.queueRowHit cfg request now).rows =
      if request.lastRequest && cfg.usePrecharge then
        mc.rows.releaseRow cfg request.address.rank request.address.bank request.address.subarray
      else mc.rows := by
  unfold queueRowHit
  dsimp only
  split
  · rw [rows_releaseRow, rows_pushBack, rows_check]
    rfl
  · rfl

theorem queueClosedBank_frame (request : NVMainRequest) (writing : Bool) (now : Nat) :
    (mc.queueClosedBank cfg request writing now).transactionQueue = mc.transactionQueue ∧
      (mc.queueClosedBank cfg request writing now).failedAsserts = mc.failedAsserts := by
  unfold queueClosedBank
  dsimp only
  split <;> exact ⟨rfl, rfl⟩

theorem queueRowMiss_frame (request : NVMainRequest) (writing : Bool) (now : Nat) :
    (mc.queueRowMiss cfg request writing now).transactionQueue = mc.transactionQueue ∧
      (mc.queueRowMiss cfg request writing now).failedAsserts = mc.failedAsserts := by
  unfold queueRowMiss
  dsimp only
  split <;> exact ⟨rfl, rfl⟩

theorem queueRowHit_frame (request : NVMainRequest) (now : Nat) :
    (mc.queueRowHit cfg request now).transactionQueue = mc.transactionQueue ∧
      ((mc.queueRowHit cfg request now).failedAsserts = mc.failedAsserts ∨
        cfg.usePrecharge = true ∧ cfg.closePage = 2) := by
  unfold queueRowHit releaseRow check
  dsimp only
  split
  · rename_i last
    split
    · split <;> exact ⟨rfl, Or.inl rfl⟩
    · rename_i close
      have close : cfg.closePage = 2 := by simpa using close
      have pre : cfg.usePrecharge = true := (Bool.and_eq_true_iff.mp last).2
      split <;> exact ⟨rfl, Or.inr ⟨pre, close⟩⟩
  · exact ⟨rfl, Or.inl rfl⟩

theorem rows_prechargeBank (rank bank now : Nat) :
    (mc.prechargeBank cfg rank bank now).rows =
      if mc.activateQueued rank bank then mc.rows.closeBank cfg rank bank else mc.rows := by
  unfold prechargeBank
  split
  · have loop : ∀ (subarrays : List Nat) (mc : MemoryController),
        (subarrays.foldl (fun mc subarray => mc.closeRow cfg rank bank subarray) mc).rows =
          subarrays.foldl (fun rows subarray => rows.closeRow cfg rank bank subarray) mc.rows := by
      intro subarrays
      induction subarrays with
      | nil => exact fun _ => rfl
      | cons first rest ih => exact fun mc => ih (mc.closeRow cfg rank bank first)
    exact congrArg (Rows.clearBank · rank bank) (loop _ _)
  · rfl

theorem rows_queueRefresh (i j now : Nat) :
    (mc.queueRefresh cfg i j now).rows = (mc.prechargeGroup cfg i j now).rows := by
  unfold queueRefresh advanceRefresh
  dsimp only
  split <;> split <;> rfl

end MemoryController

namespace Rows.Consistent

variable {cfg : Config} {mc : MemoryController} {request : NVMainRequest}

theorem queueClosedBank (consistent : Consistent cfg mc.rows) (range : cfg.InRange request.address)
    (closed : mc.activateQueued request.address.rank request.address.bank = false) (writing : Bool)
    (now : Nat) : Consistent cfg (mc.queueClosedBank cfg request writing now).rows := by
  rw [MemoryController.rows_queueClosedBank]
  have opened := consistent.openRow range
  split
  · refine opened.closeOnly fun other active => ?_
    by_contra different
    have active : set3 mc.rows.active request.address.rank request.address.bank
      request.address.subarray true request.address.rank request.address.bank other = true := active
    rw [set3_apply, if_neg fun there => different there.2.2, consistent.inactive closed] at active
    cases active
  · exact opened

theorem queueRowMiss (consistent : Consistent cfg mc.rows) (range : cfg.InRange request.address)
    (writing : Bool) (now : Nat) : Consistent cfg (mc.queueRowMiss cfg request writing now).rows := by
  rw [MemoryController.rows_queueRowMiss]
  exact consistent.openRow range

theorem queueRowHit (consistent : Consistent cfg mc.rows) (now : Nat) :
    Consistent cfg (mc.queueRowHit cfg request now).rows := by
  rw [MemoryController.rows_queueRowHit]
  split
  · exact consistent.releaseRow _ _ _
  · exact consistent

theorem prechargeBank (consistent : Consistent cfg mc.rows) (rank bank now : Nat) :
    Consistent cfg (mc.prechargeBank cfg rank bank now).rows := by
  rw [MemoryController.rows_prechargeBank]
  split
  · exact consistent.closeBank rank bank
  · exact consistent

end Rows.Consistent

/-! ### The invariant -/

/-- **The controller's bookkeeping**: the arrays are consistent, under restricted close-page no bank is
open, the assertion of the row-hit branch has not failed, and the waiting requests are for addresses of
the controller. -/
structure Bookkept (cfg : Config) (mc : MemoryController) : Prop where
  consistent : Rows.Consistent cfg mc.rows
  restricted : cfg.usePrecharge = true → 2 ≤ cfg.closePage → ∀ rank bank, mc.rows.activateQueued rank bank = false
  asserted : Assertion.closePage ∉ mc.failedAsserts
  range : ∀ request ∈ mc.transactionQueue, cfg.InRange request.address

namespace Bookkept

variable {cfg : Config} {mc after : MemoryController}

theorem create (cfg : Config) : Bookkept cfg (.create cfg) where
  consistent :=
    { flagged := fun _ _ => by simp [MemoryController.rows, MemoryController.create]
      bounded := fun active => by cases active
      valid := fun active => by cases active
      invalid := fun _ => ⟨rfl, rfl⟩ }
  restricted _ _ _ _ := rfl
  asserted := List.not_mem_nil
  range _ member := absurd member List.not_mem_nil

theorem frame (kept : Bookkept cfg mc) (rows : after.rows = mc.rows)
    (asserts : Assertion.closePage ∈ after.failedAsserts → Assertion.closePage ∈ mc.failedAsserts)
    (range : ∀ request ∈ after.transactionQueue, cfg.InRange request.address) : Bookkept cfg after where
  consistent := by rw [rows]; exact kept.consistent
  restricted pre close rank bank := by rw [rows]; exact kept.restricted pre close rank bank
  asserted failed := kept.asserted (asserts failed)
  range := range

/-! ### IssueMemoryCommands -/

section Commands

variable {request : NVMainRequest} {writing : Bool} {now : Nat}

theorem queueClosedBank (kept : Bookkept cfg mc) (range : cfg.InRange request.address)
    (closed : mc.activateQueued request.address.rank request.address.bank = false)
    (last : 2 ≤ cfg.closePage → request.lastRequest = true) :
    Bookkept cfg (mc.queueClosedBank cfg request writing now) := by
  obtain ⟨queue, asserts⟩ := MemoryController.queueClosedBank_frame cfg mc request writing now
  refine ⟨kept.consistent.queueClosedBank range closed writing now, fun pre close rank bank => ?_,
    asserts ▸ kept.asserted, queue ▸ kept.range⟩
  have ended : (request.lastRequest && cfg.usePrecharge) = true := by simp [last close, pre]
  rw [MemoryController.rows_queueClosedBank, if_pos ended]
  show set2 (set2 mc.rows.activateQueued request.address.rank request.address.bank true)
    request.address.rank request.address.bank false rank bank = false
  rw [set2_apply, set2_apply]
  split
  · rfl
  · exact kept.restricted pre close rank bank

theorem queueRowMiss (kept : Bookkept cfg mc) (range : cfg.InRange request.address)
    (missed : mc.rowMiss cfg request.address = true) : Bookkept cfg (mc.queueRowMiss cfg request writing now) := by
  obtain ⟨queue, asserts⟩ := MemoryController.queueRowMiss_frame cfg mc request writing now
  refine ⟨kept.consistent.queueRowMiss range writing now, fun pre close => ?_,
    asserts ▸ kept.asserted, queue ▸ kept.range⟩
  have flagged : mc.activateQueued request.address.rank request.address.bank = true :=
    (Bool.and_eq_true_iff.mp missed).1
  have closed := kept.restricted pre close request.address.rank request.address.bank
  exact absurd (flagged.symm.trans closed) (by simp)

theorem queueRowHit (kept : Bookkept cfg mc) (hit : mc.rowHit cfg request.address = true) :
    Bookkept cfg (mc.queueRowHit cfg request now) := by
  obtain ⟨queue, asserts⟩ := MemoryController.queueRowHit_frame cfg mc request now
  have flagged : mc.activateQueued request.address.rank request.address.bank = true :=
    (Bool.and_eq_true_iff.mp (Bool.and_eq_true_iff.mp (Bool.and_eq_true_iff.mp hit).1).1).1
  have relaxed : ¬(cfg.usePrecharge = true ∧ 2 ≤ cfg.closePage) := by
    rintro ⟨pre, close⟩
    have closed := kept.restricted pre close request.address.rank request.address.bank
    exact absurd (flagged.symm.trans closed) (by simp)
  refine ⟨kept.consistent.queueRowHit now, fun pre close => absurd ⟨pre, close⟩ relaxed, ?_, queue ▸ kept.range⟩
  rcases asserts with same | ⟨pre, close⟩
  · exact same ▸ kept.asserted
  · exact absurd ⟨pre, close.ge⟩ relaxed

/-- `IssueMemoryCommands`, on a request that is the last one for its row or is served without the row
buffer when close-page is restricted. -/
theorem queueCommands (kept : Bookkept cfg mc) (range : cfg.InRange request.address) {cached : Bool}
    (last : 2 ≤ cfg.closePage → cached = true ∨ request.lastRequest = true) :
    Bookkept cfg (mc.queueCommands cfg request cached writing now).1 := by
  rcases queueCommands_cases cfg mc request cached writing now with
    ⟨-, -, same⟩ | ⟨closed, fresh, -, same⟩ | ⟨missed, fresh, -, same⟩ | ⟨hit, same⟩ | ⟨-, same⟩
  · rw [same]
    exact kept.frame rfl id kept.range
  · rw [same]
    exact kept.queueClosedBank range closed fun close => (last close).resolve_left (by simp [fresh])
  · rw [same]
    exact kept.queueRowMiss range missed
  · rw [same]
    exact kept.queueRowHit hit
  · rw [same]
    exact kept

end Commands

/-- Under restricted close-page every request that a search finds is the last one, or is served
without the row buffer. -/
theorem picked_last {child : Child χ} {sys : System χ} {request original : NVMainRequest}
    {front back : List NVMainRequest} (restricted : 2 ≤ cfg.closePage)
    (picked : Picked cfg child sys request mc front original back) :
    sys.cachedAnswer child request = true ∨ request.lastRequest = true := by
  refine picked.last.imp And.left fun last => ?_
  have closes : MemoryController.isLastRequest cfg (front ++ back) original = true := by
    unfold MemoryController.isLastRequest
    rw [if_neg (by omega), if_neg (by omega)]
  rw [last, closes, Bool.or_true]

/-! ### Refreshes and the issue of commands -/

theorem prechargeBank (kept : Bookkept cfg mc) (rank bank now : Nat) :
    Bookkept cfg (mc.prechargeBank cfg rank bank now) := by
  obtain ⟨queue, asserts⟩ := MemoryController.prechargeBank_frame cfg mc rank bank now
  refine ⟨kept.consistent.prechargeBank rank bank now, fun pre close rank' bank' => ?_,
    asserts ▸ kept.asserted, queue ▸ kept.range⟩
  rw [MemoryController.rows_prechargeBank]
  split
  · rw [Rows.closeBank_eq]
    show set2 mc.rows.activateQueued rank bank false rank' bank' = false
    rw [set2_apply]
    split
    · rfl
    · exact kept.restricted pre close rank' bank'
  · exact kept.restricted pre close rank' bank'

theorem queueRefresh (kept : Bookkept cfg mc) (i j now : Nat) : Bookkept cfg (mc.queueRefresh cfg i j now) := by
  obtain ⟨queue, asserts⟩ := MemoryController.queueRefresh_frame cfg mc i j now
  have precharged := MemoryController.prechargeGroup_keeps cfg mc (Bookkept cfg) i j now
    (fun mc tmpBank _ kept => kept.prechargeBank i _ now) kept
  exact precharged.frame (MemoryController.rows_queueRefresh cfg mc i j now)
    (fun failed => absurd (asserts ▸ failed) kept.asserted) (queue ▸ kept.range)

end Bookkept

/-! ### Runs -/

/-- The actions around the controller: requests come with addresses of the controller, and commands are
queued for what the searches find. -/
def RowAction (cfg : Config) (_sys : System χ) : Action χ → Prop
  | .accept request => cfg.InRange (cfg.translate request.address.physical)
  | .complete request => cfg.InRange request.address
  | .queue _ => False
  | _ => True

/-- **Every action keeps the bookkeeping.** -/
theorem perform_bookkept {cfg : Config} {child : Child χ} (sys : System χ) (action : Action χ)
    (fits : RowAction cfg sys action) (kept : Bookkept cfg sys.mc) :
    Bookkept cfg (sys.perform cfg child action).mc := by
  have framed : Framed (Bookkept cfg) fun waiting => cfg.InRange waiting.address :=
    ⟨Bookkept.range, fun _ _ _ _ _ _ kept range => kept.frame rfl id range⟩
  refine framed.perform kept ?_
  cases action with
  | environment below queue lastCommandWake deadlocked outOfDepth => trivial
  | accept request => exact fits
  | complete request => exact fun _ => fits
  | pulse refresh => trivial
  | schedule finder pred =>
    intro request mc front original back picked rest range
    have address : request.address = original.address := by rw [picked.same]
    have last : 2 ≤ cfg.closePage → sys.cachedAnswer child request = true ∨ request.lastRequest = true :=
      fun close => Bookkept.picked_last close picked
    exact rest.queueCommands (address ▸ range) last
  | queue request => exact fits.elim
  | refresh => exact fun i j _ => kept.queueRefresh _ _ _
  | issue queueId =>
    intro queueHead rest queue
    obtain ⟨flags, failed, issued, current, others, same⟩ := issueHead_changes cfg child queue
    rw [same]
    exact kept.frame rfl (fun member => (List.mem_append.mp member).resolve_right others) kept.range
  | cleanup => exact kept.frame rfl id kept.range

/-- The calls of a run: those of the controller's functions, and the actions of `RowAction`. -/
def RowCall (cfg : Config) (sys : System χ) : ControllerCall χ → Prop
  | .other action => RowAction cfg sys action
  | _ => True

theorem rowAction_permits (cfg : Config) : Permits (RowAction cfg (χ := χ)) where
  environment _ _ _ _ _ _ := trivial
  pulse _ _ := trivial
  schedule _ _ _ := trivial
  refresh _ := trivial
  issue _ _ := trivial

/-- **The row bookkeeping is consistent in every reachable state.** After every run of
`IssueMemoryCommands` on requests found by the searches, `HandleRefresh`, `CycleCommandQueues` and the
callbacks, whatever the child, the page policy and `UsePrecharge`: a bank is flagged iff one of its
subarrays is active, a subarray is inactive iff both of its rows are the invalid one, and the assertion
of the row-hit branch has not failed. -/
theorem rows_consistent (cfg : Config) (child : Child χ) (below : χ) (queue : ControllerQueue)
    (calls : List (ControllerCall χ))
    (run : AllowedRun (System.invoke cfg child) (RowCall cfg) (System.setConfig cfg below queue) calls) :
    let mc := (runActions (System.invoke cfg child) (System.setConfig cfg below queue) calls).mc
    (∀ rank bank, mc.activateQueued rank bank = true ↔
      ∃ subarray < cfg.subArrayNum, mc.activeSubArray rank bank subarray = true) ∧
    (∀ rank bank subarray, mc.activeSubArray rank bank subarray = false ↔
      mc.effectiveRow rank bank subarray = cfg.rows ∧ mc.effectiveMuxedRow rank bank subarray = cfg.rows) ∧
    Assertion.closePage ∉ mc.failedAsserts := by
  have kept : Bookkept cfg (runActions (System.invoke cfg child) (System.setConfig cfg below queue) calls).mc := by
    refine run.invariant (fun sys => Bookkept cfg sys.mc) (fun sys call fits kept => ?_) (Bookkept.create cfg)
    refine (invoke_reaches (rowAction_permits cfg) sys call ?_).invariant
      (fun sys => Bookkept cfg sys.mc) perform_bookkept kept
    rintro action rfl
    exact fits
  refine ⟨fun rank bank => ?_, fun rank bank subarray => ⟨fun inactive => kept.consistent.invalid inactive,
    fun invalid => ?_⟩, kept.asserted⟩
  · refine (kept.consistent.flagged rank bank).trans ?_
    exact ⟨fun ⟨subarray, active⟩ => ⟨subarray, kept.consistent.bounded active, active⟩,
      fun ⟨subarray, _, active⟩ => ⟨subarray, active⟩⟩
  · by_contra active
    have valid := kept.consistent.valid (Bool.eq_true_of_not_eq_false active)
    exact absurd invalid.1 valid.ne

/-- Reads of both subarrays of bank 0 and of another row, with a refresh in between. -/
def mixedCalls : List (ControllerCall Unit) :=
  [.other (.accept (.incoming 1 .read 0)), .other (.accept (.incoming 2 .read 64)),
    .other (.accept (.incoming 3 .write 256)), .other (.wait 5), .cycle 4, .other (.wait 6),
    .other .cleanup, .cycleCommandQueues, .other (.wait 7), .other .cleanup,
    .issueMemoryCommands 4 .oldestReadyRequest fun _ => true, .other (.pulse
      (makeRefreshRequest (smallConfig .perBank 0) 0 0 0 0 0 0)), .handleRefresh 4, .other (.wait 9),
    .commandQueueCallback 4, .other (.wait 10), .other .cleanup, .cycleCommandQueues,
    .other (.wait 11), .other .cleanup, .cycleCommandQueues, .other (.wait 12), .other .cleanup,
    .cycleCommandQueues, .other (.wait 13), .other .cleanup, .cycle 4]

theorem rows_consistent_mixedCalls :
    let mc := (runActions (System.invoke (smallConfig .perBank 0) promptChild)
      (System.setConfig (smallConfig .perBank 0) () .create) mixedCalls).mc
    (mc.activateQueued 0 0 = true ↔ ∃ subarray < 2, mc.activeSubArray 0 0 subarray = true) ∧
      mc.activateQueued 0 0 = true ∧ Assertion.closePage ∉ mc.failedAsserts := by
  have consistent := rows_consistent (smallConfig .perBank 0) promptChild () .create mixedCalls
    (by simp only [mixedCalls, AllowedRun, RowCall, RowAction, Action.wait]; decide)
  exact ⟨consistent.1 0 0, by decide, consistent.2.2⟩

end Emas.Nvmain

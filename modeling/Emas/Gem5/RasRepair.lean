/-
**Squashes and the return address stack.**

`squash` takes back what each removed branch did to the stack. For that to give the stack as it was, the undo
information of the entries must be right however predictions, repairs and squashes follow each other.

* `squash_restores`: **the stack comes back** in every run that takes back no return whose stack top was not
  saved. `unsaved_return_squashed`: a return that was predicted not taken, corrected, and squashed later.
-/

import Emas.Lib.ActionRun
import Mathlib.Tactic.Ring

namespace Emas.Gem5

/-! ### The return address stack of the branch predictor

`BPredUnit::predict`, `update` and the two `squash`es of one thread, with the stack and the history that they
keep. What the direction predictor, the BTB and the indirect predictor say about a branch is part of the
branch (`Branch`), since nothing of it depends on the stack; their own histories, which the entries only
carry along, are left out.

* The stack is circular: `push` and `pop` move `tos` round, `restore` writes an entry.
* `PredictorHistory.undo` is the body of the loop of `squash( squashed_sn )`.
* `correct` is `squash( squashed_sn, corrTarget, actually_taken )`; its assertion is a condition of the step.
-/

variable {α : Type}

/-! ### The stack -/

/-- `ReturnAddrStack`. -/
structure ReturnAddrStack (α : Type) where
  numEntries : Nat
  usedEntries : Nat
  tos : Nat
  addrStack : Nat → α

namespace ReturnAddrStack

variable (ras : ReturnAddrStack α)

/-- `init( numEntries )`; `set( 0 )` gives `zero`. -/
def init (zero : α) (numEntries : Nat) : ReturnAddrStack α := ⟨numEntries, 0, 0, fun _ => zero⟩

def top : α := ras.addrStack ras.tos

def incrTos : Nat := if ras.tos + 1 = ras.numEntries then 0 else ras.tos + 1

def decrTos : Nat := if ras.tos = 0 then ras.numEntries - 1 else ras.tos - 1

def push (returnAddr : α) : ReturnAddrStack α :=
  { ras with
    tos := ras.incrTos
    addrStack := fun entry => if entry = ras.incrTos then returnAddr else ras.addrStack entry
    usedEntries := if ras.usedEntries ≠ ras.numEntries then ras.usedEntries + 1 else ras.usedEntries }

def pop : ReturnAddrStack α :=
  { ras with
    tos := ras.decrTos
    usedEntries := if ras.usedEntries > 0 then ras.usedEntries - 1 else ras.usedEntries }

def restore (topEntryIdx : Nat) (restored : α) : ReturnAddrStack α :=
  { ras with
    tos := topEntryIdx
    addrStack := fun entry => if entry = topEntryIdx then restored else ras.addrStack entry }

/-! ### The circle -/

/-- The top of the stack, and its place. -/
def mark : Nat × α := (ras.tos, ras.top)

theorem incrTos_eq (inside : ras.tos < ras.numEntries) : ras.incrTos = (ras.tos + 1) % ras.numEntries := by
  unfold incrTos
  split
  · rename_i last
    rw [last, Nat.mod_self]
  · exact (Nat.mod_eq_of_lt (by omega)).symm

theorem incrTos_lt (inside : ras.tos < ras.numEntries) : ras.incrTos < ras.numEntries := by
  unfold incrTos
  split <;> omega

theorem decrTos_lt (inside : ras.tos < ras.numEntries) : ras.decrTos < ras.numEntries := by
  unfold decrTos
  split <;> omega

theorem decrTos_add (positive : 0 < ras.numEntries) (offset : Nat) :
    (ras.decrTos + (offset + 1)) % ras.numEntries = (ras.tos + offset) % ras.numEntries := by
  unfold decrTos
  split
  · rename_i bottom
    rw [bottom, show ras.numEntries - 1 + (offset + 1) = 0 + offset + ras.numEntries by omega, Nat.add_mod_right]
  · congr 1
    omega

theorem pop_incrTos (inside : ras.tos < ras.numEntries) : ras.pop.incrTos = ras.tos := by
  show (if ras.decrTos + 1 = ras.numEntries then 0 else ras.decrTos + 1) = ras.tos
  unfold decrTos
  split <;> split <;> omega

theorem incrTos_add (inside : ras.tos < ras.numEntries) (offset : Nat) :
    (ras.incrTos + offset) % ras.numEntries = (ras.tos + (offset + 1)) % ras.numEntries := by
  rw [incrTos_eq ras inside, Nat.mod_add_mod, Nat.add_assoc, Nat.add_comm 1]

theorem pop_push_tos (returnAddr : α) : (ras.push returnAddr).pop.tos = ras.tos := by
  show (if ras.incrTos = 0 then ras.numEntries - 1 else ras.incrTos - 1) = ras.tos
  unfold incrTos
  split <;> split <;> omega

theorem offset_inj (inside : ras.tos < ras.numEntries) {offset other : Nat} (within : offset ≤ ras.numEntries)
    (within' : other ≤ ras.numEntries) (positive : 0 < other) (before : other < offset) :
    (ras.tos + offset) % ras.numEntries ≠ (ras.tos + other) % ras.numEntries := by
  have turn : ∀ entry < 2 * ras.numEntries, entry % ras.numEntries =
      if entry < ras.numEntries then entry else entry - ras.numEntries := by
    intro entry small
    split
    · exact Nat.mod_eq_of_lt ‹_›
    · rw [Nat.mod_eq_sub_mod (by omega), Nat.mod_eq_of_lt (by omega)]
  rw [turn _ (by omega), turn _ (by omega)]
  split <;> split <;> omega

/-- A stack that may differ in the `m` entries above the top. -/
structure Agree (m : Nat) (first second : ReturnAddrStack α) : Prop where
  numEntries : second.numEntries = first.numEntries
  tos : second.tos = first.tos
  entries : ∀ offset, m < offset → offset ≤ first.numEntries →
    second.addrStack ((first.tos + offset) % first.numEntries) =
      first.addrStack ((first.tos + offset) % first.numEntries)

namespace Agree

variable {m : Nat} {first second : ReturnAddrStack α}

theorem mark (agree : Agree m first second) (inside : first.tos < first.numEntries) (room : m < first.numEntries) :
    second.mark = first.mark := by
  have same := agree.entries first.numEntries room (Nat.le_refl _)
  rw [Nat.add_mod_right, Nat.mod_eq_of_lt inside] at same
  unfold ReturnAddrStack.mark top
  rw [agree.tos, same]

theorem pop (agree : Agree m first second) (inside : first.tos < first.numEntries) :
    Agree (m + 1) first.pop second.pop := by
  have lower : second.decrTos = first.decrTos := by
    unfold decrTos
    rw [agree.tos, agree.numEntries]
  refine ⟨agree.numEntries, lower, fun offset above within => ?_⟩
  obtain ⟨offset, rfl⟩ := Nat.exists_eq_succ_of_ne_zero (show offset ≠ 0 by omega)
  show second.addrStack ((first.decrTos + (offset + 1)) % first.numEntries) =
    first.addrStack ((first.decrTos + (offset + 1)) % first.numEntries)
  rw [decrTos_add first (Nat.zero_lt_of_lt inside)]
  have within' : offset + 1 ≤ first.numEntries := within
  exact agree.entries offset (by omega) (by omega)

theorem restore (agree : Agree m first second) (inside : first.tos < first.numEntries) (restored : α) :
    Agree (m - 1) (first.restore first.incrTos restored) (second.restore first.incrTos restored) := by
  refine ⟨agree.numEntries, rfl, fun offset above within => ?_⟩
  show (if (first.incrTos + offset) % first.numEntries = first.incrTos then restored else second.addrStack _) =
    if (first.incrTos + offset) % first.numEntries = first.incrTos then restored else first.addrStack _
  split
  · rfl
  · rename_i elsewhere
    have within' : offset ≤ first.numEntries := within
    have lower : offset ≠ first.numEntries := by
      rintro rfl
      exact elsewhere (by rw [Nat.add_mod_right, Nat.mod_eq_of_lt (incrTos_lt first inside)])
    show second.addrStack ((first.incrTos + offset) % first.numEntries) =
      first.addrStack ((first.incrTos + offset) % first.numEntries)
    rw [incrTos_add first inside]
    exact agree.entries (offset + 1) (by omega) (by omega)

end Agree

theorem agree_pop_push (inside : ras.tos < ras.numEntries) (returnAddr : α) : Agree 1 ras (ras.push returnAddr).pop := by
  refine ⟨rfl, pop_push_tos ras returnAddr, fun offset above within => ?_⟩
  show (if (ras.tos + offset) % ras.numEntries = ras.incrTos then returnAddr else _) = _
  refine if_neg fun same => ?_
  rw [incrTos_eq ras inside] at same
  have within' : offset ≤ ras.numEntries := within
  exact offset_inj ras inside within' (by omega) (Nat.succ_pos 0) above same

theorem agree_restore_pop : Agree 0 ras (ras.pop.restore ras.tos ras.top) := by
  refine ⟨rfl, rfl, fun offset _ _ => ?_⟩
  show (if (ras.tos + offset) % ras.numEntries = ras.tos then ras.top else _) = _
  split
  · rename_i same
    rw [same]
    rfl
  · rfl

end ReturnAddrStack

/-! ### Branches and their history -/

/-- What the predictor uses of `TheISA::PCState`. -/
structure PCOps (α : Type) where
  zero : α
  instAddr : α → Nat
  buildRetPC : α → α → α

/-- A branch that is predicted, and what the predictors say about it. -/
structure Branch (α : Type) where
  seqNum : Nat
  pc : α
  isUncondCtrl : Bool
  isReturn : Bool
  isCall : Bool
  isDirectCtrl : Bool
  /-- `lookup( tid, pc.instAddr( ), bp_history )`. -/
  lookup : Bool
  /-- What the BTB has for the branch. -/
  btb : Option α
  /-- Whether there is an indirect predictor. -/
  iPred : Bool
  /-- What the indirect predictor has for the branch. -/
  indirect : Option α
  /-- The target after `advancePC( target, inst )`. -/
  advanced : α

/-- Whether `predict` pushes the branch, also where it gives the push back. -/
def Branch.pushes (branch : Branch α) : Bool :=
  (branch.isUncondCtrl || branch.lookup) && !branch.isReturn && branch.isCall

/-- `PredictorHistory`. -/
structure PredictorHistory (α : Type) where
  seqNum : Nat
  pc : Nat
  rasTarget : α
  rasIndex : Nat
  predTaken : Bool
  usedRAS : Bool
  pushedRAS : Bool
  wasCall : Bool
  wasReturn : Bool
  wasIndirect : Bool
  target : Nat

/-- What `squash( squashed_sn )` does to the stack for an entry that it removes. -/
def PredictorHistory.undo (entry : PredictorHistory α) (ras : ReturnAddrStack α) : ReturnAddrStack α :=
  if entry.usedRAS then ras.restore entry.rasIndex entry.rasTarget
  else if entry.wasCall && entry.pushedRAS then ras.pop
  else ras

/-- The predictor of a thread; the youngest branch is at the front of the history. -/
structure BPredUnit (α : Type) where
  predHist : List (PredictorHistory α)
  ras : ReturnAddrStack α

namespace BPredUnit

variable (ops : PCOps α) (unit : BPredUnit α)

/-- The history entry as `predict` creates it; `MaxAddr` is `2 ^ 64 - 1`. -/
def newRecord (branch : Branch α) (predTaken : Bool) : PredictorHistory α where
  seqNum := branch.seqNum
  pc := ops.instAddr branch.pc
  rasTarget := ops.zero
  rasIndex := 0
  predTaken := predTaken
  usedRAS := false
  pushedRAS := false
  wasCall := false
  wasReturn := false
  wasIndirect := false
  target := 2 ^ 64 - 1

/-- The end of `predict`: the entry goes to the front, and the target into `pc`. -/
def record (ras : ReturnAddrStack α) (entry : PredictorHistory α) (predTaken : Bool) (target : α) :
    BPredUnit α × Bool × α :=
  (⟨{ entry with target := ops.instAddr target } :: unit.predHist, ras⟩, predTaken, target)

/-- `predict` for a return that is predicted taken. -/
def predictReturn (branch : Branch α) : BPredUnit α × Bool × α :=
  let rasTop := unit.ras.top
  let entry := { newRecord ops branch true with
    wasReturn := true
    usedRAS := true
    rasIndex := unit.ras.tos
    rasTarget := rasTop }
  unit.record ops unit.ras.pop entry true (ops.buildRetPC branch.pc rasTop)

/-- `predict` for any other branch that is predicted taken. A conditional call without a target gives its push
back. -/
def predictTaken (branch : Branch α) : BPredUnit α × Bool × α :=
  let ras := if branch.isCall then unit.ras.push branch.pc else unit.ras
  let direct := branch.isDirectCtrl || !branch.iPred
  let entry := { newRecord ops branch true with
    pushedRAS := branch.isCall
    wasCall := branch.isCall
    wasIndirect := !direct }
  match if direct then branch.btb else branch.indirect with
  | some target => unit.record ops ras entry true target
  | none =>
    if branch.isCall && !branch.isUncondCtrl then
      unit.record ops ras.pop { entry with pushedRAS := false } false branch.advanced
    else unit.record ops ras entry false branch.advanced

/-- `predict( inst, seqNum, pc, tid )`: the prediction and the predicted target. -/
def predict (branch : Branch α) : BPredUnit α × Bool × α :=
  if branch.isUncondCtrl || branch.lookup then
    if branch.isReturn then unit.predictReturn ops branch
    else unit.predictTaken ops branch
  else
    unit.record ops unit.ras { newRecord ops branch false with wasReturn := branch.isReturn } false branch.advanced

/-- `update( done_sn, tid )`: the oldest branches are at the back. -/
def update (doneSn : Nat) : BPredUnit α :=
  { unit with predHist := (unit.predHist.reverse.dropWhile fun entry => decide (entry.seqNum ≤ doneSn)).reverse }

/-- The loop of `squash( squashed_sn )`. -/
def squashLoop (squashedSn : Nat) : List (PredictorHistory α) → ReturnAddrStack α → BPredUnit α
  | [], ras => ⟨[], ras⟩
  | front :: rest, ras =>
    if front.seqNum > squashedSn then squashLoop squashedSn rest (front.undo ras) else ⟨front :: rest, ras⟩

def squash (squashedSn : Nat) : BPredUnit α := squashLoop squashedSn unit.predHist unit.ras

/-- What `squash( squashed_sn, corrTarget, actually_taken )` does to the stack and to the entry. -/
def repair (front : PredictorHistory α) (ras : ReturnAddrStack α) (corrTarget : α) (actuallyTaken : Bool) :
    PredictorHistory α × ReturnAddrStack α :=
  let front := { front with predTaken := actuallyTaken, target := ops.instAddr corrTarget }
  if actuallyTaken then
    if front.wasReturn && !front.usedRAS then ({ front with usedRAS := true }, ras.pop) else (front, ras)
  else if front.usedRAS then ({ front with usedRAS := false }, ras.restore front.rasIndex front.rasTarget)
  else if front.wasCall && front.pushedRAS then ({ front with pushedRAS := false }, ras.pop)
  else (front, ras)

/-- `squash( squashed_sn, corrTarget, actually_taken, tid )`. -/
def correct (squashedSn : Nat) (corrTarget : α) (actuallyTaken : Bool) : BPredUnit α :=
  let unit := unit.squash squashedSn
  match unit.predHist with
  | [] => unit
  | front :: rest =>
    let (front, ras) := repair ops front unit.ras corrTarget actuallyTaken
    ⟨front :: rest, ras⟩

/-- `assert( pred_hist.front( ).seqNum == squashed_sn )`. -/
def correctAsserts (squashedSn : Nat) : Bool :=
  (unit.squash squashedSn).predHist.head?.all fun front => decide (front.seqNum = squashedSn)

def pushedCalls (predHist : List (PredictorHistory α)) : Nat :=
  predHist.countP fun entry => entry.wasCall && entry.pushedRAS

end BPredUnit

/-! ### Undoing a history -/

/-- What was noted of a branch: the top of the stack right before it was predicted and right after it was predicted or
last corrected, and whether its entry has saved the former. -/
structure Track (α : Type) where
  before : Nat × α
  after : Nat × α
  saved : Bool

/-- An entry that can be undone: if it has used the stack, it has saved the top. -/
def Track.Undoable (track : Track α) (entry : PredictorHistory α) : Prop :=
  entry.usedRAS = true → track.saved = true

instance (track : Track α) (entry : PredictorHistory α) : Decidable (track.Undoable entry) :=
  inferInstanceAs (Decidable (_ → _))

/-- Undoing the history, as far as that can be, gives what was noted. -/
def Undoes : ReturnAddrStack α → List (PredictorHistory α) → List (Track α) → Prop
  | _, [], [] => True
  | ras, entry :: hist, track :: tracks =>
    ras.mark = track.after ∧
      (entry.wasReturn = true ∨ entry.usedRAS = true → entry.wasCall = false) ∧
      (track.saved = true → track.before = (entry.rasIndex, entry.rasTarget)) ∧
      (track.Undoable entry → (entry.usedRAS = true → entry.rasIndex = ras.incrTos) ∧
        (entry.undo ras).mark = track.before ∧ Undoes (entry.undo ras) hist tracks)
  | _, _, _ => False

section Undo

variable {ras other : ReturnAddrStack α} {entry : PredictorHistory α} {hist : List (PredictorHistory α)}
  {tracks : List (Track α)} {m : Nat}

theorem undo_inside (inside : ras.tos < ras.numEntries) (index : entry.usedRAS = true → entry.rasIndex = ras.incrTos) :
    (entry.undo ras).tos < (entry.undo ras).numEntries := by
  unfold PredictorHistory.undo
  split
  · rename_i used
    show entry.rasIndex < ras.numEntries
    rw [index used]
    exact ras.incrTos_lt inside
  · split
    · exact ras.decrTos_lt inside
    · exact inside

theorem undo_numEntries (entry : PredictorHistory α) (ras : ReturnAddrStack α) :
    (entry.undo ras).numEntries = ras.numEntries := by
  unfold PredictorHistory.undo
  split
  · rfl
  · split <;> rfl

/-- **What is undone does not look above the top.** -/
theorem Undoes.agree (undoes : Undoes ras hist tracks) (inside : ras.tos < ras.numEntries)
    (agree : ReturnAddrStack.Agree m ras other)
    (room : BPredUnit.pushedCalls hist + m < ras.numEntries) : Undoes other hist tracks := by
  induction hist generalizing ras other tracks m with
  | nil =>
    cases tracks with
    | nil => trivial
    | cons track tracks => exact undoes.elim
  | cons entry hist ih =>
    cases tracks with
    | nil => exact undoes.elim
    | cons track tracks =>
      obtain ⟨after, call, saved, undone⟩ := undoes
      have pushed : BPredUnit.pushedCalls (entry :: hist) =
          BPredUnit.pushedCalls hist + if entry.wasCall && entry.pushedRAS then 1 else 0 := List.countP_cons
      rw [pushed] at room
      have sameTop : other.incrTos = ras.incrTos := by
        unfold ReturnAddrStack.incrTos
        rw [agree.tos, agree.numEntries]
      refine ⟨(agree.mark inside (by omega)).trans after, call, saved, fun undoable => ?_⟩
      obtain ⟨index, before, rest⟩ := undone undoable
      have inside' := undo_inside inside index
      obtain ⟨m', less, agree'⟩ : ∃ m', BPredUnit.pushedCalls hist + m' < ras.numEntries ∧
          ReturnAddrStack.Agree m' (entry.undo ras) (entry.undo other) := by
        unfold PredictorHistory.undo
        split
        · rename_i used
          rw [index used]
          exact ⟨m - 1, by omega, agree.restore inside entry.rasTarget⟩
        · split
          · rename_i called
            rw [if_pos called] at room
            exact ⟨m + 1, by omega, agree.pop inside⟩
          · exact ⟨m, by omega, agree⟩
      rw [← undo_numEntries entry ras] at less
      exact ⟨fun used => (index used).trans sameTop.symm, (agree'.mark inside' (by omega)).trans before,
        ih rest inside' agree' less⟩

theorem Undoes.take (undoes : Undoes ras hist tracks) (count : Nat) :
    Undoes ras (hist.take count) (tracks.take count) := by
  induction hist generalizing ras tracks count with
  | nil =>
    cases tracks with
    | nil => simpa using undoes
    | cons track tracks => exact undoes.elim
  | cons entry hist ih =>
    cases tracks with
    | nil => exact undoes.elim
    | cons track tracks =>
      cases count with
      | zero => trivial
      | succ count =>
        obtain ⟨after, call, saved, undone⟩ := undoes
        exact ⟨after, call, saved, fun undoable =>
          have ⟨index, before, rest⟩ := undone undoable
          ⟨index, before, ih rest count⟩⟩

end Undo

/-! ### Runs -/

/-- A call on the predictor. -/
inductive PredictorCall (α : Type) where
  | predict (branch : Branch α)
  | update (doneSn : Nat)
  | squash (squashedSn : Nat)
  | correct (squashedSn : Nat) (corrTarget : α) (actuallyTaken : Bool)

/-- The predictor, with what was noted of each branch of its history. -/
structure Tracked (α : Type) where
  unit : BPredUnit α
  tracks : List (Track α)

namespace Tracked

variable (ops : PCOps α) (state : Tracked α)

/-- A predictor with an empty history. -/
def start (numEntries : Nat) : Tracked α := ⟨⟨[], .init ops.zero numEntries⟩, []⟩

/-- The branches that `squash( squashed_sn )` removes. -/
def removed (squashedSn : Nat) : List (PredictorHistory α) :=
  state.unit.predHist.takeWhile fun entry => decide (entry.seqNum > squashedSn)

/-- What was noted of the branches that it leaves. -/
def left (squashedSn : Nat) : List (Track α) := state.tracks.drop (state.removed squashedSn).length

/-- A call, and what is noted of it. -/
def step : PredictorCall α → Tracked α
  | .predict branch =>
    let unit := (state.unit.predict ops branch).1
    ⟨unit, ⟨state.unit.ras.mark, unit.ras.mark, unit.predHist.head?.any fun entry => entry.usedRAS⟩ :: state.tracks⟩
  | .update doneSn =>
    let unit := state.unit.update doneSn
    ⟨unit, state.tracks.take unit.predHist.length⟩
  | .squash squashedSn => ⟨state.unit.squash squashedSn, state.left squashedSn⟩
  | .correct squashedSn corrTarget actuallyTaken =>
    let unit := state.unit.correct ops squashedSn corrTarget actuallyTaken
    ⟨unit, (state.left squashedSn).modifyHead fun track => { track with after := unit.ras.mark }⟩

/-- The calls that the code makes: the assertion of a correction holds, and fewer calls are pushed and not committed
than the stack has entries, also while `predict` has pushed one. -/
def Fits : PredictorCall α → Prop
  | .predict branch =>
    BPredUnit.pushedCalls state.unit.predHist + branch.pushes.toNat < state.unit.ras.numEntries
  | .correct squashedSn _ _ => state.unit.correctAsserts squashedSn = true ∧
    BPredUnit.pushedCalls state.unit.predHist < state.unit.ras.numEntries
  | _ => BPredUnit.pushedCalls state.unit.predHist < state.unit.ras.numEntries

instance : ∀ call : PredictorCall α, Decidable (state.Fits call)
  | .predict _ | .update _ | .squash _ => inferInstanceAs (Decidable (_ < _))
  | .correct _ _ _ => inferInstanceAs (Decidable (_ ∧ _))

/-- The branches that are squashed have saved the top of the stack where they have used it. -/
def SavesRemoved (squashedSn : Nat) : Prop :=
  ∀ undone ∈ (state.unit.predHist.zip state.tracks).take (state.removed squashedSn).length, undone.2.Undoable undone.1

/-- **No call takes back a return whose stack top was not saved**: none that was predicted not taken and later corrected
to taken, neither by squashing it nor by correcting it to not taken. -/
def Saves : PredictorCall α → Prop
  | .squash squashedSn => state.SavesRemoved squashedSn
  | .correct squashedSn _ actuallyTaken => state.SavesRemoved squashedSn ∧ (actuallyTaken = false →
    ∀ front ∈ (state.unit.squash squashedSn).predHist.head?, ∀ track ∈ (state.left squashedSn).head?,
      track.Undoable front)
  | _ => True

instance (squashedSn : Nat) : Decidable (state.SavesRemoved squashedSn) :=
  inferInstanceAs (Decidable (∀ _ ∈ _, _))

instance : ∀ call : PredictorCall α, Decidable (state.Saves call)
  | .predict _ | .update _ => isTrue trivial
  | .squash squashedSn => inferInstanceAs (Decidable (state.SavesRemoved squashedSn))
  | .correct squashedSn _ actuallyTaken =>
    inferInstanceAs (Decidable (state.SavesRemoved squashedSn ∧ (actuallyTaken = false →
      ∀ front ∈ (state.unit.squash squashedSn).predHist.head?, ∀ track ∈ (state.left squashedSn).head?,
        track.Undoable front)))

/-- What `squash( squashed_sn )` is to give: the top of the stack as it was right after the youngest branch that is
left was predicted or last corrected, or right before the oldest of them was predicted. -/
def Restores (squashedSn : Nat) : Prop :=
  match state.left squashedSn with
  | youngest :: _ => (state.unit.squash squashedSn).ras.mark = youngest.after
  | [] => ∀ oldest ∈ state.tracks.getLast?, (state.unit.squash squashedSn).ras.mark = oldest.before

end Tracked

/-- The top is in the stack, and the history can be undone. -/
structure RasInv (state : Tracked α) : Prop where
  inside : state.unit.ras.tos < state.unit.ras.numEntries
  undoes : Undoes state.unit.ras state.unit.predHist state.tracks

section Steps

variable {ops : PCOps α} {state : Tracked α}

/-- **The loop of squash**: what it leaves can be undone further, and the last entry that it took gave the stack
back as noted. -/
theorem squashLoop_undoes (squashedSn : Nat) {hist : List (PredictorHistory α)} {ras : ReturnAddrStack α}
    {tracks : List (Track α)} (inside : ras.tos < ras.numEntries) (undoes : Undoes ras hist tracks)
    (saved : ∀ undone ∈ (hist.zip tracks).take (hist.takeWhile fun entry => decide (entry.seqNum > squashedSn)).length,
      undone.2.Undoable undone.1) :
    let after := BPredUnit.squashLoop squashedSn hist ras
    let left := tracks.drop (hist.takeWhile fun entry => decide (entry.seqNum > squashedSn)).length
    after.ras.tos < after.ras.numEntries ∧ after.ras.numEntries = ras.numEntries ∧
      Undoes after.ras after.predHist left ∧
      (left = [] → ∀ oldest ∈ tracks.getLast?, after.ras.mark = oldest.before) := by
  induction hist generalizing ras tracks with
  | nil =>
    cases tracks with
    | nil => exact ⟨inside, rfl, trivial, nofun⟩
    | cons track tracks => exact undoes.elim
  | cons front rest ih =>
    cases tracks with
    | nil => exact undoes.elim
    | cons track tracks =>
      by_cases younger : front.seqNum > squashedSn
      · have taken : (front :: rest).takeWhile (fun entry => decide (entry.seqNum > squashedSn)) =
            front :: rest.takeWhile fun entry => decide (entry.seqNum > squashedSn) :=
          List.takeWhile_cons_of_pos (decide_eq_true younger)
        rw [taken] at saved ⊢
        obtain ⟨-, -, -, undone⟩ := undoes
        obtain ⟨index, before, further⟩ := undone (saved (front, track) (List.mem_cons_self ..))
        have deeper := ih (undo_inside inside index) further fun pair member => saved pair (List.mem_cons_of_mem _ member)
        have loop : BPredUnit.squashLoop squashedSn (front :: rest) ras =
            BPredUnit.squashLoop squashedSn rest (front.undo ras) := if_pos younger
        rw [loop]
        obtain ⟨inside', sized, undoes', last⟩ := deeper
        refine ⟨inside', sized.trans (undo_numEntries front ras), undoes', fun none oldest member => ?_⟩
        cases tracks with
        | nil =>
          cases rest with
          | nil =>
            obtain rfl : track = oldest := Option.some.inj member
            exact before
          | cons _ _ => exact further.elim
        | cons next tracks => exact last none oldest ((List.getLast?_cons_cons ..).symm.trans member)
      · have none : (front :: rest).takeWhile (fun entry => decide (entry.seqNum > squashedSn)) = [] :=
          List.takeWhile_cons_of_neg fun later => younger (of_decide_eq_true later)
        have loop : BPredUnit.squashLoop squashedSn (front :: rest) ras = ⟨front :: rest, ras⟩ := if_neg younger
        rw [none, loop]
        exact ⟨inside, rfl, undoes, nofun⟩

variable (ops) in
/-- What `predict` notes of a branch, and what it does to the stack: nothing; a pop, of a top that it saves; a push; or a
push that it takes back. -/
theorem predict_cases (unit : BPredUnit α) (branch : Branch α) : ∃ entry ras,
    (unit.predict ops branch).1 = ⟨entry :: unit.predHist, ras⟩ ∧
      (entry.wasReturn = true ∨ entry.usedRAS = true → entry.wasCall = false) ∧
      (ras = unit.ras ∧ entry.usedRAS = false ∧ (entry.wasCall && entry.pushedRAS) = false ∨
        ras = unit.ras.pop ∧ entry.usedRAS = true ∧ entry.rasIndex = unit.ras.tos ∧ entry.rasTarget = unit.ras.top ∨
        branch.pushes = true ∧ ras = unit.ras.push branch.pc ∧ entry.usedRAS = false ∧
          (entry.wasCall && entry.pushedRAS) = true ∨
        branch.pushes = true ∧ ras = (unit.ras.push branch.pc).pop ∧ entry.usedRAS = false ∧
          (entry.wasCall && entry.pushedRAS) = false) := by
  unfold BPredUnit.predict
  by_cases taken : (branch.isUncondCtrl || branch.lookup) = true
  · rw [if_pos taken]
    by_cases isReturn : branch.isReturn = true
    · rw [if_pos isReturn]
      exact ⟨_, _, rfl, fun _ => rfl, Or.inr (Or.inl ⟨rfl, rfl, rfl, rfl⟩)⟩
    · rw [if_neg isReturn]
      unfold BPredUnit.predictTaken
      dsimp only
      cases isCall : branch.isCall with
      | false =>
        split
        · exact ⟨_, _, rfl, fun _ => rfl, Or.inl ⟨rfl, rfl, rfl⟩⟩
        · exact ⟨_, _, rfl, fun _ => rfl, Or.inl ⟨rfl, rfl, rfl⟩⟩
      | true =>
        have pushes : branch.pushes = true := by
          rw [Branch.pushes, taken, isCall, eq_false_of_ne_true isReturn]
          rfl
        split
        · exact ⟨_, _, rfl, nofun, Or.inr (Or.inr (Or.inl ⟨pushes, rfl, rfl, rfl⟩))⟩
        · split
          · exact ⟨_, _, rfl, nofun, Or.inr (Or.inr (Or.inr ⟨pushes, rfl, rfl, rfl⟩))⟩
          · exact ⟨_, _, rfl, nofun, Or.inr (Or.inr (Or.inl ⟨pushes, rfl, rfl, rfl⟩))⟩
  · rw [if_neg taken]
    exact ⟨_, _, rfl, fun _ => rfl, Or.inl ⟨rfl, rfl, rfl⟩⟩

/-- **A prediction can be undone.** -/
theorem predict_inv (inv : RasInv state) {branch : Branch α} (fits : state.Fits (.predict branch)) :
    RasInv (state.step ops (.predict branch)) := by
  obtain ⟨entry, ras, predicted, call, effect⟩ := predict_cases ops state.unit branch
  have unit : (state.step ops (.predict branch)).unit = ⟨entry :: state.unit.predHist, ras⟩ := predicted
  have tracks : (state.step ops (.predict branch)).tracks =
      ⟨state.unit.ras.mark, ras.mark, entry.usedRAS⟩ :: state.tracks := by
    show (⟨_, (state.unit.predict ops branch).1.ras.mark,
      (state.unit.predict ops branch).1.predHist.head?.any fun entry => entry.usedRAS⟩ : Track α) :: _ = _
    rw [predicted]
    rfl
  have fits' : BPredUnit.pushedCalls state.unit.predHist + branch.pushes.toNat < state.unit.ras.numEntries := fits
  have agree : ∀ {after : ReturnAddrStack α} {m}, ReturnAddrStack.Agree m state.unit.ras after →
      BPredUnit.pushedCalls state.unit.predHist + m < state.unit.ras.numEntries →
      after.mark = state.unit.ras.mark ∧ Undoes after state.unit.predHist state.tracks := fun agree room =>
    ⟨agree.mark inv.inside (by omega), inv.undoes.agree inv.inside agree room⟩
  refine ⟨?_, ?_⟩
  · rw [unit]
    rcases effect with ⟨rfl, -⟩ | ⟨rfl, -⟩ | ⟨-, rfl, -⟩ | ⟨-, rfl, -⟩
    · exact inv.inside
    · exact ReturnAddrStack.decrTos_lt _ inv.inside
    · exact ReturnAddrStack.incrTos_lt _ inv.inside
    · rw [ReturnAddrStack.pop_push_tos]
      exact inv.inside
  rw [unit, tracks]
  rcases effect with ⟨rfl, unused, uncalled⟩ | ⟨rfl, used, index, target⟩ | ⟨pushes, rfl, unused, called⟩ |
    ⟨pushes, rfl, unused, uncalled⟩
  · have undo : entry.undo state.unit.ras = state.unit.ras := by
      unfold PredictorHistory.undo
      rw [unused, uncalled]
      rfl
    refine ⟨rfl, call, fun used => absurd (used.symm.trans unused) nofun, fun _ =>
      ⟨fun used => absurd (used.symm.trans unused) nofun, ?_⟩⟩
    rw [undo]
    exact ⟨rfl, inv.undoes⟩
  · have undo : entry.undo state.unit.ras.pop = state.unit.ras.pop.restore state.unit.ras.tos state.unit.ras.top := by
      unfold PredictorHistory.undo
      rw [used, index, target]
      rfl
    refine ⟨rfl, call, fun _ => by rw [index, target]; rfl, fun _ =>
      ⟨fun _ => index.trans (ReturnAddrStack.pop_incrTos _ inv.inside).symm, ?_⟩⟩
    rw [undo]
    exact agree (ReturnAddrStack.agree_restore_pop _) (by omega)
  · have undo : entry.undo (state.unit.ras.push branch.pc) = (state.unit.ras.push branch.pc).pop := by
      unfold PredictorHistory.undo
      rw [unused, called]
      rfl
    refine ⟨rfl, call, fun used => absurd (used.symm.trans unused) nofun, fun _ =>
      ⟨fun used => absurd (used.symm.trans unused) nofun, ?_⟩⟩
    rw [undo]
    rw [pushes] at fits'
    exact agree (ReturnAddrStack.agree_pop_push _ inv.inside branch.pc) fits'
  · have undo : entry.undo (state.unit.ras.push branch.pc).pop = (state.unit.ras.push branch.pc).pop := by
      unfold PredictorHistory.undo
      rw [unused, uncalled]
      rfl
    refine ⟨rfl, call, fun used => absurd (used.symm.trans unused) nofun, fun _ =>
      ⟨fun used => absurd (used.symm.trans unused) nofun, ?_⟩⟩
    rw [undo]
    rw [pushes] at fits'
    exact agree (ReturnAddrStack.agree_pop_push _ inv.inside branch.pc) fits'

theorem update_inv (inv : RasInv state) (doneSn : Nat) : RasInv (state.step ops (.update doneSn)) := by
  have prefix' : (state.unit.update doneSn).predHist =
      state.unit.predHist.take (state.unit.update doneSn).predHist.length := by
    refine List.prefix_iff_eq_take.mp ?_
    show (List.dropWhile _ _).reverse <+: _
    rw [← List.reverse_suffix, List.reverse_reverse]
    exact List.dropWhile_suffix _
  have shorter := inv.undoes.take (state.unit.update doneSn).predHist.length
  rw [← prefix'] at shorter
  exact ⟨inv.inside, shorter⟩

theorem squash_inv (inv : RasInv state) {squashedSn : Nat} (saves : state.SavesRemoved squashedSn) :
    RasInv ⟨state.unit.squash squashedSn, state.left squashedSn⟩ ∧ state.Restores squashedSn := by
  obtain ⟨inside, sized, undoes, last⟩ := squashLoop_undoes squashedSn inv.inside inv.undoes saves
  refine ⟨⟨inside, undoes⟩, ?_⟩
  unfold Tracked.Restores
  cases left : state.left squashedSn with
  | nil => exact last left
  | cons youngest older =>
    have undoes' : Undoes (state.unit.squash squashedSn).ras (state.unit.squash squashedSn).predHist
        (state.left squashedSn) := undoes
    rw [left] at undoes'
    cases hist : (state.unit.squash squashedSn).predHist with
    | nil =>
      rw [hist] at undoes'
      exact undoes'.elim
    | cons front rest =>
      rw [hist] at undoes'
      exact undoes'.1

variable (ops) in
theorem repair_cases (front : PredictorHistory α) (ras : ReturnAddrStack α) (corrTarget : α) (actuallyTaken : Bool) :
    ∃ front' ras', BPredUnit.repair ops front ras corrTarget actuallyTaken = (front', ras') ∧
      front'.wasReturn = front.wasReturn ∧ front'.wasCall = front.wasCall ∧
      front'.rasIndex = front.rasIndex ∧ front'.rasTarget = front.rasTarget ∧
      (actuallyTaken = true ∧ front.wasReturn = true ∧ front.usedRAS = false ∧ ras' = ras.pop ∧ front'.usedRAS = true ∨
        ras' = ras ∧ front'.usedRAS = front.usedRAS ∧ front'.pushedRAS = front.pushedRAS ∨
        actuallyTaken = false ∧ ras' = front.undo ras ∧ front'.usedRAS = false ∧
          (front.usedRAS = true ∨ front'.pushedRAS = false)) := by
  unfold BPredUnit.repair
  cases actuallyTaken with
  | true =>
    by_cases late : (front.wasReturn && !front.usedRAS) = true
    · obtain ⟨isReturn, unused⟩ : front.wasReturn = true ∧ front.usedRAS = false := by simpa using late
      exact ⟨_, _, if_pos late, rfl, rfl, rfl, rfl, Or.inl ⟨rfl, isReturn, unused, rfl, rfl⟩⟩
    · exact ⟨_, _, if_neg late, rfl, rfl, rfl, rfl, Or.inr (Or.inl ⟨rfl, rfl, rfl⟩)⟩
  | false =>
    by_cases used : front.usedRAS = true
    · refine ⟨_, _, if_pos used, rfl, rfl, rfl, rfl, Or.inr (Or.inr ⟨rfl, ?_, rfl, Or.inl used⟩)⟩
      exact (if_pos used).symm
    · by_cases called : (front.wasCall && front.pushedRAS) = true
      · refine ⟨_, _, (if_neg used).trans (if_pos called), rfl, rfl, rfl, rfl,
          Or.inr (Or.inr ⟨rfl, ?_, eq_false_of_ne_true used, Or.inr rfl⟩)⟩
        exact ((if_neg used).trans (if_pos called)).symm
      · exact ⟨_, _, (if_neg used).trans (if_neg called), rfl, rfl, rfl, rfl, Or.inr (Or.inl ⟨rfl, rfl, rfl⟩)⟩

theorem undo_none {entry : PredictorHistory α} (unused : entry.usedRAS = false)
    (uncalled : (entry.wasCall && entry.pushedRAS) = false) (ras : ReturnAddrStack α) : entry.undo ras = ras := by
  unfold PredictorHistory.undo
  rw [unused, uncalled]
  rfl

variable (ops) in
/-- **A repaired entry can be undone** if it could be before. -/
theorem repair_undoes {front : PredictorHistory α} {rest : List (PredictorHistory α)} {ras : ReturnAddrStack α}
    {track : Track α} {older : List (Track α)} (inside : ras.tos < ras.numEntries)
    (room : BPredUnit.pushedCalls rest < ras.numEntries) (undoes : Undoes ras (front :: rest) (track :: older))
    (corrTarget : α) {actuallyTaken : Bool} (saves : actuallyTaken = false → track.Undoable front) :
    let repaired := BPredUnit.repair ops front ras corrTarget actuallyTaken
    repaired.2.tos < repaired.2.numEntries ∧
      Undoes repaired.2 (repaired.1 :: rest) ({ track with after := repaired.2.mark } :: older) := by
  obtain ⟨front', ras', repaired, isReturn, isCall, index, target, effect⟩ :=
    repair_cases ops front ras corrTarget actuallyTaken
  rw [repaired]
  obtain ⟨-, call, saved, undone⟩ := undoes
  rcases effect with ⟨-, wasReturn, unused, rfl, used⟩ | ⟨rfl, used, pushed⟩ | ⟨rfl, rfl, unused, back⟩
  · -- the stack is popped now, and the entry may have saved its top when it was predicted
    obtain ⟨-, before, further⟩ := undone fun used => absurd (used.symm.trans unused) nofun
    have uncalled : front.wasCall = false := call (Or.inl wasReturn)
    rw [undo_none unused (by rw [uncalled]; rfl)] at before further
    refine ⟨ras.decrTos_lt inside, rfl, fun _ => isCall.trans uncalled, fun has => ?_, fun undoable => ?_⟩
    · rw [index, target]
      exact saved has
    · obtain ⟨tos, top⟩ : ras.tos = front.rasIndex ∧ ras.top = front.rasTarget :=
        Prod.ext_iff.mp (before.trans (saved (undoable used)))
      have undo : front'.undo ras.pop = ras.pop.restore ras.tos ras.top := by
        unfold PredictorHistory.undo
        rw [used, index, target]
        show ras.pop.restore front.rasIndex front.rasTarget = ras.pop.restore ras.tos ras.top
        rw [tos, top]
      have agree := ras.agree_restore_pop
      refine ⟨fun _ => ?_, ?_⟩
      · rw [ras.pop_incrTos inside, index]
        exact tos.symm
      · rw [undo]
        exact ⟨(agree.mark inside (by omega)).trans before, further.agree inside agree room⟩
  · have undo : front'.undo ras' = front.undo ras' := by
      unfold PredictorHistory.undo
      rw [used, pushed, isCall, index, target]
    refine ⟨inside, rfl, ?_, ?_, fun undoable => ?_⟩
    · rw [isReturn, used, isCall]
      exact call
    · rw [index, target]
      exact saved
    · rw [undo, used, index]
      exact undone fun has => undoable (used.trans has)
  · obtain ⟨index', before, further⟩ := undone (saves rfl)
    have uncalled : (front'.wasCall && front'.pushedRAS) = false := by
      rcases back with used | popped
      · rw [isCall, call (Or.inr used)]
        rfl
      · rw [popped, Bool.and_false]
    refine ⟨undo_inside inside index', rfl, ?_, ?_, fun _ => ⟨fun used => absurd (used.symm.trans unused) nofun, ?_⟩⟩
    · rw [isReturn, unused, isCall]
      exact fun either => call (Or.inl (either.resolve_right nofun))
    · rw [index, target]
      exact saved
    · rw [undo_none unused uncalled]
      exact ⟨before, further⟩

theorem squashLoop_suffix (squashedSn : Nat) (hist : List (PredictorHistory α)) (ras : ReturnAddrStack α) :
    (BPredUnit.squashLoop squashedSn hist ras).predHist <:+ hist := by
  induction hist generalizing ras with
  | nil => exact List.suffix_refl _
  | cons front rest ih =>
    unfold BPredUnit.squashLoop
    split
    · exact (ih (front.undo ras)).trans (List.suffix_cons ..)
    · exact List.suffix_refl _

theorem correct_inv (inv : RasInv state) {squashedSn : Nat} {corrTarget : α} {actuallyTaken : Bool}
    (fits : state.Fits (.correct squashedSn corrTarget actuallyTaken))
    (saves : state.Saves (.correct squashedSn corrTarget actuallyTaken)) :
    RasInv (state.step ops (.correct squashedSn corrTarget actuallyTaken)) := by
  obtain ⟨-, sized, -, -⟩ := squashLoop_undoes squashedSn inv.inside inv.undoes saves.1
  obtain ⟨inside, undoes⟩ := (squash_inv inv saves.1).1
  have fewer : BPredUnit.pushedCalls (state.unit.squash squashedSn).predHist ≤
      BPredUnit.pushedCalls state.unit.predHist := (squashLoop_suffix squashedSn _ _).sublist.countP_le
  have room : BPredUnit.pushedCalls (state.unit.squash squashedSn).predHist <
      (state.unit.squash squashedSn).ras.numEntries :=
    fewer.trans_lt (fits.2.trans_eq sized.symm)
  have both := saves.2
  unfold Tracked.step
  dsimp only at inside undoes ⊢
  unfold BPredUnit.correct
  generalize state.unit.squash squashedSn = unit at *
  generalize state.left squashedSn = left at *
  obtain ⟨hist, ras⟩ := unit
  cases hist with
  | nil =>
    cases left with
    | nil => exact ⟨inside, undoes⟩
    | cons track older => exact undoes.elim
  | cons front rest =>
    cases left with
    | nil => exact undoes.elim
    | cons track older =>
      have count : BPredUnit.pushedCalls rest ≤ BPredUnit.pushedCalls (front :: rest) :=
        (List.sublist_cons_self front rest).countP_le
      obtain ⟨inside', undoes'⟩ := repair_undoes ops inside (count.trans_lt room) undoes corrTarget
        fun notTaken => both notTaken front rfl track rfl
      show RasInv ⟨⟨_ :: rest, (BPredUnit.repair ops front ras corrTarget actuallyTaken).2⟩, _⟩
      exact ⟨inside', undoes'⟩

theorem fits_positive {call : PredictorCall α} (fits : state.Fits call) : 0 < state.unit.ras.numEntries := by
  cases call with
  | predict branch => exact Nat.zero_lt_of_lt fits
  | update doneSn => exact Nat.zero_lt_of_lt fits
  | squash squashedSn => exact Nat.zero_lt_of_lt fits
  | correct squashedSn corrTarget actuallyTaken => exact Nat.zero_lt_of_lt fits.2

/-- **Every call keeps the history undoable.** -/
theorem step_inv (inv : RasInv state) {call : PredictorCall α} (fits : state.Fits call) (saves : state.Saves call) :
    RasInv (state.step ops call) := by
  cases call with
  | predict branch => exact predict_inv inv fits
  | update doneSn => exact update_inv inv doneSn
  | squash squashedSn => exact (squash_inv inv saves).1
  | correct squashedSn corrTarget actuallyTaken => exact correct_inv inv fits saves

end Steps

/-- **A squash gives the stack back**, in every run of calls none of which takes back a return that had not saved the top
of the stack. -/
theorem squash_restores (ops : PCOps α) (numEntries : Nat) (calls : List (PredictorCall α)) (squashedSn : Nat)
    (run : AllowedRun (Tracked.step ops) (fun state call => state.Fits call ∧ state.Saves call)
      (Tracked.start ops numEntries) (calls ++ [.squash squashedSn])) :
    (runActions (Tracked.step ops) (Tracked.start ops numEntries) calls).Restores squashedSn := by
  have positive : 0 < numEntries := by
    cases calls with
    | nil => exact Nat.zero_lt_of_lt run.1.1
    | cons call rest => exact fits_positive run.1.1
  have start : RasInv (Tracked.start ops numEntries) := ⟨positive, trivial⟩
  obtain ⟨first, ⟨-, saves⟩, -⟩ := AllowedRun.append_iff.mp run
  have inv := first.invariant RasInv (fun _ _ meets inv => step_inv inv meets.1 meets.2) start
  exact (squash_inv inv saves).2

/-! ### A return that is repaired and squashed -/

/-- Addresses for themselves. -/
def plainOps : PCOps Nat := ⟨0, id, fun _ rasTop => rasTop⟩

def directCall (seqNum pc : Nat) : Branch Nat where
  seqNum := seqNum
  pc := pc
  isUncondCtrl := true
  isReturn := false
  isCall := true
  isDirectCtrl := true
  lookup := true
  btb := some 64
  iPred := false
  indirect := none
  advanced := pc + 4

def conditionalReturn (seqNum pc : Nat) (taken : Bool) : Branch Nat where
  seqNum := seqNum
  pc := pc
  isUncondCtrl := false
  isReturn := true
  isCall := false
  isDirectCtrl := false
  lookup := taken
  btb := none
  iPred := false
  indirect := none
  advanced := pc + 4

theorem squash_restores_repaired :
    (runActions (Tracked.step plainOps) (Tracked.start plainOps 4)
      [.predict (directCall 1 100), .predict (conditionalReturn 2 64 true), .correct 2 68 false,
        .correct 2 104 true, .predict (directCall 3 104)]).Restores 1 :=
  squash_restores plainOps 4 _ 1 (by decide)

/-- **A return without undo information**: two calls, and a conditional return that is predicted not taken. The return
is corrected to taken, and then squashed by the second call: the stack is back at index 0. -/
theorem unsaved_return_squashed :
    ¬∀ calls squashedSn, AllowedRun (Tracked.step plainOps) Tracked.Fits (Tracked.start plainOps 4)
        (calls ++ [.squash squashedSn]) →
      (runActions (Tracked.step plainOps) (Tracked.start plainOps 4) calls).Restores squashedSn := by
  intro restores
  have squashed := restores [.predict (directCall 1 100), .predict (directCall 2 200),
    .predict (conditionalReturn 3 64 false), .correct 3 204 true] 2 (by decide)
  have marks : ((0, 0) : Nat × Nat) = (2, 200) := squashed
  exact absurd marks (by decide)

end Emas.Gem5

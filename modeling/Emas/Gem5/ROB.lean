/-
**The reorder buffer.**

`ROB` of `cpu/o3/rob_impl.hh`: each thread has a list of instructions, which are squashed from its end on over
several cycles.

* An instruction has the flags that the buffer reads and sets. The write counters of pinned registers belong to the
  registers and are not part of the model; whether an instruction has counted them back is.
* The nodes of a list are numbered from the first that ever was in it, so that an iterator stays at its node when
  others come and go. An iterator without a node is `end( )`.
* An instruction is in a list once: two of its pointers are equal if their nodes are.
* `robStatus` and the counters of the statistics are only written, and are not part of the model.

### One thread

`Sweep t before k` is what a squash has done to a list when its iterator is at the position `k`: some instructions
of `before` are marked, all of them younger than the squash, and all those behind `k` are. `squashLoop_sweep` moves
the iterator, `doSquash_sweep` is one cycle, and `Sweep.restart` the start of a squash, of a list that another one has
been through or not.
-/

import Emas.Lib.PartialRun
import Mathlib.Algebra.BigOperators.Group.Finset.Basic

namespace Emas.Gem5

abbrev ThreadID := Nat

/-! ### Instructions -/

/-- An instruction, as far as the buffer knows it. -/
structure DynInst where
  seqNum : Nat
  canCommit : Bool
  squashed : Bool
  committed : Bool
  inROB : Bool
  pinnedRegsRenamed : Bool
  pinnedRegsSquashDone : Bool
  deriving DecidableEq, Repr

namespace DynInst

variable (inst : DynInst)

def readyToCommit : Bool := inst.canCommit

def setCanCommit : DynInst := { inst with canCommit := true }

def setCommitted : DynInst := { inst with committed := true }

def setInROB : DynInst := { inst with inROB := true }

def clearInROB : DynInst := { inst with inROB := false }

/-- `setSquashed( )`, which counts the writes of pinned registers back once. -/
def setSquashed : DynInst :=
  if !inst.pinnedRegsRenamed || inst.pinnedRegsSquashDone then { inst with squashed := true }
  else { inst with squashed := true, pinnedRegsSquashDone := true }

/-- What `doSquash` does to an instruction. -/
def mark : DynInst := inst.setSquashed.setCanCommit

/-- What `markCompletedInsts` of the commit stage does to the instruction with a number. -/
def complete (seqNum : Nat) : DynInst := if inst.seqNum = seqNum && !inst.squashed then inst.setCanCommit else inst

/-- The instruction after a squash to a number. -/
def squashTo (seqNum : Nat) : DynInst := if seqNum < inst.seqNum then inst.mark else inst

variable {inst}

@[simp] theorem seqNum_mark : inst.mark.seqNum = inst.seqNum := by
  unfold mark setSquashed setCanCommit
  split <;> rfl

@[simp] theorem squashed_mark : inst.mark.squashed = true := by
  unfold mark setSquashed setCanCommit
  split <;> rfl

@[simp] theorem canCommit_mark : inst.mark.canCommit = true := rfl

@[simp] theorem mark_mark : inst.mark.mark = inst.mark := by
  cases inst with | mk seqNum canCommit squashed committed inROB renamed done => cases renamed <;> cases done <;> rfl

@[simp] theorem seqNum_complete (seqNum : Nat) : (inst.complete seqNum).seqNum = inst.seqNum := by
  unfold complete setCanCommit
  split <;> rfl

@[simp] theorem complete_mark (seqNum : Nat) : inst.mark.complete seqNum = inst.mark := by
  simp [complete]

@[simp] theorem mark_complete (seqNum : Nat) : (inst.complete seqNum).mark = inst.mark := by
  unfold complete
  split
  next =>
    unfold mark setSquashed setCanCommit
    split <;> rfl
  next => rfl

end DynInst

/-! ### The buffer -/

/-- A list iterator: its list and its node. -/
structure InstIt where
  tid : ThreadID
  node : Option Nat
  deriving DecidableEq, Repr

/-- How a call may end other than by returning. -/
inductive ROBFailure where
  /-- `assert( numInstsInROB != numEntries )` -/
  | full
  /-- `assert( numInstsInROB > 0 )` -/
  | empty
  /-- `assert( ( *head ) == inst )` -/
  | headNotInst
  /-- `assert( head_inst->readyToCommit( ) )` -/
  | notReady
  /-- `assert( squashIt[ tid ] != instList[ tid ].end( ) )` -/
  | squashItEnd
  /-- `end( )`, or an iterator to a node that is gone, was dereferenced or stepped back from nowhere. -/
  | endDereferenced
  deriving DecidableEq, Repr

/-- The entries of the arrays of the buffer for one thread. -/
structure ROBThread where
  instList : List DynInst
  /-- The number of nodes that were erased, so that this is the number of the first one. -/
  erased : Nat
  threadEntries : Nat
  squashIt : Option Nat
  squashedSeqNum : Nat
  doneSquashing : Bool
  deriving DecidableEq, Repr

/-- `class ROB`. -/
structure ROB where
  thread : ThreadID → ROBThread
  numInstsInROB : Nat
  head : InstIt
  tail : InstIt
  activeThreads : List ThreadID

/-- The parameters of the buffer. -/
structure ROBSettings where
  numThreads : Nat
  numEntries : Nat
  squashWidth : Nat
  deriving DecidableEq, Repr

namespace ROBThread

variable (t : ROBThread)

/-- `resetState( )`, for a thread without instructions. -/
def init : ROBThread := ⟨[], 0, 0, none, 0, true⟩

/-- `*it`. -/
def deref (node : Nat) : Except ROBFailure DynInst :=
  if node < t.erased then .error .endDereferenced
  else match t.instList[node - t.erased]? with
    | none => .error .endDereferenced
    | some inst => .ok inst

/-- `--instList[ tid ].end( )`. -/
def last : Except ROBFailure Nat :=
  if t.instList = [] then .error .endDereferenced else .ok (t.erased + t.instList.length - 1)

/-- `squashIt[ tid ] = instList[ tid ].end( ); doneSquashing[ tid ] = true;` -/
def finish : ROBThread := { t with squashIt := none, doneSquashing := true }

/-- The loop of `doSquash`: the thread, and unless the call returns in the loop whether the tail was squashed. -/
def squashLoop : Nat → Bool → ROBThread → Except ROBFailure (ROBThread × Option Bool)
  | 0, robTailUpdate, t => .ok (t, some robTailUpdate)
  | width + 1, robTailUpdate, t =>
    match t.squashIt with
    | none => .ok (t, some robTailUpdate)
    | some node =>
      match t.deref node with
      | .error failure => .error failure
      | .ok inst =>
        if t.squashedSeqNum < inst.seqNum then
          let t := { t with instList := t.instList.modify (node - t.erased) DynInst.mark }
          if node = t.erased then .ok (t.finish, none)
          else
            match t.last with
            | .error failure => .error failure
            | .ok tailThread =>
              squashLoop width (robTailUpdate || node == tailThread) { t with squashIt := some (node - 1) }
        else .ok (t, some robTailUpdate)

/-- `doSquash( tid )` without `updateTail( )`: the thread and whether the tail is to be updated. -/
def doSquash (squashWidth : Nat) : Except ROBFailure (ROBThread × Bool) :=
  match t.squashIt with
  | none => .error .squashItEnd
  | some node =>
    match t.deref node with
    | .error failure => .error failure
    | .ok inst =>
      if inst.seqNum < t.squashedSeqNum then .ok (t.finish, false)
      else
        match t.squashLoop squashWidth false with
        | .error failure => .error failure
        | .ok (t, none) => .ok (t, false)
        | .ok (t, some robTailUpdate) =>
          match t.squashIt with
          | none => .error .endDereferenced
          | some node =>
            match t.deref node with
            | .error failure => .error failure
            | .ok inst => .ok (if inst.seqNum ≤ t.squashedSeqNum then t.finish else t, robTailUpdate)

end ROBThread

namespace ROB

variable (settings : ROBSettings) (rob : ROB)

/-- `ROB( .. )`, which calls `resetState( )`. -/
def init : ROB := ⟨fun _ => .init, 0, ⟨0, none⟩, ⟨0, none⟩, []⟩

/-- The buffer with another list for a thread. -/
def setThread (tid : ThreadID) (t : ROBThread) : ROB := { rob with thread := Function.update rob.thread tid t }

/-- `*it`. -/
def deref (it : InstIt) : Except ROBFailure DynInst :=
  match it.node with
  | none => .error .endDereferenced
  | some node => (rob.thread it.tid).deref node

def isEmpty (tid : ThreadID) : Bool := (rob.thread tid).threadEntries = 0

/-- `isHeadReady( tid )`: there is an instruction, and the first can be committed. -/
def isHeadReady (tid : ThreadID) : Bool :=
  if (rob.thread tid).threadEntries ≠ 0 then ((rob.thread tid).instList.head?.map DynInst.readyToCommit).getD false
  else false

/-- The loop of `updateHead( )`. The number is that of the head, once there is a first one. -/
def updateHeadLoop : List ThreadID → Option Nat → InstIt → InstIt × Bool
  | [], lowestNum, head => (head, lowestNum.isNone)
  | tid :: threads, lowestNum, head =>
    match (rob.thread tid).instList with
    | [] => updateHeadLoop threads lowestNum head
    | headInst :: _ =>
      match lowestNum with
      | none => updateHeadLoop threads (some headInst.seqNum) ⟨tid, some (rob.thread tid).erased⟩
      | some lowest =>
        if headInst.seqNum < lowest then
          updateHeadLoop threads (some headInst.seqNum) ⟨tid, some (rob.thread tid).erased⟩
        else updateHeadLoop threads lowestNum head

def updateHead : ROB :=
  match rob.updateHeadLoop rob.activeThreads none rob.head with
  | (head, firstValid) => { rob with head := if firstValid then ⟨0, none⟩ else head }

/-- The loop of `updateTail( )`. -/
def updateTailLoop : List ThreadID → Bool → InstIt → Except ROBFailure InstIt
  | [], _, tail => .ok tail
  | tid :: threads, firstValid, tail =>
    if (rob.thread tid).instList = [] then updateTailLoop threads firstValid tail
    else
      match (rob.thread tid).last with
      | .error failure => .error failure
      | .ok node =>
        if firstValid then updateTailLoop threads false ⟨tid, some node⟩
        else
          match rob.deref ⟨tid, some node⟩, rob.deref tail with
          | .ok tailThread, .ok inst =>
            updateTailLoop threads false (if inst.seqNum < tailThread.seqNum then ⟨tid, some node⟩ else tail)
          | .error failure, _ => .error failure
          | _, .error failure => .error failure

def updateTail : Except ROBFailure ROB :=
  (rob.updateTailLoop rob.activeThreads true ⟨0, none⟩).map fun tail => { rob with tail := tail }

/-- `insertInst( inst )`, of a thread. -/
def insertInst (tid : ThreadID) (inst : DynInst) : Except ROBFailure ROB :=
  if rob.numInstsInROB = settings.numEntries then .error .full
  else
    let t := rob.thread tid
    let instList := t.instList ++ [inst.setInROB]
    let head : InstIt := if rob.numInstsInROB = 0 then ⟨tid, some t.erased⟩ else rob.head
    if rob.numInstsInROB = 0 ∧ instList.head? ≠ some inst.setInROB then .error .headNotInst
    else
      .ok { rob.setThread tid { t with instList := instList, threadEntries := t.threadEntries + 1 } with
        numInstsInROB := rob.numInstsInROB + 1
        head := head
        tail := ⟨tid, some (t.erased + t.instList.length)⟩ }

/-- `retireHead( tid )`: the buffer and the instruction. -/
def retireHead (tid : ThreadID) : Except ROBFailure (ROB × DynInst) :=
  if rob.numInstsInROB = 0 then .error .empty
  else
    let t := rob.thread tid
    match t.instList with
    | [] => .error .endDereferenced
    | headInst :: instList =>
      if headInst.readyToCommit then
        let t := { t with instList := instList, erased := t.erased + 1, threadEntries := t.threadEntries - 1 }
        .ok ({ rob.setThread tid t with numInstsInROB := rob.numInstsInROB - 1 }.updateHead,
          headInst.clearInROB.setCommitted)
      else .error .notReady

def doSquash (tid : ThreadID) : Except ROBFailure ROB :=
  match (rob.thread tid).doSquash settings.squashWidth with
  | .error failure => .error failure
  | .ok (t, robTailUpdate) => if robTailUpdate then (rob.setThread tid t).updateTail else .ok (rob.setThread tid t)

def squash (squashNum : Nat) (tid : ThreadID) : Except ROBFailure ROB :=
  if rob.isEmpty tid then .ok rob
  else
    let t := { rob.thread tid with doneSquashing := false, squashedSeqNum := squashNum }
    if t.instList = [] then .ok (rob.setThread tid t)
    else
      match t.last with
      | .error failure => .error failure
      | .ok tailThread => (rob.setThread tid { t with squashIt := some tailThread }).doSquash settings tid

end ROB

/-! ### What a squash has done to a list -/

namespace ROBThread

variable {t : ROBThread} {before : List DynInst} {k : Nat}

/-- The numbers of a list increase. -/
def Ordered (list : List DynInst) : Prop := list.Pairwise fun a b => a.seqNum < b.seqNum

theorem Ordered.lt (ordered : Ordered before) {i j : Nat} {a b : DynInst} (less : i < j) (at_i : before[i]? = some a)
    (at_j : before[j]? = some b) : a.seqNum < b.seqNum := by
  obtain ⟨inside, rfl⟩ := List.getElem?_eq_some_iff.mp at_i
  obtain ⟨inside', rfl⟩ := List.getElem?_eq_some_iff.mp at_j
  exact List.pairwise_iff_getElem.mp ordered i j inside inside' less

/-- The list as a squash that has come to its end leaves it. -/
def swept (t : ROBThread) (before : List DynInst) : ROBThread :=
  { t with instList := before.map (·.squashTo t.squashedSeqNum), squashIt := none, doneSquashing := true }

/-- The iterator at another position, over another list. -/
def moved (t : ROBThread) (instList : List DynInst) (k : Nat) : ROBThread :=
  { t with instList := instList, squashIt := some (t.erased + k) }

/-- Some instructions of `before`, all of them younger than the squash, are marked, and those behind `k` are. -/
structure Sweep (t : ROBThread) (before : List DynInst) (k : Nat) : Prop where
  it : t.squashIt = some (t.erased + k)
  inside : k < before.length
  length : t.instList.length = before.length
  same : ∀ i : Nat, t.instList[i]? = before[i]? ∨
    ∃ old : DynInst, before[i]? = some old ∧ t.instList[i]? = some old.mark ∧ t.squashedSeqNum < old.seqNum
  behind : ∀ (i : Nat) old, k < i → before[i]? = some old → t.instList[i]? = some old.mark ∧ t.squashedSeqNum < old.seqNum

theorem deref_of_getElem? {inst : DynInst} (at_k : t.instList[k]? = some inst) : t.deref (t.erased + k) = .ok inst := by
  rw [deref, if_neg (by omega), Nat.add_sub_cancel_left, at_k]

namespace Sweep

theorem here (sweep : Sweep t before k) : ∃ old inst, before[k]? = some old ∧ t.instList[k]? = some inst ∧
    inst.seqNum = old.seqNum ∧ inst.mark = old.mark := by
  obtain ⟨first, at_k⟩ : ∃ first, before[k]? = some first := ⟨_, List.getElem?_eq_getElem sweep.inside⟩
  rcases sweep.same k with same | ⟨old, at', marked, -⟩
  · exact ⟨_, _, at_k, same.trans at_k, rfl, rfl⟩
  · exact ⟨old, _, at', marked, DynInst.seqNum_mark, DynInst.mark_mark⟩

variable {old : DynInst}

/-- **At an instruction that stays** the squash has marked what it has to. -/
theorem complete (sweep : Sweep t before k) (ordered : Ordered before) (at_k : before[k]? = some old)
    (stays : old.seqNum ≤ t.squashedSeqNum) : t.finish = t.swept before := by
  have list : t.instList = before.map (·.squashTo t.squashedSeqNum) := by
    refine List.ext_getElem? fun i => ?_
    rw [List.getElem?_map]
    cases at_i : before[i]? with
    | none =>
      have outside := List.getElem?_eq_none_iff.mp at_i
      exact List.getElem?_eq_none (sweep.length ▸ outside)
    | some inst =>
      rw [Option.map_some, DynInst.squashTo]
      rcases Nat.lt_or_ge k i with less | le
      · obtain ⟨marked, younger⟩ := sweep.behind i inst less at_i
        rw [marked, if_pos younger]
      · have older : inst.seqNum ≤ old.seqNum := by
          rcases Nat.eq_or_lt_of_le le with rfl | less
          · exact Nat.le_of_eq (congrArg _ (Option.some.inj (at_i.symm.trans at_k)))
          · exact Nat.le_of_lt (ordered.lt less at_i at_k)
        rw [if_neg (by omega)]
        rcases sweep.same i with same | ⟨other, at', -, younger⟩
        · exact same.trans at_i
        · obtain rfl := Option.some.inj (at_i.symm.trans at')
          omega
  rw [finish, swept, ← list]

theorem marked (sweep : Sweep t before k) (at_k : before[k]? = some old) (younger : t.squashedSeqNum < old.seqNum) :
    (∀ i : Nat, (t.instList.modify k DynInst.mark)[i]? = before[i]? ∨ ∃ old : DynInst, before[i]? = some old ∧
      (t.instList.modify k DynInst.mark)[i]? = some old.mark ∧ t.squashedSeqNum < old.seqNum) ∧
    ∀ (i : Nat) old, k ≤ i → before[i]? = some old →
      (t.instList.modify k DynInst.mark)[i]? = some old.mark ∧ t.squashedSeqNum < old.seqNum := by
  obtain ⟨old', inst, at', listed, -, mark⟩ := sweep.here
  obtain rfl := Option.some.inj (at_k.symm.trans at')
  have changed : (t.instList.modify k DynInst.mark)[k]? = some old.mark := by
    rw [List.getElem?_modify_eq, listed, ← mark]
    rfl
  have kept : ∀ i, i ≠ k → (t.instList.modify k DynInst.mark)[i]? = t.instList[i]? := fun i ne =>
    List.getElem?_modify_ne _ _ ne.symm
  refine ⟨fun i => ?_, fun i other le at_i => ?_⟩
  · by_cases is : i = k
    · subst is
      exact Or.inr ⟨old, at_k, changed, younger⟩
    · rw [kept i is]
      exact sweep.same i
  · rcases Nat.eq_or_lt_of_le le with rfl | less
    · obtain rfl := Option.some.inj (at_k.symm.trans at_i)
      exact ⟨changed, younger⟩
    · rw [kept i (Nat.ne_of_gt less)]
      exact sweep.behind i other less at_i

theorem step (sweep : Sweep t before (k + 1)) (at_k : before[k + 1]? = some old)
    (younger : t.squashedSeqNum < old.seqNum) :
    Sweep (t.moved (t.instList.modify (k + 1) DynInst.mark) k) before k := by
  obtain ⟨same, behind⟩ := sweep.marked at_k younger
  have inside := sweep.inside
  exact ⟨rfl, by omega, (List.length_modify ..).trans sweep.length, same, fun i old less => behind i old less⟩

theorem first (sweep : Sweep t before 0) (at_k : before[0]? = some old) (younger : t.squashedSeqNum < old.seqNum) :
    { t with instList := t.instList.modify 0 DynInst.mark }.finish = t.swept before := by
  obtain ⟨-, behind⟩ := sweep.marked at_k younger
  have list : t.instList.modify 0 DynInst.mark = before.map (·.squashTo t.squashedSeqNum) := by
    refine List.ext_getElem? fun i => ?_
    rw [List.getElem?_map]
    cases at_i : before[i]? with
    | none =>
      have outside := List.getElem?_eq_none_iff.mp at_i
      exact List.getElem?_eq_none (by rw [List.length_modify, sweep.length]; exact outside)
    | some inst =>
      obtain ⟨marked, younger⟩ := behind i inst (Nat.zero_le i) at_i
      rw [marked, Option.map_some, DynInst.squashTo, if_pos younger]
  rw [finish, swept, ← list]

theorem restart {list : List DynInst} {squashNum : Nat} (length : list.length = before.length) (some' : before ≠ [])
    (same : ∀ i : Nat, list[i]? = before[i]? ∨
      ∃ old : DynInst, before[i]? = some old ∧ list[i]? = some old.mark ∧ squashNum < old.seqNum)
    (is : t.instList = list) (number : t.squashedSeqNum = squashNum)
    (it : t.squashIt = some (t.erased + (before.length - 1))) : Sweep t before (before.length - 1) := by
  subst is number
  have positive := List.length_pos_of_ne_nil some'
  refine ⟨it, by omega, length, same, fun i old less at_i => ?_⟩
  have inside := (List.getElem?_eq_some_iff.mp at_i).1
  omega

end Sweep

/-- **The loop** returns with the whole squash, or with the iterator at an earlier position or at one that stays. -/
theorem squashLoop_sweep (width : Nat) (robTailUpdate : Bool) (sweep : Sweep t before k) :
    t.squashLoop width robTailUpdate = .ok (t.swept before, none) ∨
      ∃ instList k' update, t.squashLoop width robTailUpdate = .ok (t.moved instList k', some update) ∧
        Sweep (t.moved instList k') before k' ∧
        k' ≤ k ∧ (k' < k ∨ width = 0 ∨ ∀ old, before[k']? = some old → old.seqNum ≤ t.squashedSeqNum) := by
  have stay : t.moved t.instList k = t := by
    rw [moved, ← sweep.it]
  induction width generalizing t k robTailUpdate with
  | zero => exact Or.inr ⟨t.instList, k, robTailUpdate, by rw [stay]; rfl, stay.symm ▸ sweep, Nat.le_refl k, .inr (.inl rfl)⟩
  | succ width ih =>
    obtain ⟨old, inst, at_k, listed, seqNum, -⟩ := sweep.here
    have body : t.squashLoop (width + 1) robTailUpdate =
        if t.squashedSeqNum < inst.seqNum then
          let t' := { t with instList := t.instList.modify (t.erased + k - t.erased) DynInst.mark }
          if t.erased + k = t.erased then .ok (t'.finish, none)
          else
            match t'.last with
            | .error failure => .error failure
            | .ok tailThread =>
              squashLoop width (robTailUpdate || t.erased + k == tailThread)
                { t' with squashIt := some (t.erased + k - 1) }
        else .ok (t, some robTailUpdate) := by
      rw [squashLoop, sweep.it]
      dsimp only
      rw [deref_of_getElem? listed]
    rw [body, seqNum, Nat.add_sub_cancel_left]
    split
    next younger =>
      cases k with
      | zero =>
        rw [if_pos (Nat.add_zero _)]
        exact Or.inl (congrArg (fun t => Except.ok (t, none)) (sweep.first at_k younger))
      | succ k =>
        have back := sweep.step at_k younger
        have some' : t.instList.modify (k + 1) DynInst.mark ≠ [] := by
          refine List.ne_nil_of_length_pos ?_
          rw [List.length_modify, sweep.length]
          exact Nat.lt_of_le_of_lt (Nat.zero_le _) sweep.inside
        rw [if_neg (by omega)]
        dsimp only
        rw [last, if_neg some']
        rcases ih (robTailUpdate || t.erased + (k + 1) == t.erased + (t.instList.modify (k + 1) DynInst.mark).length - 1)
          back rfl with whole | ⟨instList, k', update, loop, sweep', le, -⟩
        · exact Or.inl whole
        · exact Or.inr ⟨instList, k', update, loop, sweep', Nat.le_succ_of_le le, .inl (Nat.lt_succ_of_le le)⟩
    next stays =>
      refine Or.inr ⟨t.instList, k, robTailUpdate, by rw [stay], stay.symm ▸ sweep, Nat.le_refl k,
        .inr (.inr fun other at' => ?_)⟩
      obtain rfl := Option.some.inj (at_k.symm.trans at')
      exact Nat.not_lt.mp stays

/-- **A cycle** ends the squash, or moves the iterator to an earlier instruction, which is still to be squashed. -/
theorem doSquash_sweep (ordered : Ordered before) {squashWidth : Nat} (wide : 1 ≤ squashWidth)
    (sweep : Sweep t before k) : (∃ update, t.doSquash squashWidth = .ok (t.swept before, update)) ∨
      ∃ instList k' update, t.doSquash squashWidth = .ok (t.moved instList k', update) ∧
        Sweep (t.moved instList k') before k' ∧ k' < k := by
  obtain ⟨old, inst, at_k, listed, seqNum, -⟩ := sweep.here
  have start : t.doSquash squashWidth = if inst.seqNum < t.squashedSeqNum then .ok (t.finish, false)
      else match t.squashLoop squashWidth false with
        | .error failure => .error failure
        | .ok (t, none) => .ok (t, false)
        | .ok (t, some robTailUpdate) =>
          match t.squashIt with
          | none => .error .endDereferenced
          | some node =>
            match t.deref node with
            | .error failure => .error failure
            | .ok inst => .ok (if inst.seqNum ≤ t.squashedSeqNum then t.finish else t, robTailUpdate) := by
    rw [doSquash, sweep.it]
    dsimp only
    rw [deref_of_getElem? listed]
  rw [start]
  split
  next older =>
    rw [seqNum] at older
    exact Or.inl ⟨false, by rw [sweep.complete ordered at_k (Nat.le_of_lt older)]⟩
  next =>
    rcases squashLoop_sweep squashWidth false sweep with whole | ⟨instList, k', update, loop, sweep', le, reason⟩
    · rw [whole]
      exact Or.inl ⟨false, rfl⟩
    · obtain ⟨old', inst', at_k', listed', seqNum', -⟩ := sweep'.here
      have found : (t.moved instList k').deref (t.erased + k') = .ok inst' := deref_of_getElem? listed'
      have it : (t.moved instList k').squashIt = some (t.erased + k') := rfl
      rw [loop]
      simp only [it, found]
      split
      next stays =>
        have done := sweep'.complete ordered at_k' (seqNum' ▸ stays)
        exact Or.inl ⟨update, by rw [done]; rfl⟩
      next younger =>
        refine Or.inr ⟨instList, k', update, rfl, sweep', ?_⟩
        rcases reason with less | none | stays
        · exact less
        · omega
        · exact absurd (seqNum' ▸ stays old' at_k') younger

theorem Sweep.ordered (sweep : Sweep t before k) (ordered : Ordered before) : Ordered t.instList := by
  have numbers : t.instList.map (·.seqNum) = before.map (·.seqNum) := by
    refine List.ext_getElem? fun i => ?_
    rw [List.getElem?_map, List.getElem?_map]
    rcases sweep.same i with same | ⟨old, at_i, marked, -⟩
    · rw [same]
    · rw [at_i, marked, Option.map_some, Option.map_some, DynInst.seqNum_mark]
  have pairs : (t.instList.map (·.seqNum)).Pairwise (· < ·) := numbers ▸ List.pairwise_map.mpr ordered
  exact List.pairwise_map.mp pairs

theorem Ordered.map {f : DynInst → DynInst} (ordered : Ordered before) (keeps : ∀ inst, (f inst).seqNum = inst.seqNum) :
    Ordered (before.map f) := by
  refine List.pairwise_map.mpr (ordered.imp fun {a b} less => ?_)
  rwa [keeps, keeps]

theorem Sweep.completed (sweep : Sweep t before k) (seqNum : Nat) :
    Sweep { t with instList := t.instList.map (·.complete seqNum) } (before.map (·.complete seqNum)) k := by
  refine ⟨sweep.it, by rw [List.length_map]; exact sweep.inside, ?_, fun i => ?_, fun i old less at_i => ?_⟩
  · rw [List.length_map, List.length_map]
    exact sweep.length
  · dsimp only
    rw [List.getElem?_map, List.getElem?_map]
    rcases sweep.same i with same | ⟨old, at_i, marked, younger⟩
    · exact Or.inl (congrArg _ same)
    · refine Or.inr ⟨old.complete seqNum, by rw [at_i]; rfl, ?_, ?_⟩
      · rw [marked, Option.map_some, DynInst.complete_mark, DynInst.mark_complete]
      · rwa [DynInst.seqNum_complete]
  · rw [List.getElem?_map] at at_i
    obtain ⟨inst, was, rfl⟩ := Option.map_eq_some_iff.mp at_i
    obtain ⟨marked, younger⟩ := sweep.behind i inst less was
    dsimp only
    rw [List.getElem?_map, marked, Option.map_some, DynInst.complete_mark, DynInst.mark_complete,
      DynInst.seqNum_complete]
    exact ⟨rfl, younger⟩

end ROBThread

end Emas.Gem5

/-
**Squashing is exact.**

Runs of the reorder buffer, over any number of threads.
-/

import Emas.Gem5.ROB
import Mathlib.Algebra.Order.BigOperators.Group.Finset

namespace Emas.Gem5

/-- The buffer, and the lists of the squashing threads without their squashes. -/
structure Watched where
  rob : ROB
  before : ThreadID → List DynInst

/-- The calls of the commit stage, an instruction that completes and a change of the active threads. -/
inductive ROBAction where
  | insertInst (tid : ThreadID) (inst : DynInst)
  | retireHead (tid : ThreadID)
  | squash (squashNum : Nat) (tid : ThreadID)
  | doSquash (tid : ThreadID)
  | markCompleted (seqNum : Nat) (tid : ThreadID)
  | activate (threads : List ThreadID)
  deriving DecidableEq, Repr

/-- The action is one of the thread. -/
def ROBAction.Of (tid : ThreadID) : ROBAction → Prop
  | .insertInst other _ | .retireHead other | .squash _ other | .doSquash other | .markCompleted _ other => other = tid
  | .activate _ => False

namespace Watched

variable (settings : ROBSettings)

def init : Watched := ⟨.init, fun _ => []⟩

/-- The thread `tid` of the buffer. -/
abbrev thread (w : Watched) (tid : ThreadID) : ROBThread := w.rob.thread tid

/-- What a squash of a thread is compared with afterwards. -/
def squashBefore (w : Watched) (tid : ThreadID) : ThreadID → List DynInst :=
  if (w.thread tid).doneSquashing then Function.update w.before tid (w.thread tid).instList else w.before

/-- An instruction completes. -/
def markCompleted (w : Watched) (seqNum : Nat) (tid : ThreadID) : Watched where
  rob := w.rob.setThread tid { w.thread tid with instList := (w.thread tid).instList.map (·.complete seqNum) }
  before := Function.update w.before tid ((w.before tid).map (·.complete seqNum))

/-- One action. -/
def act (w : Watched) : ROBAction → Except ROBFailure Watched
  | .insertInst tid inst => (w.rob.insertInst settings tid inst).map (⟨·, w.before⟩)
  | .retireHead tid => (w.rob.retireHead tid).map fun (rob, _) => ⟨rob, w.before⟩
  | .squash squashNum tid => (w.rob.squash settings squashNum tid).map (⟨·, w.squashBefore tid⟩)
  | .doSquash tid => (w.rob.doSquash settings tid).map (⟨·, w.before⟩)
  | .markCompleted seqNum tid => .ok (w.markCompleted seqNum tid)
  | .activate threads => .ok ⟨{ w.rob with activeThreads := threads }, w.before⟩

/-- One action, where it does not fail. -/
def tryAct (w : Watched) (action : ROBAction) : Option Watched := (w.act settings action).toOption

/-- When an action may be taken: instructions come in order and go when they are ready, both not in the middle of a
squash, which only goes to older instructions. -/
def Allowed (w : Watched) : ROBAction → Prop
  | .insertInst tid inst => tid < settings.numThreads ∧ (w.thread tid).doneSquashing ∧
      ∀ other ∈ (w.thread tid).instList, other.seqNum < inst.seqNum
  | .retireHead tid => tid < settings.numThreads ∧ (w.thread tid).doneSquashing ∧ w.rob.isHeadReady tid
  | .squash squashNum tid => tid < settings.numThreads ∧
      ((w.thread tid).doneSquashing = false → squashNum ≤ (w.thread tid).squashedSeqNum)
  | .doSquash tid => tid < settings.numThreads ∧ (w.thread tid).doneSquashing = false
  | .markCompleted _ tid => tid < settings.numThreads
  | .activate _ => True

instance (w : Watched) : DecidablePred (w.Allowed settings)
  | .insertInst .. => inferInstanceAs (Decidable (_ ∧ _))
  | .retireHead .. => inferInstanceAs (Decidable (_ ∧ _))
  | .squash .. => inferInstanceAs (Decidable (_ ∧ _))
  | .doSquash .. => inferInstanceAs (Decidable (_ ∧ _))
  | .markCompleted .. => inferInstanceAs (Decidable (_ < _))
  | .activate .. => isTrue trivial

/-! ### The invariant -/

/-- A thread that squashes nothing, or is in the middle of a sweep of the list `before`. -/
inductive Phase (t : ROBThread) (before : List DynInst) : Prop where
  | done (done : t.doneSquashing = true) (it : t.squashIt = none)
  | squashing (done : t.doneSquashing = false) (ordered : ROBThread.Ordered before) (k : Nat) (sweep : t.Sweep before k)

/-- The list of a thread is in order and counted, and in one phase of a squash. -/
structure ValidThread (t : ROBThread) (before : List DynInst) : Prop where
  entries : t.threadEntries = t.instList.length
  ordered : ROBThread.Ordered t.instList
  phase : Phase t before

/-- The number of instructions in the lists. -/
def total (rob : ROB) : Nat := ∑ tid ∈ Finset.range settings.numThreads, (rob.thread tid).instList.length

/-- The counters are those of the lists, and a thread squashes nothing or is in the middle of a `Sweep`. Each action
keeps it (`insertInst_valid`, `retireHead_valid`, `squash_swept`, `Swept.valid`, ...). -/
structure Valid (w : Watched) : Prop where
  thread : ∀ tid, ValidThread (w.thread tid) (w.before tid)
  counted : w.rob.numInstsInROB = total settings w.rob

variable {settings} {w : Watched} {tid : ThreadID}

theorem thread_setThread (rob : ROB) (tid : ThreadID) (t : ROBThread) : (rob.setThread tid t).thread tid = t :=
  Function.update_self ..

theorem thread_setThread_of_ne (rob : ROB) {tid other : ThreadID} (t : ROBThread) (ne : other ≠ tid) :
    (rob.setThread tid t).thread other = rob.thread other := Function.update_of_ne ne ..

theorem total_setThread (rob : ROB) (t : ROBThread) (inside : tid < settings.numThreads) :
    total settings (rob.setThread tid t) + (rob.thread tid).instList.length
      = total settings rob + t.instList.length := by
  have mem := Finset.mem_range.mpr inside
  have others : ∑ other ∈ (Finset.range settings.numThreads).erase tid,
      ((rob.setThread tid t).thread other).instList.length
        = ∑ other ∈ (Finset.range settings.numThreads).erase tid, (rob.thread other).instList.length :=
    Finset.sum_congr rfl fun other member => by
      rw [thread_setThread_of_ne rob t (Finset.ne_of_mem_erase member)]
  have now : ((rob.setThread tid t).thread tid).instList.length + ∑ other ∈ (Finset.range settings.numThreads).erase tid,
      ((rob.setThread tid t).thread other).instList.length = total settings (rob.setThread tid t) :=
    Finset.add_sum_erase _ (fun other => ((rob.setThread tid t).thread other).instList.length) mem
  have was : (rob.thread tid).instList.length + ∑ other ∈ (Finset.range settings.numThreads).erase tid,
      (rob.thread other).instList.length = total settings rob :=
    Finset.add_sum_erase _ (fun other => (rob.thread other).instList.length) mem
  rw [thread_setThread] at now
  omega

theorem length_le_total (rob : ROB) (inside : tid < settings.numThreads) :
    (rob.thread tid).instList.length ≤ total settings rob :=
  Finset.single_le_sum (f := fun tid => (rob.thread tid).instList.length) (fun _ _ => Nat.zero_le _)
    (Finset.mem_range.mpr inside)

theorem init_valid : init.Valid settings where
  thread _ := ⟨rfl, List.Pairwise.nil, .done rfl rfl⟩
  counted := (Finset.sum_eq_zero fun _ _ => rfl).symm

theorem Valid.setThread (valid : w.Valid settings) {rob : ROB} {before : ThreadID → List DynInst} (t : ROBThread)
    (inside : tid < settings.numThreads) (threads : rob.thread = (w.rob.setThread tid t).thread)
    (others : ∀ other, other ≠ tid → before other = w.before other) (here : ValidThread t (before tid))
    (counted : rob.numInstsInROB + (w.thread tid).instList.length = w.rob.numInstsInROB + t.instList.length) :
    Valid settings ⟨rob, before⟩ where
  thread other := by
    show ValidThread (rob.thread other) (before other)
    rw [threads]
    by_cases is : other = tid
    · subst is
      rwa [thread_setThread]
    · rw [thread_setThread_of_ne _ _ is, others other is]
      exact valid.thread other
  counted := by
    have length := total_setThread w.rob t inside
    rw [← valid.counted] at length
    have same : total settings rob = total settings (w.rob.setThread tid t) := by
      rw [total, total, threads]
    exact Nat.add_right_cancel (counted.trans (same ▸ length).symm)

/-! ### The actions -/

theorem insertInst_valid (valid : w.Valid settings) {inst : DynInst} (allowed : w.Allowed settings (.insertInst tid inst)) :
    w.rob.insertInst settings tid inst = .error .full ∨
      ∃ rob t, w.rob.insertInst settings tid inst = .ok rob ∧ rob.thread = (w.rob.setThread tid t).thread ∧
        t.doneSquashing ∧ Valid settings ⟨rob, w.before⟩ := by
  obtain ⟨inside, done, younger⟩ := allowed
  have now := valid.thread tid
  by_cases full : w.rob.numInstsInROB = settings.numEntries
  · exact Or.inl (if_pos full)
  have first : ¬(w.rob.numInstsInROB = 0 ∧
      ((w.rob.thread tid).instList ++ [inst.setInROB]).head? ≠ some inst.setInROB) := fun ⟨nothing, other⟩ => by
    have length := length_le_total w.rob inside
    rw [← valid.counted, nothing, Nat.le_zero, List.length_eq_zero_iff] at length
    exact other (by rw [length]; rfl)
  refine Or.inr ⟨_, _, (if_neg full).trans (if_neg first), rfl, done, valid.setThread _ inside rfl (fun _ _ => rfl) ⟨?_, ?_, ?_⟩ ?_⟩
  · show (w.thread tid).threadEntries + 1 = _
    rw [now.entries, List.length_append, List.length_singleton]
  · refine List.pairwise_append.mpr ⟨now.ordered, List.pairwise_singleton _ _, fun other mem new new' => ?_⟩
    rw [List.mem_singleton.mp new']
    exact younger other mem
  · cases now.phase with
    | done done it => exact .done done it
    | squashing busy => rw [done] at busy; cases busy
  · show w.rob.numInstsInROB + 1 + _ = _ + ((w.thread tid).instList ++ [inst.setInROB]).length
    rw [List.length_append, List.length_singleton]
    omega

theorem retireHead_valid (valid : w.Valid settings) (allowed : w.Allowed settings (.retireHead tid)) :
    ∃ rob t inst, w.rob.retireHead tid = .ok (rob, inst) ∧ rob.thread = (w.rob.setThread tid t).thread ∧
      t.doneSquashing ∧ Valid settings ⟨rob, w.before⟩ := by
  obtain ⟨inside, done, ready⟩ := allowed
  have now := valid.thread tid
  obtain ⟨inst, rest, list⟩ : ∃ inst rest, (w.thread tid).instList = inst :: rest := by
    cases list : (w.thread tid).instList with
    | nil =>
      rw [ROB.isHeadReady, list] at ready
      split at ready <;> cases ready
    | cons inst rest => exact ⟨inst, rest, rfl⟩
  have canCommit : inst.readyToCommit = true := by
    rw [ROB.isHeadReady, list] at ready
    split at ready
    next => exact ready
    next => cases ready
  have length := length_le_total w.rob inside
  rw [← valid.counted, list, List.length_cons] at length
  have some' : ¬w.rob.numInstsInROB = 0 := by omega
  have call : w.rob.retireHead tid = .ok ({ w.rob.setThread tid { w.thread tid with
      instList := rest, erased := (w.thread tid).erased + 1, threadEntries := (w.thread tid).threadEntries - 1 } with
        numInstsInROB := w.rob.numInstsInROB - 1 }.updateHead, inst.clearInROB.setCommitted) := by
    rw [ROB.retireHead, if_neg some']
    dsimp only
    rw [list]
    exact if_pos canCommit
  have ordered := now.ordered
  have entries := now.entries
  rw [list] at ordered entries
  refine ⟨_, _, _, call, rfl, done, valid.setThread _ inside rfl (fun _ _ => rfl) ⟨?_, ordered.tail, ?_⟩ ?_⟩
  · show (w.thread tid).threadEntries - 1 = _
    rw [entries, List.length_cons, Nat.add_sub_cancel]
  · cases now.phase with
    | done done it => exact .done done it
    | squashing busy => rw [done] at busy; cases busy
  · show w.rob.numInstsInROB - 1 + _ = _ + rest.length
    rw [list, List.length_cons]
    omega

variable {t : ROBThread}

theorem deref_last {node : Nat} (last : t.last = .ok node) : ∃ inst, t.deref node = .ok inst := by
  unfold ROBThread.last at last
  split at last
  next => cases last
  next some' =>
    cases last
    have positive := List.length_pos_of_ne_nil some'
    have inside : t.instList.length - 1 < t.instList.length := by omega
    refine ⟨t.instList[t.instList.length - 1], ?_⟩
    rw [show t.erased + t.instList.length - 1 = t.erased + (t.instList.length - 1) by omega]
    exact ROBThread.deref_of_getElem? (List.getElem?_eq_getElem inside)

theorem updateTail_ok (rob : ROB) : ∃ tail, rob.updateTail = .ok { rob with tail := tail } := by
  suffices loop : ∀ (threads : List ThreadID) (firstValid : Bool) (tail : InstIt),
      (firstValid = false → ∃ inst, rob.deref tail = .ok inst) →
        ∃ tail', rob.updateTailLoop threads firstValid tail = .ok tail' by
    obtain ⟨tail, done⟩ := loop rob.activeThreads true ⟨0, none⟩ nofun
    exact ⟨tail, by rw [ROB.updateTail, done]; rfl⟩
  intro threads
  induction threads with
  | nil => exact fun firstValid tail _ => ⟨tail, rfl⟩
  | cons tid threads ih =>
    intro firstValid tail found
    rw [ROB.updateTailLoop]
    split
    next => exact ih firstValid tail found
    next some' =>
      obtain ⟨node, last⟩ : ∃ node, (rob.thread tid).last = .ok node := ⟨_, if_neg some'⟩
      obtain ⟨inst, here⟩ := deref_last last
      rw [last]
      cases firstValid with
      | true => exact ih false _ fun _ => ⟨inst, here⟩
      | false =>
        obtain ⟨inst', there⟩ := found rfl
        have here' : rob.deref ⟨tid, some node⟩ = .ok inst := here
        simp only [Bool.false_eq_true, if_false, here', there]
        split
        next => exact ih false _ fun _ => ⟨inst, here⟩
        next => exact ih false _ fun _ => ⟨inst', there⟩

theorem doSquash_thread {rob : ROB} {update : Bool}
    (done : (rob.thread tid).doSquash settings.squashWidth = .ok (t, update)) :
    ∃ tail, rob.doSquash settings tid = .ok { rob.setThread tid t with tail := tail } := by
  rw [ROB.doSquash, done]
  cases update with
  | true => exact updateTail_ok _
  | false => exact ⟨_, rfl⟩

/-- What a sweep of the thread leaves of the buffer: a finished squash, or one in the middle. -/
inductive Swept (rob : ROB) (tid : ThreadID) (t : ROBThread) (before : List DynInst) (k : Nat) (next : ROB) : Prop where
  | finished (tail : InstIt) (is : next = { rob.setThread tid (t.swept before) with tail := tail })
  | goesOn (tail : InstIt) (instList : List DynInst) (k' : Nat) (less : k' < k)
      (sweep : (t.moved instList k').Sweep before k')
      (is : next = { rob.setThread tid (t.moved instList k') with tail := tail })

variable {before : List DynInst}

variable {k : Nat}

theorem doSquash_swept {rob : ROB} (wide : 1 ≤ settings.squashWidth)
    (ordered : ROBThread.Ordered before) (sweep : (rob.thread tid).Sweep before k) :
    ∃ next, rob.doSquash settings tid = .ok next ∧ Swept rob tid (rob.thread tid) before k next := by
  rcases ROBThread.doSquash_sweep ordered wide sweep with ⟨update, done⟩ | ⟨instList, k', update, done, sweep', less⟩
  · obtain ⟨tail, call⟩ := doSquash_thread done
    exact ⟨_, call, .finished tail rfl⟩
  · obtain ⟨tail, call⟩ := doSquash_thread done
    exact ⟨_, call, .goesOn tail instList k' less sweep' rfl⟩

theorem Swept.valid {before : ThreadID → List DynInst} {next : ROB}
    (swept : Swept w.rob tid t (before tid) k next) (valid : w.Valid settings) (inside : tid < settings.numThreads)
    (busy : t.doneSquashing = false) (entries : t.threadEntries = (w.thread tid).threadEntries)
    (ordered : ROBThread.Ordered (before tid)) (length : (before tid).length = (w.thread tid).instList.length)
    (others : ∀ other, other ≠ tid → before other = w.before other) : Valid settings ⟨next, before⟩ := by
  have counted := (valid.thread tid).entries
  cases swept with
  | finished tail is =>
    subst is
    refine valid.setThread _ inside rfl others ⟨?_, ordered.map fun inst => ?_, .done rfl rfl⟩ ?_
    · show t.threadEntries = ((before tid).map _).length
      rw [List.length_map, entries, counted, length]
    · rw [DynInst.squashTo]
      split
      next => exact DynInst.seqNum_mark
      next => rfl
    · show w.rob.numInstsInROB + _ = _ + ((before tid).map _).length
      rw [List.length_map, length]
  | goesOn tail instList k' less sweep is =>
    subst is
    refine valid.setThread _ inside rfl others ⟨?_, sweep.ordered ordered, .squashing busy ordered k' sweep⟩ ?_
    · rw [sweep.length, length, ← counted]
      exact entries
    · rw [sweep.length, length]
      rfl

theorem Swept.exact {rob next : ROB}
    (swept : Swept rob tid t before k next) (busy : t.doneSquashing = false) (done : (next.thread tid).doneSquashing) :
    (next.thread tid).instList = before.map (·.squashTo (next.thread tid).squashedSeqNum) := by
  cases swept with
  | finished tail is =>
    subst is
    show ((rob.setThread tid (t.swept before)).thread tid).instList =
      before.map (·.squashTo ((rob.setThread tid (t.swept before)).thread tid).squashedSeqNum)
    rw [thread_setThread]
    rfl
  | goesOn tail instList k' less sweep is =>
    subst is
    have done' : ((rob.setThread tid (t.moved instList k')).thread tid).doneSquashing = true := done
    rw [thread_setThread] at done'
    exact absurd (done'.symm.trans busy) Bool.noConfusion

theorem Swept.others {rob next : ROB} {other : ThreadID}
    (swept : Swept rob tid t before k next) (ne : other ≠ tid) : next.thread other = rob.thread other := by
  cases swept with
  | finished tail is => exact is ▸ thread_setThread_of_ne rob _ ne
  | goesOn tail instList k' less sweep is => exact is ▸ thread_setThread_of_ne rob _ ne

/-! ### Starting a squash -/

/-- The thread as `squash` leaves it. -/
def started (t : ROBThread) (squashNum : Nat) : ROBThread :=
  { t with doneSquashing := false, squashedSeqNum := squashNum, squashIt := some (t.erased + t.instList.length - 1) }

theorem setThread_setThread (rob : ROB) (t t' : ROBThread) :
    (rob.setThread tid t).setThread tid t' = rob.setThread tid t' := by
  unfold ROB.setThread
  rw [Function.update_idem]

theorem squash_swept (valid : w.Valid settings) (wide : 1 ≤ settings.squashWidth) {squashNum : Nat}
    (allowed : w.Allowed settings (.squash squashNum tid)) (some' : (w.thread tid).instList ≠ []) :
    ROBThread.Ordered (w.squashBefore tid tid) ∧ (w.squashBefore tid tid).length = (w.thread tid).instList.length ∧
      ∃ next k, w.rob.squash settings squashNum tid = .ok next ∧
        Swept w.rob tid (started (w.thread tid) squashNum) (w.squashBefore tid tid) k next := by
  have now := valid.thread tid
  -- what the list has to do with the one before the squash, also if it is not the first one
  obtain ⟨ordered, length, same⟩ : ROBThread.Ordered (w.squashBefore tid tid) ∧
      (w.thread tid).instList.length = (w.squashBefore tid tid).length ∧
      ∀ i : Nat, (w.thread tid).instList[i]? = (w.squashBefore tid tid)[i]? ∨ ∃ old : DynInst,
        (w.squashBefore tid tid)[i]? = some old ∧ (w.thread tid).instList[i]? = some old.mark ∧
          squashNum < old.seqNum := by
    cases now.phase with
    | done done it =>
      have is : w.squashBefore tid tid = (w.thread tid).instList := by
        rw [squashBefore, if_pos done, Function.update_self]
      rw [is]
      exact ⟨now.ordered, rfl, fun i => Or.inl rfl⟩
    | squashing done ordered k sweep =>
      have is : w.squashBefore tid tid = w.before tid := by
        rw [squashBefore, if_neg (by rw [done]; exact Bool.false_ne_true)]
      rw [is]
      refine ⟨ordered, sweep.length, fun i => (sweep.same i).imp_right fun ⟨old, at_i, marked, younger⟩ => ?_⟩
      exact ⟨old, at_i, marked, Nat.lt_of_le_of_lt (allowed.2 done) younger⟩
  refine ⟨ordered, length.symm, ?_⟩
  have before' : w.squashBefore tid tid ≠ [] := fun none => by
    rw [none] at length
    exact some' (List.length_eq_zero_iff.mp length)
  have sweep : (started (w.thread tid) squashNum).Sweep (w.squashBefore tid tid)
      ((w.squashBefore tid tid).length - 1) := by
    refine .restart length before' same rfl rfl ?_
    have positive := List.length_pos_of_ne_nil before'
    rw [started, length, Nat.add_sub_assoc positive]
  have entries : w.rob.isEmpty tid = false := by
    rw [ROB.isEmpty, now.entries]
    exact decide_eq_false fun none => some' (List.length_eq_zero_iff.mp none)
  have call : w.rob.squash settings squashNum tid
      = (w.rob.setThread tid (started (w.thread tid) squashNum)).doSquash settings tid := by
    rw [ROB.squash, entries, if_neg Bool.false_ne_true]
    dsimp only
    rw [if_neg some', ROBThread.last, if_neg some']
    rfl
  rw [← thread_setThread w.rob tid (started (w.thread tid) squashNum)] at sweep
  obtain ⟨next, done, swept⟩ := doSquash_swept wide ordered sweep
  rw [thread_setThread] at swept
  refine ⟨next, (w.squashBefore tid tid).length - 1, call.trans done, ?_⟩
  cases swept with
  | finished tail is => exact .finished tail (by rw [is, setThread_setThread])
  | goesOn tail instList k' less sweep is => exact .goesOn tail instList k' less sweep (by rw [is, setThread_setThread])

/-! ### Runs -/

/-- The cycles that a squash can still take. -/
def remaining (t : ROBThread) : Nat :=
  if t.doneSquashing then 0 else (t.squashIt.map fun node => node - t.erased + 1).getD 0

theorem remaining_done (done : t.doneSquashing) : remaining t = 0 := if_pos done

theorem remaining_sweep (busy : t.doneSquashing = false) (sweep : t.Sweep before k) : remaining t = k + 1 := by
  rw [remaining, busy, if_neg Bool.false_ne_true, sweep.it, Option.map_some, Option.getD_some, Nat.add_sub_cancel_left]

theorem Swept.remaining_lt {rob next : ROB}
    (swept : Swept rob tid t before k next) (busy : t.doneSquashing = false) : remaining (next.thread tid) < k + 1 := by
  cases swept with
  | finished tail is =>
    subst is
    show remaining ((rob.setThread tid (t.swept before)).thread tid) < _
    rw [thread_setThread, remaining_done rfl]
    omega
  | goesOn tail instList k' less sweep is =>
    subst is
    show remaining ((rob.setThread tid (t.moved instList k')).thread tid) < _
    rw [thread_setThread, remaining_sweep (t := t.moved instList k') busy sweep]
    omega

/-- The action squashes instructions of the thread. -/
def Squashes (w : Watched) (tid : ThreadID) : ROBAction → Prop
  | .squash _ other => other = tid ∧ (w.thread tid).instList ≠ []
  | .doSquash other => other = tid
  | _ => False

/-- What an action leaves of the threads: of others nothing is changed, and a squash that ends is exact. -/
structure Taken (w : Watched) (action : ROBAction) (next : Watched) : Prop where
  others : ∀ tid, ¬action.Of tid → next.thread tid = w.thread tid
  exact : ∀ tid, w.Squashes tid action → (next.thread tid).doneSquashing →
    (next.thread tid).instList = (next.before tid).map (·.squashTo (next.thread tid).squashedSeqNum)
  remains : ∀ tid, (∀ squashNum, action ≠ .squash squashNum tid) →
    remaining (next.thread tid) + [action].count (.doSquash tid) ≤ remaining (w.thread tid)

theorem Taken.of_thread {action : ROBAction} {next : Watched} (others : ∀ tid, ¬action.Of tid → next.thread tid = w.thread tid)
    (none : ∀ tid, ¬w.Squashes tid action) (same : ∀ tid, action.Of tid → remaining (next.thread tid) ≤ remaining (w.thread tid)) :
    Taken w action next where
  others := others
  exact tid squashes := absurd squashes (none tid)
  remains tid _ := by
    have other : action ≠ .doSquash tid := fun is => none tid (is ▸ rfl)
    rw [List.count_singleton, if_neg (by simpa using other), Nat.add_zero]
    by_cases of : action.Of tid
    · exact same tid of
    · rw [others tid of]

theorem markCompleted_valid (valid : w.Valid settings) (seqNum : Nat) (inside : tid < settings.numThreads) :
    (w.markCompleted seqNum tid).Valid settings := by
  have now := valid.thread tid
  refine valid.setThread _ inside rfl (fun other ne => Function.update_of_ne ne ..) ⟨?_, ?_, ?_⟩ ?_
  · show (w.thread tid).threadEntries = ((w.thread tid).instList.map _).length
    rw [List.length_map, now.entries]
  · exact now.ordered.map fun inst => DynInst.seqNum_complete seqNum
  · rw [Function.update_self]
    cases now.phase with
    | done done it => exact .done done it
    | squashing done ordered k sweep =>
      exact .squashing done (ordered.map fun inst => DynInst.seqNum_complete seqNum) k (sweep.completed seqNum)
  · show w.rob.numInstsInROB + _ = _ + ((w.thread tid).instList.map _).length
    rw [List.length_map]

theorem squash_empty (valid : w.Valid settings) (squashNum : Nat) (none : (w.thread tid).instList = []) :
    w.rob.squash settings squashNum tid = .ok w.rob ∧ Valid settings ⟨w.rob, w.squashBefore tid⟩ := by
  have now := valid.thread tid
  have entries : w.rob.isEmpty tid = true := by
    rw [ROB.isEmpty, now.entries, none]
    rfl
  refine ⟨if_pos entries, fun other => ⟨(valid.thread other).entries, (valid.thread other).ordered, ?_⟩, valid.counted⟩
  cases (valid.thread other).phase with
  | done done it => exact .done done it
  | squashing done ordered k sweep =>
    have busy : other ≠ tid := fun is => by
      have length := sweep.length
      subst is
      rw [none] at length
      exact absurd sweep.inside (by rw [← length]; exact Nat.not_lt_zero k)
    have same : w.squashBefore tid other = w.before other := by
      rw [squashBefore]
      split
      next => exact Function.update_of_ne busy ..
      next => rfl
    show Phase _ (w.squashBefore tid other)
    rw [same]
    exact .squashing done ordered k sweep

/-- **Every action** that is allowed keeps the invariant, unless an instruction does not fit. -/
theorem act_valid (wide : 1 ≤ settings.squashWidth) (valid : w.Valid settings) {action : ROBAction}
    (allowed : w.Allowed settings action) :
    (∃ tid inst, action = .insertInst tid inst ∧ w.act settings action = .error .full) ∨
      ∃ next, w.act settings action = .ok next ∧ next.Valid settings ∧ Taken w action next := by
  cases action with
  | insertInst tid inst =>
    rcases insertInst_valid valid allowed with full | ⟨rob, t, call, threads, done, valid'⟩
    · exact Or.inl ⟨tid, inst, rfl, by rw [act, full]; rfl⟩
    · refine Or.inr ⟨⟨rob, w.before⟩, by rw [act, call]; rfl, valid', .of_thread (fun other ne => ?_) nofun ?_⟩
      · exact (congrFun threads other).trans (thread_setThread_of_ne _ _ (Ne.symm ne))
      · rintro _ rfl
        show remaining (rob.thread tid) ≤ _
        rw [threads, thread_setThread, remaining_done done]
        exact Nat.zero_le _
  | retireHead tid =>
    obtain ⟨rob, t, inst, call, threads, done, valid'⟩ := retireHead_valid valid allowed
    refine Or.inr ⟨⟨rob, w.before⟩, by rw [act, call]; rfl, valid', .of_thread (fun other ne => ?_) nofun ?_⟩
    · exact (congrFun threads other).trans (thread_setThread_of_ne _ _ (Ne.symm ne))
    · rintro _ rfl
      show remaining (rob.thread tid) ≤ _
      rw [threads, thread_setThread, remaining_done done]
      exact Nat.zero_le _
  | squash squashNum tid =>
    by_cases none : (w.thread tid).instList = []
    · obtain ⟨call, valid'⟩ := squash_empty valid squashNum none
      refine Or.inr ⟨⟨w.rob, w.squashBefore tid⟩, by rw [act, call]; rfl, valid', .of_thread (fun _ _ => rfl) ?_ ?_⟩
      · rintro _ ⟨rfl, some'⟩
        exact some' none
      · exact fun _ _ => Nat.le_refl _
    · obtain ⟨ordered, length, next, k, call, swept⟩ := squash_swept valid wide allowed none
      have before : ∀ other, other ≠ tid → w.squashBefore tid other = w.before other := fun other ne => by
        rw [squashBefore]
        split
        next => exact Function.update_of_ne ne ..
        next => rfl
      refine Or.inr ⟨⟨next, w.squashBefore tid⟩, by rw [act, call]; rfl,
        swept.valid valid allowed.1 rfl rfl ordered length before, fun other ne => swept.others (Ne.symm ne), ?_, ?_⟩
      · rintro _ ⟨rfl, -⟩ done
        exact swept.exact rfl done
      · intro other no
        have ne : other ≠ tid := fun is => no squashNum (by rw [is])
        show remaining (next.thread other) + _ ≤ _
        rw [swept.others ne, List.count_singleton, if_neg (by simp)]
        exact Nat.le_refl _
  | doSquash tid =>
    obtain ⟨inside, busy⟩ := allowed
    have now := valid.thread tid
    cases now.phase with
    | done done => rw [busy] at done; cases done
    | squashing done ordered k sweep =>
      obtain ⟨next, call, swept⟩ := doSquash_swept wide ordered sweep
      refine Or.inr ⟨⟨next, w.before⟩, by rw [act, call]; rfl,
        swept.valid valid inside busy rfl ordered sweep.length.symm (fun _ _ => rfl),
        fun other ne => swept.others (Ne.symm ne), ?_, fun other _ => ?_⟩
      · rintro _ rfl done
        exact swept.exact busy done
      · show remaining (next.thread other) + _ ≤ _
        by_cases is : other = tid
        · subst is
          rw [List.count_singleton_self, remaining_sweep busy sweep]
          exact swept.remaining_lt busy
        · rw [swept.others is, List.count_singleton, if_neg (by simpa using fun same => is same.symm)]
          exact Nat.le_refl _
  | markCompleted seqNum tid =>
    refine Or.inr ⟨_, rfl, markCompleted_valid valid seqNum allowed, .of_thread (fun other ne => ?_) nofun ?_⟩
    · exact thread_setThread_of_ne _ _ (Ne.symm ne)
    · rintro _ rfl
      show remaining ((w.rob.setThread tid _).thread tid) ≤ _
      rw [thread_setThread]
      exact Nat.le_refl _
  | activate threads =>
    exact Or.inr ⟨_, rfl, ⟨valid.thread, valid.counted⟩, .of_thread (fun _ _ => rfl) nofun nofun⟩

theorem remaining_le (valid : w.Valid settings) (tid : ThreadID) :
    remaining (w.thread tid) ≤ (w.thread tid).instList.length := by
  cases (valid.thread tid).phase with
  | done done => exact remaining_done done ▸ Nat.zero_le _
  | squashing busy ordered k sweep =>
    rw [remaining_sweep busy sweep, sweep.length]
    exact sweep.inside

theorem done_of_remaining (valid : w.Valid settings) (none : remaining (w.thread tid) = 0) :
    (w.thread tid).doneSquashing := by
  cases (valid.thread tid).phase with
  | done done => exact done
  | squashing busy ordered k sweep =>
    rw [remaining_sweep busy sweep] at none
    cases none

theorem tryAct_valid (wide : 1 ≤ settings.squashWidth) (w : Watched) (action : ROBAction) (next : Watched)
    (allowed : w.Allowed settings action) (taken : w.tryAct settings action = some next) (valid : w.Valid settings) :
    next.Valid settings ∧ Taken w action next := by
  have call := ok_of_toOption taken
  rcases act_valid wide valid allowed with ⟨-, -, -, full⟩ | ⟨next', call', valid', effect⟩
  · exact absurd (full.symm.trans call) nofun
  · obtain rfl := Except.ok.inj (call'.symm.trans call)
    exact ⟨valid', effect⟩

/-- **The cycles of a run** without another squash of the thread. -/
theorem remaining_run (wide : 1 ≤ settings.squashWidth) {more : List ROBAction} {last : Watched} (valid : w.Valid settings)
    (no : ∀ squashNum, .squash squashNum tid ∉ more) (all : MeetAll (tryAct settings) (Allowed settings) w more)
    (run : tryActions (tryAct settings) w more = some last) :
    last.Valid settings ∧ remaining (last.thread tid) + more.count (.doSquash tid) ≤ remaining (w.thread tid) := by
  induction more generalizing w with
  | nil =>
    cases run
    exact ⟨valid, Nat.le_refl _⟩
  | cons action rest ih =>
    obtain ⟨next, taken, onward⟩ := tryActions_cons run
    obtain ⟨valid', effect⟩ := tryAct_valid wide w action next all.1 taken valid
    have here := effect.remains tid fun squashNum is => no squashNum (is ▸ List.mem_cons_self)
    obtain ⟨reached, later⟩ := ih valid' (fun squashNum mem => no squashNum (List.mem_cons_of_mem _ mem))
      (all.tail taken) onward
    refine ⟨reached, ?_⟩
    rw [show action :: rest = [action] ++ rest from rfl, List.count_append]
    omega

/-- **Squashing is exact**: in every state that a run reaches the counters are those of the lists; no call dereferences
an end, and none fails but an insertion into a full buffer; the squash that ends has marked the younger instructions
and no other; and it ends after as many cycles as there are instructions, if not before. -/
theorem squash_exact (wide : 1 ≤ settings.squashWidth) {actions : List ROBAction} {final : Watched}
    (all : MeetAll (tryAct settings) (Allowed settings) init actions)
    (run : tryActions (tryAct settings) init actions = some final) :
    (final.rob.numInstsInROB = total settings final.rob ∧
      ∀ tid, (final.thread tid).threadEntries = (final.thread tid).instList.length) ∧
    (∀ action, final.Allowed settings action →
      (∃ tid inst, action = .insertInst tid inst ∧ final.act settings action = .error .full) ∨
      ∃ next, final.act settings action = .ok next ∧ (∀ tid, ¬action.Of tid → next.thread tid = final.thread tid) ∧
        ∀ tid, final.Squashes tid action → (next.thread tid).doneSquashing →
          (next.thread tid).instList = (next.before tid).map (·.squashTo (next.thread tid).squashedSeqNum)) ∧
    ∀ tid more last, (∀ squashNum, .squash squashNum tid ∉ more) →
      MeetAll (tryAct settings) (Allowed settings) final more → tryActions (tryAct settings) final more = some last →
        more.count (.doSquash tid) ≤ (final.thread tid).instList.length ∧
          ((final.thread tid).instList.length ≤ more.count (.doSquash tid) → (last.thread tid).doneSquashing) := by
  have valid : final.Valid settings := all.invariant (Valid settings)
    (fun w action next allowed taken valid => (tryAct_valid wide w action next allowed taken valid).1) run init_valid
  refine ⟨⟨valid.counted, fun tid => (valid.thread tid).entries⟩, fun action allowed => ?_, ?_⟩
  · refine (act_valid wide valid allowed).imp_right fun ⟨next, call, _, effect⟩ => ?_
    exact ⟨next, call, effect.others, effect.exact⟩
  · intro tid more last no all run
    obtain ⟨reached, cycles⟩ := remaining_run wide valid no all run
    have most := remaining_le valid tid
    exact ⟨by omega, fun enough => done_of_remaining reached (by omega)⟩

/-- Three instructions, the younger two of which are to be squashed, one in a cycle. -/
def twoOfThree : List ROBAction :=
  [.insertInst 0 ⟨1, false, false, false, false, false, false⟩, .insertInst 0 ⟨3, false, false, false, false, true, false⟩,
    .insertInst 0 ⟨5, true, false, false, false, false, false⟩, .squash 2 0]

theorem squash_exact_two : ∃ final : Watched, tryActions (tryAct ⟨1, 4, 1⟩) init twoOfThree = some final ∧
    ∃ next, final.act ⟨1, 4, 1⟩ (.doSquash 0) = .ok next ∧ (next.thread 0).doneSquashing ∧
      (next.thread 0).instList = (next.before 0).map (·.squashTo (next.thread 0).squashedSeqNum) := by
  have ends : ((tryActions (tryAct ⟨1, 4, 1⟩) init twoOfThree).bind fun final =>
      if final.Allowed ⟨1, 4, 1⟩ (.doSquash 0) then final.tryAct ⟨1, 4, 1⟩ (.doSquash 0) else none).map
        (fun next => (next.thread 0).doneSquashing) = some true := by decide
  obtain ⟨next, step, done⟩ := Option.map_eq_some_iff.mp ends
  obtain ⟨final, run, step⟩ := Option.bind_eq_some_iff.mp step
  split at step
  next allowed =>
    have call := ok_of_toOption step
    obtain ⟨-, calls, -⟩ := @squash_exact ⟨1, 4, 1⟩ (by decide) twoOfThree final (by decide) run
    rcases calls (.doSquash 0) allowed with ⟨tid, inst, is, -⟩ | ⟨next', call', -, whole⟩
    · cases is
    · obtain rfl := Except.ok.inj (call'.symm.trans call)
      exact ⟨final, run, next', call', done, whole 0 rfl done⟩
  next => cases step

end Watched

end Emas.Gem5

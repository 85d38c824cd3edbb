/-
**Physical registers are conserved.**

Runs of renames, squashes and removals of any number of threads on shared free lists.

* `RenameRun.conserves` — **no register is lost or owned twice, and a squash restores the map**.
-/

import Emas.Lib.PartialRun
import Emas.Lib.Tally
import Mathlib.Data.List.DropRight

namespace Emas.Gem5

/-! ### Register renaming

`DefaultRename` of `cpu/o3/rename_impl.hh` with the rename maps and free lists that it works on: `renameDestRegs`,
`removeFromHistory`, `doSquash`.

* A physical register is known by its class and its number in the class; the maps of a class, its free list and the
  entries of the history for it hold numbers of this class. The class assertions of `setEntry` hold by that.
* An assertion that fails ends the program: such a call has no result. The vector rename mode is never switched.
* Scoreboard, statistics and probe points are not part of the model, nor is the number of pinned writes to complete.
-/

/-- `enum RegClass`. -/
inductive RegClass where
  | intReg | floatReg | vecReg | vecElem | vecPredReg | ccReg | miscReg
  deriving DecidableEq, Repr

instance : Fintype RegClass where
  elems := {.intReg, .floatReg, .vecReg, .vecElem, .vecPredReg, .ccReg, .miscReg}
  complete regClass := by cases regClass <;> decide

/-- `Enums::VecRegRenameMode`. -/
inductive VecMode where
  | full | elem
  deriving DecidableEq, Repr

/-- What the maps are initialised with: the number of registers of each class, the zero register of the integers (all
maps have a zero register of class `IntRegClass`, so only their map can find it), and the mode. -/
structure RenameConfig where
  numRegs : RegClass → Nat
  zeroReg : Nat
  vecMode : VecMode

/-- `class RegId`, by class and flat index. -/
abbrev RegId (cfg : RenameConfig) : Type := Σ regClass : RegClass, Fin (cfg.numRegs regClass)

/-- `struct RenameHistory`, with the numbers of its physical registers in the class of `archReg`. -/
structure RenameHistory (cfg : RenameConfig) where
  instSeqNum : Nat
  archReg : RegId cfg
  newPhysReg : Nat
  prevPhysReg : Nat
  deriving DecidableEq

/-- `class DefaultRename`, with `m_threads` maps and histories (newest entry first) and the free lists they share. -/
structure DefaultRename (cfg : RenameConfig) (threads : Nat) where
  renameMap : Fin threads → RegId cfg → Nat
  freeList : RegClass → List Nat
  historyBuffer : Fin threads → List (RenameHistory cfg)
  numPinnedWrites : RegClass → Nat → Int

namespace DefaultRename

variable {cfg : RenameConfig} {threads : Nat} (s : DefaultRename cfg threads)

/-! ### Maps and free lists -/

/-- The map of a class may be used: the assertions on `vecMode`. -/
def modeAllows (cfg : RenameConfig) : RegClass → Bool
  | .vecReg => cfg.vecMode = .full
  | .vecElem => cfg.vecMode = .elem
  | _ => true

/-- `freeList->addReg( freed_reg )`. -/
def addReg (regClass : RegClass) (freedReg : Nat) : DefaultRename cfg threads :=
  { s with freeList := Function.update s.freeList regClass (s.freeList regClass ++ [freedReg]) }

/-- Maps an architectural register to a physical one. -/
def assign (tid : Fin threads) (archReg : RegId cfg) (physReg : Nat) : DefaultRename cfg threads :=
  { s with renameMap := Function.update s.renameMap tid (Function.update (s.renameMap tid) archReg physReg) }

/-- `setEntry( arch_reg, phys_reg )`. A misc register keeps its mapping, its index. -/
def setEntry (tid : Fin threads) (archReg : RegId cfg) (physReg : Nat) : Option (DefaultRename cfg threads) :=
  if archReg.1 = .miscReg then if physReg = archReg.2 then some s else none
  else if modeAllows cfg archReg.1 then some (s.assign tid archReg physReg) else none

/-- `setNumPinnedWrites( numWrites )` of a physical register. -/
def setNumPinnedWrites (regClass : RegClass) (physReg : Nat) (numWrites : Int) : DefaultRename cfg threads :=
  { s with
    numPinnedWrites :=
      Function.update s.numPinnedWrites regClass (Function.update (s.numPinnedWrites regClass) physReg numWrites) }

/-- `SimpleRenameMap::rename( arch_reg )`: the new and the previous physical register. -/
def simpleRename (tid : Fin threads) (archReg : RegId cfg) (pinnedWrites : Int) :
    Option (DefaultRename cfg threads × Nat × Nat) :=
  let prevReg := s.renameMap tid archReg
  if archReg.1 = .intReg ∧ archReg.2 = cfg.zeroReg then
    if prevReg = cfg.zeroReg then some (s, prevReg, prevReg) else none
  else if 0 < s.numPinnedWrites archReg.1 prevReg then
    -- a pinned register is not renamed
    if pinnedWrites = 0 then
      some (s.setNumPinnedWrites archReg.1 prevReg (s.numPinnedWrites archReg.1 prevReg - 1), prevReg, prevReg)
    else none
  else match s.freeList archReg.1 with
    | [] => none
    | renamedReg :: rest =>
      let popped := { s with freeList := Function.update s.freeList archReg.1 rest }
      some ((popped.assign tid archReg renamedReg).setNumPinnedWrites archReg.1 renamedReg pinnedWrites,
        renamedReg, prevReg)

def rename (tid : Fin threads) (archReg : RegId cfg) (pinnedWrites : Int) :
    Option (DefaultRename cfg threads × Nat × Nat) :=
  if archReg.1 = .miscReg then some (s, archReg.2, archReg.2)
  else if modeAllows cfg archReg.1 then s.simpleRename tid archReg pinnedWrites else none

/-! ### Instructions -/

/-- `renameDestRegs( inst, tid )` of an instruction with the given destination registers and their pinned writes. -/
def renameDestRegs (tid : Fin threads) (seqNum : Nat) :
    List (RegId cfg × Int) → DefaultRename cfg threads → Option (DefaultRename cfg threads)
  | [], s => some s
  | (destReg, pinnedWrites) :: rest, s => do
    let (renamed, newPhysReg, prevPhysReg) ← s.rename tid destReg pinnedWrites
    let hbEntry := ⟨seqNum, destReg, newPhysReg, prevPhysReg⟩
    renameDestRegs tid seqNum rest { renamed with
      historyBuffer := Function.update renamed.historyBuffer tid (hbEntry :: renamed.historyBuffer tid) }

def setHistory (tid : Fin threads) (history : List (RenameHistory cfg)) : DefaultRename cfg threads :=
  { s with historyBuffer := Function.update s.historyBuffer tid history }

/-- What `doSquash` does about one entry. -/
def undo (tid : Fin threads) (entry : RenameHistory cfg) : Option (DefaultRename cfg threads) :=
  if entry.newPhysReg ≠ entry.prevPhysReg then do
    let restored ← s.setEntry tid entry.archReg entry.prevPhysReg
    some (restored.addReg entry.archReg.1 entry.newPhysReg)
  else some s

/-- The loop of `doSquash`, over the history from its begin. -/
def squashLoop (tid : Fin threads) (squashedSeqNum : Nat) :
    List (RenameHistory cfg) → DefaultRename cfg threads → Option (DefaultRename cfg threads)
  | [], s => some (s.setHistory tid [])
  | entry :: rest, s =>
    if squashedSeqNum < entry.instSeqNum then do
      let undone ← s.undo tid entry
      squashLoop tid squashedSeqNum rest undone
    else some (s.setHistory tid (entry :: rest))

def doSquash (squashedSeqNum : Nat) (tid : Fin threads) : Option (DefaultRename cfg threads) :=
  squashLoop tid squashedSeqNum (s.historyBuffer tid) s

/-- What `removeFromHistory` does about one entry. -/
def retire (entry : RenameHistory cfg) : DefaultRename cfg threads :=
  if entry.newPhysReg ≠ entry.prevPhysReg then s.addReg entry.archReg.1 entry.prevPhysReg else s

/-- The loop of `removeFromHistory`, over the history from its end. -/
def removeLoop (tid : Fin threads) (instSeqNum : Nat) :
    List (RenameHistory cfg) → DefaultRename cfg threads → DefaultRename cfg threads
  | [], s => s.setHistory tid []
  | entry :: rest, s =>
    if entry.instSeqNum ≤ instSeqNum then removeLoop tid instSeqNum rest (s.retire entry)
    else s.setHistory tid (entry :: rest).reverse

/-- `removeFromHistory( inst_seq_num, tid )`. Where it returns early, its loop takes no step. -/
def removeFromHistory (instSeqNum : Nat) (tid : Fin threads) : DefaultRename cfg threads :=
  removeLoop tid instSeqNum (s.historyBuffer tid).reverse s

end DefaultRename

namespace DefaultRename

variable {cfg : RenameConfig} {threads : Nat} {s next : DefaultRename cfg threads} {tid : Fin threads}

/-! ### Places -/

/-- The entry gives the register back when it is removed. -/
def Returns (regClass : RegClass) (physReg : Nat) (entry : RenameHistory cfg) : Bool :=
  entry.archReg.1 = regClass ∧ entry.newPhysReg ≠ entry.prevPhysReg ∧ entry.prevPhysReg = physReg

/-- The architectural registers of the threads that are mapped to the physical register. -/
def mapped (s : DefaultRename cfg threads) (regClass : RegClass) (physReg : Nat) : Nat :=
  ∑ tid, ∑ archReg : RegId cfg, if archReg.1 = regClass ∧ s.renameMap tid archReg = physReg then 1 else 0

/-- The entries that will give the register back. -/
def recorded (s : DefaultRename cfg threads) (regClass : RegClass) (physReg : Nat) : Nat :=
  ∑ tid, (s.historyBuffer tid).countP (Returns regClass physReg)

/-- All places of the register. -/
def owners (s : DefaultRename cfg threads) (regClass : RegClass) (physReg : Nat) : Nat :=
  (s.freeList regClass).count physReg + s.mapped regClass physReg + s.recorded regClass physReg

/-- Each of these registers of the class is in one place, and no other one is in any. -/
def Partition (s : DefaultRename cfg threads) (regClass : RegClass) (regs : Finset Nat) : Prop :=
  ∀ physReg, s.owners regClass physReg = if physReg ∈ regs then 1 else 0

theorem mapped_assign (s : DefaultRename cfg threads) (tid : Fin threads) (archReg : RegId cfg) (new : Nat) (regClass : RegClass) (physReg : Nat) :
    (s.assign tid archReg new).mapped regClass physReg +
        (if archReg.1 = regClass ∧ s.renameMap tid archReg = physReg then 1 else 0) =
      s.mapped regClass physReg + if archReg.1 = regClass ∧ new = physReg then 1 else 0 :=
  sum_update_update (fun (reg : RegId cfg) value => if reg.1 = regClass ∧ value = physReg then 1 else 0)
    s.renameMap tid archReg new

theorem recorded_setHistory (s : DefaultRename cfg threads) (tid : Fin threads) (history : List (RenameHistory cfg)) (regClass : RegClass) (physReg : Nat) :
    (s.setHistory tid history).recorded regClass physReg + (s.historyBuffer tid).countP (Returns regClass physReg) =
      s.recorded regClass physReg + history.countP (Returns regClass physReg) :=
  sum_update (fun _ history => history.countP (Returns regClass physReg)) s.historyBuffer tid history

theorem owners_setHistory (s : DefaultRename cfg threads) (tid : Fin threads) (history : List (RenameHistory cfg)) (regClass : RegClass) (physReg : Nat) :
    (s.setHistory tid history).owners regClass physReg + (s.historyBuffer tid).countP (Returns regClass physReg) =
      s.owners regClass physReg + history.countP (Returns regClass physReg) := by
  have entries := recorded_setHistory s tid history regClass physReg
  simp only [owners, show (s.setHistory tid history).freeList = s.freeList from rfl,
    show (s.setHistory tid history).mapped regClass physReg = s.mapped regClass physReg from rfl]
  omega

theorem count_addReg (freed : RegClass) (reg : Nat) (regClass : RegClass) (physReg : Nat) :
    ((s.addReg freed reg).freeList regClass).count physReg =
      (s.freeList regClass).count physReg + if freed = regClass ∧ reg = physReg then 1 else 0 := by
  rw [addReg]
  rcases eq_or_ne regClass freed with rfl | apart
  · simp [List.count_append, List.count_singleton]
  · simp [Function.update_of_ne apart, apart.symm]

theorem owners_addReg (freed : RegClass) (reg : Nat) (regClass : RegClass) (physReg : Nat) :
    (s.addReg freed reg).owners regClass physReg =
      s.owners regClass physReg + if freed = regClass ∧ reg = physReg then 1 else 0 := by
  have listed := count_addReg (s := s) freed reg regClass physReg
  simp only [owners, listed, show (s.addReg freed reg).mapped regClass physReg = s.mapped regClass physReg from rfl,
    show (s.addReg freed reg).recorded regClass physReg = s.recorded regClass physReg from rfl]
  omega

/-! ### Undoing and removing -/

/-- The map before the rename of the entry. -/
def undoMap (entry : RenameHistory cfg) (map : RegId cfg → Nat) : RegId cfg → Nat :=
  if entry.newPhysReg ≠ entry.prevPhysReg then Function.update map entry.archReg entry.prevPhysReg else map

/-- The map behind the undoing of entries, newest first. -/
def undoAll (entries : List (RenameHistory cfg)) (map : RegId cfg → Nat) : RegId cfg → Nat :=
  entries.foldl (fun map entry => undoMap entry map) map

/-- Each entry, newest first, finds in the map what it has put there, and `setEntry` accepts what it puts back. -/
def Linked : (RegId cfg → Nat) → List (RenameHistory cfg) → Prop
  | _, [] => True
  | map, entry :: rest =>
    (entry.newPhysReg ≠ entry.prevPhysReg →
      map entry.archReg = entry.newPhysReg ∧ entry.archReg.1 ≠ .miscReg ∧ modeAllows cfg entry.archReg.1) ∧
    Linked (undoMap entry map) rest

theorem Linked.of_append {map : RegId cfg → Nat} {newer older : List (RenameHistory cfg)}
    (linked : Linked map (newer ++ older)) : Linked map newer := by
  induction newer generalizing map with
  | nil => trivial
  | cons entry rest ih => exact ⟨linked.1, ih linked.2⟩

/-- **What `doSquash` does about one entry.** -/
theorem undo_linked {entry : RenameHistory cfg} {rest : List (RenameHistory cfg)}
    (linked : Linked (s.renameMap tid) (entry :: rest)) :
    ∃ next, s.undo tid entry = some next ∧
      next.renameMap = Function.update s.renameMap tid (undoMap entry (s.renameMap tid)) ∧
      next.historyBuffer = s.historyBuffer ∧ ∀ regClass physReg, next.owners regClass physReg =
        s.owners regClass physReg + if Returns regClass physReg entry then 1 else 0 := by
  by_cases real : entry.newPhysReg ≠ entry.prevPhysReg
  · obtain ⟨put, renamed, allowed⟩ := linked.1 real
    refine ⟨(s.assign tid entry.archReg entry.prevPhysReg).addReg entry.archReg.1 entry.newPhysReg, ?_, ?_, rfl, ?_⟩
    · rw [undo, if_pos real, setEntry, if_neg renamed, if_pos allowed]
      rfl
    · rw [undoMap, if_pos real]
      rfl
    · intro regClass physReg
      have mapping := mapped_assign s tid entry.archReg entry.prevPhysReg regClass physReg
      rw [put] at mapping
      rw [owners_addReg, owners, owners]
      simp only [show (s.assign tid entry.archReg entry.prevPhysReg).freeList = s.freeList from rfl, Returns, real,
        show (s.assign tid entry.archReg entry.prevPhysReg).recorded regClass physReg = s.recorded regClass physReg
          from rfl, ne_eq, not_false_eq_true, true_and, decide_eq_true_eq]
      omega
  · refine ⟨s, by rw [undo, if_neg real], ?_, rfl, fun regClass physReg => ?_⟩
    · rw [undoMap, if_neg real, Function.update_eq_self]
    · simp [Returns, real]

/-- **`doSquash` undoes the entries above the number from the begin of the history.** -/
theorem squashLoop_linked (squashed : Nat) {entries : List (RenameHistory cfg)}
    (linked : Linked (s.renameMap tid) entries) :
    ∃ next, squashLoop tid squashed entries s = some next ∧
      next.renameMap = Function.update s.renameMap tid
        (undoAll (entries.takeWhile (squashed < ·.instSeqNum)) (s.renameMap tid)) ∧
      next.historyBuffer = Function.update s.historyBuffer tid (entries.dropWhile (squashed < ·.instSeqNum)) ∧
      Linked (next.renameMap tid) (next.historyBuffer tid) ∧
      ∀ regClass physReg, next.owners regClass physReg + (s.historyBuffer tid).countP (Returns regClass physReg) =
        s.owners regClass physReg + entries.countP (Returns regClass physReg) := by
  induction entries generalizing s with
  | nil =>
    refine ⟨s.setHistory tid [], rfl, by simp [undoAll, setHistory], rfl, ?_, fun regClass physReg => ?_⟩
    · simp [setHistory, Linked]
    · exact owners_setHistory _ _ [] regClass physReg
  | cons entry rest ih =>
    by_cases above : squashed < entry.instSeqNum
    · obtain ⟨undone, done, map, history, places⟩ := undo_linked linked
      have linkedRest : Linked (undone.renameMap tid) rest := by
        rw [map, Function.update_self]
        exact linked.2
      obtain ⟨next, looped, mapNext, historyNext, linkedNext, placesNext⟩ := ih linkedRest
      refine ⟨next, ?_, ?_, ?_, linkedNext, fun regClass physReg => ?_⟩
      · rw [squashLoop, if_pos above, done]
        exact looped
      · rw [mapNext, map, Function.update_self, Function.update_idem, List.takeWhile_cons_of_pos (by simpa using above)]
        rfl
      · rw [historyNext, history, List.dropWhile_cons_of_pos (by simpa using above)]
      · have counted := placesNext regClass physReg
        rw [history, places] at counted
        rw [List.countP_cons]
        omega
    · refine ⟨s.setHistory tid (entry :: rest), by rw [squashLoop, if_neg above], ?_, ?_, ?_, fun regClass physReg => ?_⟩
      · rw [List.takeWhile_cons_of_neg (by simpa using above)]
        simp [undoAll, setHistory]
      · rw [List.dropWhile_cons_of_neg (by simpa using above)]
        rfl
      · rw [setHistory]
        simpa using linked
      · exact owners_setHistory _ _ _ regClass physReg

theorem retire_eq (entry : RenameHistory cfg) :
    (s.retire entry).renameMap = s.renameMap ∧ (s.retire entry).historyBuffer = s.historyBuffer ∧
      ∀ regClass physReg, (s.retire entry).owners regClass physReg =
        s.owners regClass physReg + if Returns regClass physReg entry then 1 else 0 := by
  rw [retire]
  split
  next real =>
    refine ⟨rfl, rfl, fun regClass physReg => ?_⟩
    rw [owners_addReg]
    simp [Returns, real]
  next noChange =>
    exact ⟨rfl, rfl, fun regClass physReg => by simp [Returns, noChange]⟩

/-- **`removeFromHistory` removes the entries up to the number from the end of the history.** -/
theorem removeLoop_eq (s : DefaultRename cfg threads) (tid : Fin threads) (removed : Nat)
    (entries : List (RenameHistory cfg)) :
    (removeLoop tid removed entries s).renameMap = s.renameMap ∧
      (removeLoop tid removed entries s).historyBuffer =
        Function.update s.historyBuffer tid (entries.dropWhile (·.instSeqNum ≤ removed)).reverse ∧
      ∀ regClass physReg, (removeLoop tid removed entries s).owners regClass physReg +
          (s.historyBuffer tid).countP (Returns regClass physReg) =
        s.owners regClass physReg + entries.countP (Returns regClass physReg) := by
  induction entries generalizing s with
  | nil => exact ⟨rfl, rfl, fun regClass physReg => owners_setHistory _ _ [] regClass physReg⟩
  | cons entry rest ih =>
    rw [removeLoop]
    split
    next below =>
      obtain ⟨map, history, places⟩ := retire_eq (s := s) entry
      obtain ⟨mapNext, historyNext, placesNext⟩ := ih (s := s.retire entry)
      refine ⟨mapNext.trans map, ?_, fun regClass physReg => ?_⟩
      · rw [historyNext, history, List.dropWhile_cons_of_pos (by simpa using below)]
      · have counted := placesNext regClass physReg
        rw [history, places] at counted
        rw [List.countP_cons]
        omega
    next above =>
      refine ⟨rfl, ?_, fun regClass physReg => ?_⟩
      · rw [List.dropWhile_cons_of_neg (by simpa using above)]
        rfl
      · have places := owners_setHistory s tid (entry :: rest).reverse regClass physReg
        rwa [List.countP_reverse] at places

/-! ### Renaming -/

variable {archReg : RegId cfg} {pinnedWrites : Int} {newReg prevReg : Nat}

theorem rename_some
    (done : s.rename tid archReg pinnedWrites = some (next, newReg, prevReg)) : next.historyBuffer = s.historyBuffer ∧
    ((newReg = prevReg ∧ next.renameMap = s.renameMap ∧ next.freeList = s.freeList) ∨
      (archReg.1 ≠ .miscReg ∧ modeAllows cfg archReg.1 ∧ prevReg = s.renameMap tid archReg ∧
        ∃ rest, s.freeList archReg.1 = newReg :: rest ∧ next.freeList = Function.update s.freeList archReg.1 rest ∧
          next.renameMap = Function.update s.renameMap tid (Function.update (s.renameMap tid) archReg newReg))) := by
  rw [rename] at done
  split at done
  next =>
    cases done
    exact ⟨rfl, .inl ⟨rfl, rfl, rfl⟩⟩
  next renamed =>
    split at done
    next allowed =>
      simp only [simpleRename] at done
      split_ifs at done
      · cases done
        exact ⟨rfl, .inl ⟨rfl, rfl, rfl⟩⟩
      · cases done
        exact ⟨rfl, .inl ⟨rfl, rfl, rfl⟩⟩
      · cases free : s.freeList archReg.1 with
        | nil =>
          rw [free] at done
          exact nomatch done
        | cons first rest =>
          rw [free] at done
          cases done
          exact ⟨rfl, .inr ⟨renamed, allowed, rfl, rest, rfl, rfl, rfl⟩⟩
    next => exact nomatch done

/-- Puts an entry in front of the history. -/
def record (s : DefaultRename cfg threads) (tid : Fin threads) (entry : RenameHistory cfg) : DefaultRename cfg threads :=
  s.setHistory tid (entry :: s.historyBuffer tid)

/-- **A rename moves three registers on**: from the free list to the map, and from the map to the history. -/
theorem owners_rename (seqNum : Nat)
    (done : s.rename tid archReg pinnedWrites = some (next, newReg, prevReg)) {regClass : RegClass}
    (single : ∀ physReg, s.owners regClass physReg ≤ 1) (physReg : Nat) :
    (next.record tid ⟨seqNum, archReg, newReg, prevReg⟩).owners regClass physReg = s.owners regClass physReg := by
  have entries := owners_setHistory next tid
    (⟨seqNum, archReg, newReg, prevReg⟩ :: next.historyBuffer tid) regClass physReg
  rw [List.countP_cons] at entries
  have recorded : next.recorded regClass physReg = s.recorded regClass physReg := by
    rw [DefaultRename.recorded, (rename_some done).1]
    rfl
  have before : s.owners regClass physReg =
      (s.freeList regClass).count physReg + s.mapped regClass physReg + s.recorded regClass physReg := rfl
  have places : next.owners regClass physReg =
      (next.freeList regClass).count physReg + next.mapped regClass physReg + s.recorded regClass physReg := by
    rw [owners, recorded]
  rcases (rename_some done).2 with ⟨rfl, map, free⟩ | ⟨-, -, prev, rest, free, popped, map⟩
  · have mappedNext : next.mapped regClass physReg = s.mapped regClass physReg := by
      rw [mapped, map]
      rfl
    rw [free, mappedNext] at places
    simp only [Returns, ne_eq, not_true_eq_false, false_and, and_false, decide_false, Bool.false_eq_true,
      if_false] at entries
    rw [record]
    omega
  · have mapping := mapped_assign s tid archReg newReg regClass physReg
    have mappedNext : next.mapped regClass physReg = (s.assign tid archReg newReg).mapped regClass physReg := by
      rw [mapped, map]
      rfl
    rw [← mappedNext, ← prev] at mapping
    rw [record]
    rcases eq_or_ne archReg.1 regClass with rfl | other
    · -- a register that is free is not the one that is mapped, which would have two places
      have differs : newReg ≠ prevReg := by
        rintro rfl
        have once := single newReg
        have mappedTo := mapped_assign s tid archReg (newReg + 1) archReg.1 newReg
        rw [if_pos ⟨rfl, prev.symm⟩, if_neg (by simp)] at mappedTo
        rw [owners, free, List.count_cons_self] at once
        omega
      have listed : (s.freeList archReg.1).count physReg =
          (next.freeList archReg.1).count physReg + if newReg = physReg then 1 else 0 := by
        rw [popped, free, Function.update_self, List.count_cons]
        simp
      simp only [Returns, true_and, ne_eq, differs, not_false_eq_true, decide_eq_true_eq] at entries mapping
      rw [listed] at before
      omega
    · have listed : next.freeList regClass = s.freeList regClass := by rw [popped, Function.update_of_ne other.symm]
      simp only [Returns, other, false_and, decide_false, Bool.false_eq_true, if_false] at entries mapping
      rw [listed] at places
      omega

/-- **A rename is undone by its entry.** -/
theorem undoMap_rename (seqNum : Nat) (done : s.rename tid archReg pinnedWrites = some (next, newReg, prevReg)) :
    undoMap ⟨seqNum, archReg, newReg, prevReg⟩ (next.renameMap tid) = s.renameMap tid ∧
    (newReg ≠ prevReg → next.renameMap tid archReg = newReg ∧ archReg.1 ≠ .miscReg ∧ modeAllows cfg archReg.1) ∧
    ∀ other, other ≠ tid → next.renameMap other = s.renameMap other := by
  rcases (rename_some done).2 with ⟨same, map, -⟩ | ⟨renamed, allowed, prev, rest, -, -, map⟩
  · refine ⟨?_, fun differs => absurd same differs, fun other _ => by rw [map]⟩
    rw [undoMap, if_neg (not_not_intro same), map]
  · have here : next.renameMap tid = Function.update (s.renameMap tid) archReg newReg := by
      rw [map, Function.update_self]
    refine ⟨?_, fun _ => ⟨by rw [here, Function.update_self], renamed, allowed⟩, fun other apart => ?_⟩
    · rw [undoMap, here]
      split
      next => rw [Function.update_idem, prev, Function.update_eq_self]
      next same =>
        dsimp only at same
        rw [not_not.mp same, prev, Function.update_eq_self]
    · rw [map, Function.update_of_ne apart]

/-- What the renames of an instruction do: the new entries have its number, undoing them gives the map from before, and
no register changes the number of its places. -/
structure Renames (s next : DefaultRename cfg threads) (tid : Fin threads) (seqNum : Nat)
    (entries : List (RenameHistory cfg)) : Prop where
  numbers : ∀ entry ∈ entries, entry.instSeqNum = seqNum
  history : next.historyBuffer = Function.update s.historyBuffer tid (entries ++ s.historyBuffer tid)
  undone : undoAll entries (next.renameMap tid) = s.renameMap tid
  others : ∀ other, other ≠ tid → next.renameMap other = s.renameMap other
  linked : Linked (s.renameMap tid) (s.historyBuffer tid) → Linked (next.renameMap tid) (next.historyBuffer tid)
  places : ∀ regClass, (∀ physReg, s.owners regClass physReg ≤ 1) →
    ∀ physReg, next.owners regClass physReg = s.owners regClass physReg

theorem renameDestRegs_some {seqNum : Nat} {dests : List (RegId cfg × Int)}
    (done : renameDestRegs tid seqNum dests s = some next) : ∃ entries, Renames s next tid seqNum entries := by
  induction dests generalizing s with
  | nil =>
    cases done
    exact ⟨[], List.forall_mem_nil _, (Function.update_eq_self _ _).symm, rfl, fun _ _ => rfl, id, fun _ _ _ => rfl⟩
  | cons dest rest ih =>
    obtain ⟨archReg, pinnedWrites⟩ := dest
    obtain ⟨⟨renamed, newReg, prevReg⟩, called, onward⟩ := Option.bind_eq_some_iff.mp done
    obtain ⟨entries, more⟩ := ih (s := renamed.record tid ⟨seqNum, archReg, newReg, prevReg⟩) onward
    obtain ⟨back, put, others⟩ := undoMap_rename seqNum called
    have pushed : (renamed.record tid ⟨seqNum, archReg, newReg, prevReg⟩).historyBuffer =
        Function.update s.historyBuffer tid (⟨seqNum, archReg, newReg, prevReg⟩ :: s.historyBuffer tid) := by
      rw [← (rename_some called).1]
      rfl
    refine ⟨entries ++ [⟨seqNum, archReg, newReg, prevReg⟩], ?_, ?_, ?_, ?_, ?_, ?_⟩
    · intro entry member
      rcases List.mem_append.mp member with new | first
      · exact more.numbers entry new
      · rw [List.mem_singleton.mp first]
    · rw [more.history, pushed, Function.update_self, Function.update_idem, List.append_assoc]
      rfl
    · rw [undoAll, List.foldl_append]
      exact (congrArg (undoMap _) more.undone).trans back
    · exact fun other apart => (more.others other apart).trans (others other apart)
    · intro before
      refine more.linked ?_
      rw [pushed, Function.update_self]
      exact ⟨put, back.symm ▸ before⟩
    · intro regClass single physReg
      have first := owners_rename seqNum called single
      rw [more.places regClass (fun physReg => first physReg ▸ single physReg), first]

/-! ### Going back through the history -/

/-- **The maps after the renames, newest first**: undoing the entries of a rename gives the map after the one before it,
and behind the last of them is the base. -/
def Stacked (base : RegId cfg → Nat) :
    (RegId cfg → Nat) → List (RenameHistory cfg) → List (Nat × (RegId cfg → Nat)) → Prop
  | map, history, [] => history = [] ∧ map = base
  | map, history, (seqNum, after) :: older => map = after ∧ ∃ entries rest, history = entries ++ rest ∧
      (∀ entry ∈ entries, entry.instSeqNum = seqNum) ∧ Stacked base (undoAll entries map) rest older

namespace Stacked

variable {base map : RegId cfg → Nat} {history : List (RenameHistory cfg)} {after : List (Nat × (RegId cfg → Nat))}

theorem numbers (stacked : Stacked base map history after) :
    ∀ entry ∈ history, ∃ rename ∈ after, rename.1 = entry.instSeqNum := by
  induction after generalizing map history with
  | nil =>
    obtain ⟨rfl, -⟩ := stacked
    exact fun _ member => nomatch member
  | cons rename older ih =>
    obtain ⟨-, entries, rest, rfl, numbers, below⟩ := stacked
    intro entry member
    rcases List.mem_append.mp member with new | old
    · exact ⟨rename, List.mem_cons_self .., (numbers entry new).symm⟩
    · obtain ⟨earlier, among, number⟩ := ih below entry old
      exact ⟨earlier, .tail _ among, number⟩

theorem le_of_head {rename : Nat × (RegId cfg → Nat)} {older : List (Nat × (RegId cfg → Nat))} {bound : Nat}
    (stacked : Stacked base map history (rename :: older))
    (sorted : (rename :: older).Pairwise fun newer older => older.1 ≤ newer.1) (head : rename.1 ≤ bound) :
    (∀ entry ∈ history, entry.instSeqNum ≤ bound) ∧ ∀ other ∈ rename :: older, other.1 ≤ bound := by
  have all : ∀ other ∈ rename :: older, other.1 ≤ bound := by
    intro other member
    rcases List.mem_cons.mp member with rfl | old
    · exact head
    · exact ((List.pairwise_cons.mp sorted).1 other old).trans head
  refine ⟨fun entry member => ?_, all⟩
  obtain ⟨other, among, number⟩ := stacked.numbers entry member
  exact number ▸ all other among

/-- **Undoing the entries above a number goes back to the renames up to it.** -/
theorem squash (stacked : Stacked base map history after)
    (sorted : after.Pairwise fun newer older => older.1 ≤ newer.1) (squashed : Nat) :
    Stacked base (undoAll (history.takeWhile (squashed < ·.instSeqNum)) map)
      (history.dropWhile (squashed < ·.instSeqNum)) (after.filter (·.1 ≤ squashed)) := by
  induction after generalizing map history with
  | nil =>
    obtain ⟨rfl, rfl⟩ := stacked
    exact ⟨rfl, rfl⟩
  | cons rename older ih =>
    rcases Nat.lt_or_ge squashed rename.1 with above | below
    · obtain ⟨-, entries, rest, rfl, numbers, onward⟩ := stacked
      have new : ∀ entry ∈ entries, (decide (squashed < entry.instSeqNum)) = true := by
        intro entry member
        rw [numbers entry member]
        exact decide_eq_true above
      rw [List.takeWhile_append_of_pos new, List.dropWhile_append_of_pos new, List.filter_cons_of_neg (by simpa using above),
        undoAll, List.foldl_append]
      exact ih onward (List.pairwise_cons.mp sorted).2
    · obtain ⟨entries, all⟩ := stacked.le_of_head sorted below
      have none : ∀ entry ∈ history, ¬ decide (squashed < entry.instSeqNum) = true := by
        intro entry member
        simpa using entries entry member
      have stays : history.takeWhile (squashed < ·.instSeqNum) = [] ∧
          history.dropWhile (squashed < ·.instSeqNum) = history := by
        cases history with
        | nil => exact ⟨rfl, rfl⟩
        | cons entry rest =>
          have first := none entry (List.mem_cons_self ..)
          exact ⟨List.takeWhile_cons_of_neg first, List.dropWhile_cons_of_neg first⟩
      rw [stays.1, stays.2, List.filter_eq_self.mpr fun other member => decide_eq_true (all other member)]
      exact stacked

/-- **Removing the entries up to a number makes the newest of their renames the base.** -/
theorem remove (stacked : Stacked base map history after)
    (sorted : after.Pairwise fun newer older => older.1 ≤ newer.1) (removed : Nat) :
    Stacked ((after.filter (·.1 ≤ removed)).head?.elim base Prod.snd) map
      (history.rdropWhile (·.instSeqNum ≤ removed)) (after.filter (removed < ·.1)) := by
  induction after generalizing map history with
  | nil =>
    obtain ⟨rfl, rfl⟩ := stacked
    exact ⟨rfl, rfl⟩
  | cons rename older ih =>
    rcases Nat.lt_or_ge removed rename.1 with above | below
    · obtain ⟨here, entries, rest, rfl, numbers, onward⟩ := stacked
      rw [List.filter_cons_of_neg (by simpa using above), List.filter_cons_of_pos (by simpa using above)]
      refine ⟨here, entries, rest.rdropWhile (·.instSeqNum ≤ removed), ?_, numbers, ?_⟩
      · have stay : entries.reverse.dropWhile (·.instSeqNum ≤ removed) = entries.reverse := by
          cases parts : entries.reverse with
          | nil => rfl
          | cons entry others =>
            refine List.dropWhile_cons_of_neg ?_
            have member : entry ∈ entries := List.mem_reverse.mp (parts ▸ List.mem_cons_self ..)
            simpa [numbers entry member] using above
        rw [List.rdropWhile, List.reverse_append, List.dropWhile_append, stay]
        split
        next empty => rw [List.rdropWhile, List.isEmpty_iff.mp empty, List.reverse_reverse, List.reverse_nil, List.append_nil]
        next => rw [List.reverse_append, List.reverse_reverse, List.rdropWhile]
      · exact ih onward (List.pairwise_cons.mp sorted).2
    · obtain ⟨entries, all⟩ := stacked.le_of_head sorted below
      have gone : history.rdropWhile (·.instSeqNum ≤ removed) = [] :=
        List.rdropWhile_eq_nil_iff.mpr fun entry member => decide_eq_true (entries entry member)
      have none : (rename :: older).filter (removed < ·.1) = [] := by
        refine List.filter_eq_nil_iff.mpr fun other member => ?_
        simpa using all other member
      rw [gone, none, List.filter_cons_of_pos (by simpa using below)]
      exact ⟨rfl, stacked.1⟩

end Stacked

end DefaultRename

/-! ### Runs -/

/-- A call of the rename stage, or a change of a counter of pinned writes by another stage. -/
inductive RenameCall (cfg : RenameConfig) (threads : Nat) where
  | renameDestRegs (tid : Fin threads) (seqNum : Nat) (dests : List (RegId cfg × Int))
  | removeFromHistory (instSeqNum : Nat) (tid : Fin threads)
  | doSquash (squashedSeqNum : Nat) (tid : Fin threads)
  | setNumPinnedWrites (regClass : RegClass) (physReg : Nat) (numWrites : Int)

/-- The rename stage, the last numbers that its threads gave to `renameDestRegs` and `removeFromHistory`, and the maps
right after the renames that no squash has undone, newest first: of those in the history, and of those removed from it. -/
structure RenameRun (cfg : RenameConfig) (threads : Nat) where
  state : DefaultRename cfg threads
  lastRenamed : Fin threads → Nat
  lastRemoved : Fin threads → Nat
  kept : Fin threads → List (Nat × (RegId cfg → Nat))
  removed : Fin threads → List (Nat × (RegId cfg → Nat))

namespace RenameRun

variable {cfg : RenameConfig} {threads : Nat} {start : DefaultRename cfg threads} {run next : RenameRun cfg threads}

def init (start : DefaultRename cfg threads) : RenameRun cfg threads :=
  ⟨start, fun _ => 0, fun _ => 0, fun _ => [], fun _ => []⟩

/-- A call. The numbers of a thread do not fall from one `renameDestRegs` to the next, nor from one `removeFromHistory` to
the next. -/
def act (run : RenameRun cfg threads) : RenameCall cfg threads → Option (RenameRun cfg threads)
  | .renameDestRegs tid seqNum dests =>
    if seqNum < run.lastRenamed tid then none
    else (DefaultRename.renameDestRegs tid seqNum dests run.state).map fun next => { run with
      state := next
      lastRenamed := Function.update run.lastRenamed tid seqNum
      kept := Function.update run.kept tid ((seqNum, next.renameMap tid) :: run.kept tid) }
  | .removeFromHistory instSeqNum tid =>
    if instSeqNum < run.lastRemoved tid then none
    else some { run with
      state := run.state.removeFromHistory instSeqNum tid
      lastRemoved := Function.update run.lastRemoved tid instSeqNum
      kept := Function.update run.kept tid ((run.kept tid).filter (instSeqNum < ·.1))
      removed := Function.update run.removed tid ((run.kept tid).filter (·.1 ≤ instSeqNum) ++ run.removed tid) }
  | .doSquash squashedSeqNum tid =>
    (run.state.doSquash squashedSeqNum tid).map fun next => { run with
      state := next
      kept := Function.update run.kept tid ((run.kept tid).filter (·.1 ≤ squashedSeqNum)) }
  | .setNumPinnedWrites regClass physReg numWrites =>
    some { run with state := run.state.setNumPinnedWrites regClass physReg numWrites }

/-- The map after the renames that were removed from the history. -/
def base (start : DefaultRename cfg threads) (run : RenameRun cfg threads) (tid : Fin threads) : RegId cfg → Nat :=
  (run.removed tid).head?.elim (start.renameMap tid) Prod.snd

/-- The map of a thread right after its last rename with a number up to the given one, of those that no squash has
undone; its map at the start if there is none. -/
def mapAt (start : DefaultRename cfg threads) (run : RenameRun cfg threads) (tid : Fin threads) (seqNum : Nat) :
    RegId cfg → Nat :=
  ((run.kept tid ++ run.removed tid).find? (·.1 ≤ seqNum)).elim (start.renameMap tid) Prod.snd

open DefaultRename

/-- What holds of a thread: of its map and history, and of the maps after its renames. -/
structure ThreadInv (base map : RegId cfg → Nat) (history : List (RenameHistory cfg))
    (kept : List (Nat × (RegId cfg → Nat))) (last : Nat) : Prop where
  linked : Linked map history
  stacked : Stacked base map history kept
  sorted : kept.Pairwise fun newer older => older.1 ≤ newer.1
  last : ∀ rename ∈ kept, rename.1 ≤ last

namespace ThreadInv

variable {base map : RegId cfg → Nat} {history : List (RenameHistory cfg)} {kept : List (Nat × (RegId cfg → Nat))}
  {last : Nat}

theorem rename (inv : ThreadInv base map history kept last) {map' : RegId cfg → Nat}
    {entries : List (RenameHistory cfg)} {seqNum : Nat} (order : last ≤ seqNum)
    (numbers : ∀ entry ∈ entries, entry.instSeqNum = seqNum) (undone : undoAll entries map' = map)
    (linked : Linked map' (entries ++ history)) :
    ThreadInv base map' (entries ++ history) ((seqNum, map') :: kept) seqNum := by
  refine ⟨linked, ⟨rfl, entries, history, rfl, numbers, undone ▸ inv.stacked⟩, ?_, fun rename member => ?_⟩
  · exact List.pairwise_cons.mpr ⟨fun older member => (inv.last older member).trans order, inv.sorted⟩
  · rcases List.mem_cons.mp member with rfl | old
    · exact le_rfl
    · exact (inv.last rename old).trans order

theorem remove (inv : ThreadInv base map history kept last) (removed : Nat) :
    ThreadInv ((kept.filter (·.1 ≤ removed)).head?.elim base Prod.snd) map
      (history.rdropWhile (·.instSeqNum ≤ removed)) (kept.filter (removed < ·.1)) last := by
  obtain ⟨gone, parts⟩ := List.rdropWhile_prefix (p := (·.instSeqNum ≤ removed)) (l := history)
  have linked : Linked map (history.rdropWhile (·.instSeqNum ≤ removed) ++ gone) := by
    rw [parts]
    exact inv.linked
  refine ⟨linked.of_append, inv.stacked.remove inv.sorted removed, ?_, ?_⟩
  · exact inv.sorted.filter _
  · exact fun rename member => inv.last rename (List.mem_filter.mp member).1

theorem squash (inv : ThreadInv base map history kept last) {squashed : Nat} {map' : RegId cfg → Nat}
    (undone : map' = undoAll (history.takeWhile (squashed < ·.instSeqNum)) map)
    (linked : Linked map' (history.dropWhile (squashed < ·.instSeqNum))) :
    ThreadInv base map' (history.dropWhile (squashed < ·.instSeqNum)) (kept.filter (·.1 ≤ squashed)) last := by
  refine ⟨linked, undone ▸ inv.stacked.squash inv.sorted squashed, inv.sorted.filter _, ?_⟩
  exact fun rename member => inv.last rename (List.mem_filter.mp member).1

end ThreadInv

/-- What holds after every call. -/
structure Inv (start : DefaultRename cfg threads) (run : RenameRun cfg threads) : Prop where
  thread : ∀ tid, ThreadInv (run.base start tid) (run.state.renameMap tid) (run.state.historyBuffer tid) (run.kept tid)
    (run.lastRenamed tid)
  places : ∀ regClass, (∀ physReg, start.owners regClass physReg ≤ 1) →
    ∀ physReg, run.state.owners regClass physReg = start.owners regClass physReg

theorem inv_init (fresh : ∀ tid, start.historyBuffer tid = []) : Inv start (init start) where
  thread tid := by
    rw [show (init start).state = start from rfl, fresh tid]
    exact ⟨trivial, ⟨rfl, rfl⟩, .nil, List.forall_mem_nil _⟩
  places _ _ _ := rfl

namespace Inv

variable {tid : Fin threads}

theorem renameDestRegs (inv : Inv start run) {seqNum : Nat} {dests : List (RegId cfg × Int)}
    (done : run.act (.renameDestRegs tid seqNum dests) = some next) : Inv start next := by
  rw [act] at done
  split at done
  · exact nomatch done
  next order =>
    obtain ⟨after, called, rfl⟩ := Option.map_eq_some_iff.mp done
    obtain ⟨entries, renames⟩ := renameDestRegs_some called
    refine ⟨fun other => ?_, fun regClass single physReg => ?_⟩
    · dsimp only [RenameRun.base]
      rw [renames.history]
      rcases eq_or_ne other tid with rfl | apart
      · have linked := renames.linked (inv.thread other).linked
        rw [renames.history, Function.update_self] at linked
        rw [Function.update_self, Function.update_self, Function.update_self]
        exact (inv.thread other).rename (Nat.le_of_not_lt order) renames.numbers renames.undone linked
      · rw [Function.update_of_ne apart, Function.update_of_ne apart, Function.update_of_ne apart, renames.others other apart]
        exact inv.thread other
    · have before := inv.places regClass single
      rw [← before]
      exact renames.places regClass (fun physReg => before physReg ▸ single physReg) physReg

theorem removeFromHistory (inv : Inv start run) {instSeqNum : Nat}
    (done : run.act (.removeFromHistory instSeqNum tid) = some next) : Inv start next := by
  rw [act] at done
  split at done
  · exact nomatch done
  next order =>
    obtain rfl := Option.some.inj done
    obtain ⟨map, history, places⟩ := removeLoop_eq run.state tid instSeqNum (run.state.historyBuffer tid).reverse
    refine ⟨fun other => ?_, fun regClass single physReg => ?_⟩
    · dsimp only [RenameRun.base, DefaultRename.removeFromHistory]
      rw [map, history]
      rcases eq_or_ne other tid with rfl | apart
      · rw [Function.update_self, Function.update_self, Function.update_self, List.head?_append]
        have after := (inv.thread other).remove instSeqNum
        cases found : ((run.kept other).filter (·.1 ≤ instSeqNum)).head? with
        | none => exact (by rwa [found] at after)
        | some newest => exact (by rwa [found] at after)
      · rw [Function.update_of_ne apart, Function.update_of_ne apart, Function.update_of_ne apart]
        exact inv.thread other
    · have counted := places regClass physReg
      rw [List.countP_reverse] at counted
      rw [← inv.places regClass single]
      exact Nat.add_right_cancel counted

theorem doSquash (inv : Inv start run) (squashed : Nat) (tid : Fin threads) :
    ∃ after, run.state.doSquash squashed tid = some after ∧
      Inv start { run with
        state := after
        kept := Function.update run.kept tid ((run.kept tid).filter (·.1 ≤ squashed)) } := by
  obtain ⟨after, called, map, history, linked, places⟩ :=
    squashLoop_linked squashed (inv.thread tid).linked
  refine ⟨after, called, fun other => ?_, fun regClass single physReg => ?_⟩
  · dsimp only [RenameRun.base]
    rcases eq_or_ne other tid with rfl | apart
    · rw [history, Function.update_self] at linked
      rw [history, Function.update_self, Function.update_self]
      exact (inv.thread other).squash (by rw [map, Function.update_self]) linked
    · rw [history, map, Function.update_of_ne apart, Function.update_of_ne apart, Function.update_of_ne apart]
      exact inv.thread other
  · rw [← inv.places regClass single]
    exact Nat.add_right_cancel (places regClass physReg)

theorem act (inv : Inv start run) {call : RenameCall cfg threads} (done : run.act call = some next) : Inv start next := by
  cases call with
  | renameDestRegs tid seqNum dests => exact inv.renameDestRegs done
  | removeFromHistory instSeqNum tid => exact inv.removeFromHistory done
  | doSquash squashedSeqNum tid =>
    obtain ⟨after, called, rfl⟩ := Option.map_eq_some_iff.mp done
    obtain ⟨after', called', kept⟩ := inv.doSquash squashedSeqNum tid
    obtain rfl := Option.some.inj (called.symm.trans called')
    exact kept
  | setNumPinnedWrites regClass physReg numWrites =>
    obtain rfl := Option.some.inj done
    exact ⟨inv.thread, inv.places⟩

end Inv

/-- **Physical registers are conserved, and a squash restores the map**: from a start where the free list and the maps
of a class partition its registers, every register stays in one place. The map behind a squash is the one after the last
rename up to its number that no squash has undone, if no rename above its number was removed from the history. -/
theorem conserves (start : DefaultRename cfg threads) (fresh : ∀ tid, start.historyBuffer tid = [])
    (calls : List (RenameCall cfg threads)) (reached : tryActions act (init start) calls = some run) :
    (∀ regClass regs, start.Partition regClass regs → run.state.Partition regClass regs) ∧
    ∀ squashed tid, ∃ after, run.state.doSquash squashed tid = some after ∧
      ((∀ rename ∈ run.removed tid, rename.1 ≤ squashed) → after.renameMap tid = run.mapAt start tid squashed) := by
  have inv : Inv start run := tryActions_invariant (Inv start) (fun _ _ _ done inv => inv.act done) reached (inv_init fresh)
  refine ⟨fun regClass regs parts physReg => ?_, fun squashed tid => ?_⟩
  · have single : ∀ physReg, start.owners regClass physReg ≤ 1 := by
      intro physReg
      rw [parts physReg]
      split <;> omega
    rw [inv.places regClass single, parts]
  · obtain ⟨after, called, kept⟩ := inv.doSquash squashed tid
    refine ⟨after, called, fun below => ?_⟩
    have stacked := (kept.thread tid).stacked
    dsimp only [RenameRun.base] at stacked
    rw [Function.update_self] at stacked
    rw [mapAt, List.find?_append, ← List.head?_filter, ← List.head?_filter,
      List.filter_eq_self.mpr fun rename member => decide_eq_true (below rename member)]
    cases found : (run.kept tid).filter (·.1 ≤ squashed) with
    | nil =>
      rw [found] at stacked
      exact stacked.2
    | cons newest older =>
      rw [found] at stacked
      exact stacked.1

/-- One thread with one integer register, and three free physical registers. -/
def oneRegister : RenameConfig := ⟨fun | .intReg => 1 | _ => 0, 31, .full⟩

/-- The register is mapped to the first physical one. -/
def oneMapped : DefaultRename oneRegister 1 :=
  ⟨fun _ _ => 0, fun | .intReg => [1, 2, 3] | _ => [], fun _ => [], fun _ _ => 0⟩

/-- The register, in the maps. -/
def register : RegId oneRegister := ⟨.intReg, ⟨0, by decide⟩⟩

theorem partition_oneMapped : oneMapped.Partition .intReg {0, 1, 2, 3} := by
  intro physReg
  have mapping : oneMapped.mapped .intReg physReg = if 0 = physReg then 1 else 0 := by
    show (∑ _tid : Fin 1, ∑ reg : RegId oneRegister, if reg.1 = .intReg ∧ 0 = physReg then 1 else 0) = _
    by_cases first : 0 = physReg
    · subst first
      decide
    · simp [first]
  have listed : (oneMapped.freeList .intReg).count physReg = [1, 2, 3].count physReg := rfl
  rw [owners, mapping, listed, show oneMapped.recorded .intReg physReg = 0 from rfl]
  simp only [List.count_cons, List.count_nil, beq_iff_eq, Finset.mem_insert, Finset.mem_singleton]
  split_ifs <;> omega

def bothRemoved : List (RenameCall oneRegister 1) :=
  [.renameDestRegs 0 5 [(register, 0)], .renameDestRegs 0 7 [(register, 0)], .removeFromHistory 7 0]

/-- The rule at a run with a squash behind the first of two renames. -/
theorem conserves_squashed : ∃ run, tryActions act (init oneMapped) (bothRemoved.take 2) = some run ∧
    run.state.Partition .intReg {0, 1, 2, 3} ∧
    ∃ after, run.state.doSquash 5 0 = some after ∧ after.renameMap 0 = run.mapAt oneMapped 0 5 := by
  obtain ⟨run, reached⟩ := Option.isSome_iff_exists.mp
    (show (tryActions act (init oneMapped) (bothRemoved.take 2)).isSome by decide +kernel)
  obtain ⟨parts, squash⟩ := conserves oneMapped (fun _ => rfl) (bothRemoved.take 2) reached
  obtain ⟨after, called, restored⟩ := squash 5 0
  refine ⟨run, reached, parts .intReg _ partition_oneMapped, after, called, restored ?_⟩
  have removed : (tryActions act (init oneMapped) (bothRemoved.take 2)).map (fun run => (run.removed 0).length) =
      some 0 := by decide +kernel
  rw [reached] at removed
  have none : run.removed 0 = [] := List.length_eq_zero_iff.mp (Option.some.inj removed)
  exact none ▸ List.forall_mem_nil _

/-- **A squash below a removed rename does not restore the map**: the one after the rename 5 had the register in the first
free physical register, and the squash to 5 leaves it in the second. -/
theorem not_restored : oneMapped.Partition .intReg {0, 1, 2, 3} ∧ ∃ early run after,
    tryActions act (init oneMapped) (bothRemoved.take 1) = some early ∧
    tryActions act (init oneMapped) bothRemoved = some run ∧ run.state.doSquash 5 0 = some after ∧
    after.renameMap 0 ≠ early.state.renameMap 0 := by
  refine ⟨partition_oneMapped, ?_⟩
  have maps : (tryActions act (init oneMapped) (bothRemoved.take 1)).map (fun run => run.state.renameMap 0 register) =
      some 1 := by decide +kernel
  have squashed : ((tryActions act (init oneMapped) bothRemoved).bind fun run =>
      (run.state.doSquash 5 0).map fun after => after.renameMap 0 register) = some 2 := by decide +kernel
  obtain ⟨early, first, one⟩ := Option.map_eq_some_iff.mp maps
  obtain ⟨run, reached, called⟩ := Option.bind_eq_some_iff.mp squashed
  obtain ⟨after, called, two⟩ := Option.map_eq_some_iff.mp called
  refine ⟨early, run, after, first, reached, called, fun same => ?_⟩
  rw [same, one] at two
  exact absurd two (by decide)

end RenameRun

end Emas.Gem5

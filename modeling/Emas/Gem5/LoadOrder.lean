/-
**Loads see program order.**

Loads and stores execute in any order; a load may take its bytes from a store in the queue or from memory, and
a store that executes after a younger load looks for it. What a load has is therefore right for the older
stores that have executed, unless a load at least as old has been recorded (`Settled`).

* `loads_in_program_order`: **an answered load that is older than every recorded one has the bytes of the
  program**.
-/

import Emas.Gem5.LSQUnit
import Emas.Lib.ActionRun
import Mathlib.Data.List.Find
import Mathlib.Tactic.Ring

namespace Emas.Gem5

/-! ### The store of a byte -/

/-- The store has executed, and writes the byte. -/
def SQEntry.writes (store : SQEntry) (addr : Nat) : Bool :=
  decide (store.inst.effAddr ≤ addr) && decide (addr < store.inst.effAddr + store.size)

theorem SQEntry.writes_iff (store : SQEntry) (addr : Nat) : store.writes addr = true ↔
    store.inst.effAddr ≤ addr ∧ addr < store.inst.effAddr + store.size := by
  rw [writes, Bool.and_eq_true, decide_eq_true_eq, decide_eq_true_eq]

/-- The store that a byte comes from, among the executed ones. `lookup_reports`: a forwarded load has all its bytes
from the youngest executed store that touches it, and a load that goes to memory meets none. -/
def youngest (stores : List SQEntry) (addr : Nat) : Option SQEntry :=
  stores.reverse.find? fun store => store.writes addr

/-- The byte that is at an address after the stores. -/
def afterStores (memory : Nat → UInt8) (stores : List SQEntry) (addr : Nat) : UInt8 :=
  match youngest stores addr with
  | some store => store.byte (addr - store.inst.effAddr)
  | none => memory addr

variable {idx : Nat}

section Youngest

variable {stores : List SQEntry} {addr : Nat}

theorem youngest_append (first second : List SQEntry) (addr : Nat) :
    youngest (first ++ second) addr = (youngest second addr).or (youngest first addr) := by
  rw [youngest, List.reverse_append, List.find?_append]
  rfl

theorem youngest_eq_none (misses : ∀ store ∈ stores, store.writes addr = false) : youngest stores addr = none := by
  refine List.find?_eq_none.mpr fun store member => ?_
  rw [misses store (List.mem_reverse.mp member)]
  exact Bool.false_ne_true

theorem youngest_append_left (first : List SQEntry) {second : List SQEntry}
    (misses : ∀ store ∈ second, store.writes addr = false) : youngest (first ++ second) addr = youngest first addr := by
  rw [youngest_append, youngest_eq_none misses]
  rfl

theorem youngest_set {old new : SQEntry} (there : stores[idx]? = some old)
    (before : old.writes addr = false) (after : new.writes addr = false) :
    youngest (stores.set idx new) addr = youngest stores addr := by
  obtain ⟨inside, here⟩ := List.getElem?_eq_some_iff.mp there
  have whole : stores = stores.take idx ++ old :: stores.drop (idx + 1) := by
    rw [← here, ← List.drop_eq_getElem_cons inside, List.take_append_drop]
  have singles : ∀ (entry : SQEntry), entry.writes addr = false →
      youngest (stores.take idx ++ entry :: stores.drop (idx + 1)) addr =
        (youngest (stores.drop (idx + 1)) addr).or (youngest (stores.take idx) addr) := by
    intro entry misses
    rw [List.append_cons, youngest_append, youngest_append_left]
    intro store member
    rw [List.mem_singleton.mp member]
    exact misses
  rw [List.set_eq_take_append_cons_drop, if_pos inside, singles new after]
  conv_rhs => rw [whole]
  exact (singles old before).symm

theorem afterStores_eq (memory : Nat → UInt8) (misses : ∀ store ∈ stores, store.writes addr = false) :
    afterStores memory stores addr = memory addr := by
  rw [afterStores, youngest_eq_none misses]

theorem afterStores_append (memory : Nat → UInt8) (first second : List SQEntry) (addr : Nat) :
    afterStores memory (first ++ second) addr = afterStores (afterStores memory first) second addr := by
  unfold afterStores
  rw [youngest_append]
  cases youngest second addr with
  | some store => rfl
  | none => rfl

theorem afterStores_singleton (memory : Nat → UInt8) (store : SQEntry) (addr : Nat) :
    afterStores memory [store] addr =
      if store.inst.effAddr ≤ addr ∧ addr < store.inst.effAddr + store.size then
        store.byte (addr - store.inst.effAddr) else memory addr := by
  unfold afterStores youngest
  rw [List.reverse_singleton, List.find?_singleton]
  cases hit : store.writes addr with
  | true => exact (if_pos ((store.writes_iff addr).mp hit)).symm
  | false => exact (if_neg fun writes => Bool.eq_false_iff.mp hit ((store.writes_iff addr).mpr writes)).symm

end Youngest

/-! ### Forwarding -/

/-- The load and the store have no byte in common. -/
def Apart (load : LoadInst) (store : SQEntry) : Prop :=
  ∀ i < load.effSize, store.writes (load.effAddr + i) = false

section Lookup

variable {load : LoadInst} {store : SQEntry}

theorem disjoint_of_apart (fits : load.effAddr + load.effSize < 2 ^ 64)
    (fits' : store.inst.effAddr + store.size < 2 ^ 64) (notPart : load.partlyIn store = false) : Apart load store := by
  intro i inside
  rw [Bool.eq_false_iff, Ne, SQEntry.writes_iff]
  rintro ⟨above, below⟩
  have reqE : load.reqE = load.effAddr + load.effSize := Nat.mod_eq_of_lt fits
  have stE : store.stE = store.inst.effAddr + store.size := Nat.mod_eq_of_lt fits'
  have lower : load.effAddr < store.stE := by omega
  have upper : load.reqE > store.inst.effAddr := by omega
  simp [LoadInst.partlyIn, lower, upper] at notPart

/-- What the loop of `read` says about the stores, the youngest of which is the first: a store that is forwarded has all
of the data, and the younger ones have no byte of it; with the memory, no store has. -/
def Lookup.Reports (load : LoadInst) (stores : List SQEntry) : Lookup → Prop
  | .forward store => ∃ younger older, stores = younger ++ store :: older ∧ load.coveredBy store = true ∧
    ∀ other ∈ younger, Apart load other
  | .stall _ => True
  | .memory => ∀ store ∈ stores, Apart load store

theorem Lookup.Reports.cons {stores : List SQEntry} {result : Lookup} (reports : result.Reports load stores)
    (apart : Apart load store) : result.Reports load (store :: stores) := by
  cases result with
  | forward found =>
    obtain ⟨younger, older, rfl, covered, disjoint⟩ := reports
    exact ⟨store :: younger, older, rfl, covered, List.forall_mem_cons.mpr ⟨apart, disjoint⟩⟩
  | stall found => trivial
  | memory => exact List.forall_mem_cons.mpr ⟨apart, reports⟩

theorem lookup_reports (fits : load.effAddr + load.effSize < 2 ^ 64) (stores : List SQEntry)
    (fits' : ∀ store ∈ stores, store.inst.effAddr + store.size < 2 ^ 64) : (lookup load stores).Reports load stores := by
  induction stores with
  | nil => exact nofun
  | cons store older ih =>
    have later : (lookup load older).Reports load older := ih fun other member => fits' other (List.mem_cons_of_mem _ member)
    unfold lookup
    by_cases executed : store.size ≠ 0
    · rw [if_pos executed]
      by_cases covered : load.coveredBy store = true
      · rw [if_pos covered]
        exact ⟨[], older, rfl, covered, nofun⟩
      · rw [if_neg covered]
        by_cases partly : load.partlyIn store = true
        · rw [if_pos partly]
          trivial
        · rw [if_neg partly]
          exact later.cons (disjoint_of_apart fits (fits' store (List.mem_cons_self ..)) (eq_false_of_ne_true partly))
    · rw [if_neg executed]
      refine later.cons fun i inside => ?_
      rw [Bool.eq_false_iff, Ne, SQEntry.writes_iff, not_not.mp executed]
      omega

/-- **A load gets all its bytes** from the youngest store that it meets. -/
theorem afterStores_forwarded {stores : List SQEntry} (memory : Nat → UInt8)
    (fits : load.effAddr + load.effSize < 2 ^ 64) (fits' : store.inst.effAddr + store.size < 2 ^ 64)
    (found : (Lookup.forward store).Reports load stores.reverse) :
    load.forwarded store = (List.range load.effSize).map fun i => afterStores memory stores (load.effAddr + i) := by
  obtain ⟨younger, older, whole, covered, disjoint⟩ := found
  obtain ⟨lower, upper⟩ : load.effAddr ≥ store.inst.effAddr ∧ load.reqE ≤ store.stE := by
    simpa [LoadInst.coveredBy] using covered
  have reqE : load.reqE = load.effAddr + load.effSize := Nat.mod_eq_of_lt fits
  have stE : store.stE = store.inst.effAddr + store.size := Nat.mod_eq_of_lt fits'
  refine List.map_congr_left fun i member => ?_
  have inside : i < load.effSize := List.mem_range.mp member
  have here : youngest stores (load.effAddr + i) = some store := by
    rw [youngest, whole, List.find?_append, List.find?_eq_none.mpr, Option.none_or, List.find?_cons_of_pos]
    · rw [SQEntry.writes_iff]
      omega
    · intro other member
      rw [disjoint other member i inside]
      exact Bool.false_ne_true
  rw [afterStores, here]
  show store.byte _ = store.byte _
  congr 1
  omega

end Lookup

/-! ### Violations -/

variable {load : LQEntry}

section Violations

variable {lsq : LSQUnit} {store : StoreInst}

theorem sameBlock_of_byte {load : LoadInst} {addr : Nat} (fits : load.effAddr + load.effSize < 2 ^ 64)
    (fits' : store.effAddr + store.effSize < 2 ^ 64) (inLoad : load.effAddr ≤ addr ∧ addr < load.effAddr + load.effSize)
    (inStore : store.effAddr ≤ addr ∧ addr < store.effAddr + store.effSize) : lsq.sameBlock store load = true := by
  have last : ∀ {start size : Nat}, start + size < 2 ^ 64 → start ≤ addr → addr < start + size →
      addr ≤ (start + size + (2 ^ 64 - 1)) % 2 ^ 64 := by
    intro start size fits above below
    rw [show start + size + (2 ^ 64 - 1) = start + size - 1 + 2 ^ 64 by omega, Nat.add_mod_right,
      Nat.mod_eq_of_lt (by omega)]
    omega
  have shifted : ∀ {first second : Nat}, first ≤ second → first >>> lsq.depCheckShift ≤ second >>> lsq.depCheckShift := by
    intro first second ordered
    rw [Nat.shiftRight_eq_div_pow, Nat.shiftRight_eq_div_pow]
    exact Nat.div_le_div_right ordered
  unfold LSQUnit.sameBlock
  simp only [Bool.and_eq_true, decide_eq_true_eq]
  exact ⟨shifted (inLoad.1.trans (last fits' inStore.1 inStore.2)), shifted (inStore.1.trans (last fits inLoad.1 inLoad.2))⟩

/-- **A store catches its violators**: if one of the loads has executed and is in its blocks, then a load at least as
old is recorded, or an older one is the violator already. -/
theorem violator_catches {loads : List LQEntry}
    (sorted : loads.Pairwise fun first second => first.inst.seqNum < second.inst.seqNum)
    (member : load ∈ loads) (valid : load.effAddrValid = true) (hit : lsq.sameBlock store load.inst = true) :
    (∃ violator ∈ lsq.violator store loads, violator ≤ load.inst.seqNum) ∨
      ∃ violator ∈ lsq.memDepViolator, violator < load.inst.seqNum := by
  induction loads with
  | nil => cases member
  | cons first younger ih =>
    obtain ⟨before, sorted⟩ := List.pairwise_cons.mp sorted
    have oldest : first.inst.seqNum ≤ load.inst.seqNum := by
      rcases List.mem_cons.mp member with rfl | later
      · exact Nat.le_refl _
      · exact Nat.le_of_lt (before load later)
    have passes : first ≠ load → (∃ violator ∈ lsq.violator store younger, violator ≤ load.inst.seqNum) ∨
        ∃ violator ∈ lsq.memDepViolator, violator < load.inst.seqNum := fun other =>
      ih sorted ((List.mem_cons.mp member).resolve_left (Ne.symm other))
    unfold LSQUnit.violator
    by_cases executed : first.effAddrValid = true
    · rw [executed, Bool.not_true, if_neg Bool.false_ne_true]
      by_cases here : lsq.sameBlock store first.inst = true
      · rw [if_pos here]
        by_cases known : (lsq.memDepViolator.any fun violator => decide (first.inst.seqNum > violator)) = true
        · obtain ⟨violator, is, older⟩ := (Option.any_eq_true ..).mp known
          exact Or.inr ⟨violator, is, (of_decide_eq_true older).trans_le oldest⟩
        · rw [if_neg known]
          exact Or.inl ⟨_, rfl, oldest⟩
      · rw [if_neg here]
        exact passes fun same => here (same ▸ hit)
    · rw [eq_false_of_ne_true executed, Bool.not_false, if_pos rfl]
      exact passes fun same => executed (same ▸ valid)

end Violations

/-! ### The invariant -/

/-- The two queues are in program order, and the iterators of their entries say how. -/
structure Queued (loads : List LoadInst) (stores : List StoreInst) (nextSeqNum : Nat) : Prop where
  sorted : loads.Pairwise fun first second => first.seqNum < second.seqNum
  loadFits : ∀ load ∈ loads, load.effAddr + load.effSize < 2 ^ 64 ∧ load.seqNum < nextSeqNum ∧ load.sqIt ≤ stores.length
  storeFits : ∀ store ∈ stores, store.effAddr + store.effSize < 2 ^ 64 ∧ store.seqNum < nextSeqNum ∧
    store.lqIt ≤ loads.length
  sqIt : ∀ load ∈ loads, ∀ idx store, stores[idx]? = some store → (idx < load.sqIt ↔ store.seqNum < load.seqNum)
  lqIt : ∀ store ∈ stores, ∀ idx load, loads[idx]? = some load → (store.lqIt ≤ idx ↔ store.seqNum < load.seqNum)

variable {effAddr effSize : Nat}

namespace Queued

variable {loads : List LoadInst} {stores : List StoreInst} {nextSeqNum : Nat}

theorem insertLoad (queued : Queued loads stores nextSeqNum) (fits : effAddr + effSize < 2 ^ 64) :
    Queued (loads ++ [⟨nextSeqNum, effAddr, effSize, stores.length⟩]) stores (nextSeqNum + 1) := by
  refine ⟨List.pairwise_append.mpr ⟨queued.sorted, List.pairwise_singleton .., fun load member other new => ?_⟩,
    fun load member => ?_, fun store member => ?_, fun load member idx store there => ?_,
    fun store member idx load there => ?_⟩
  · rw [List.mem_singleton.mp new]
    exact (queued.loadFits load member).2.1
  · rcases List.mem_append.mp member with before | new
    · have := queued.loadFits load before
      exact ⟨this.1, by omega, this.2.2⟩
    · rw [List.mem_singleton.mp new]
      exact ⟨fits, Nat.lt_succ_self _, Nat.le_refl _⟩
  · have := queued.storeFits store member
    rw [List.length_append]
    exact ⟨this.1, by omega, by omega⟩
  · rcases List.mem_append.mp member with before | new
    · exact queued.sqIt load before idx store there
    · rw [List.mem_singleton.mp new]
      obtain ⟨inside, rfl⟩ := List.getElem?_eq_some_iff.mp there
      exact iff_of_true inside (queued.storeFits _ (List.getElem_mem inside)).2.1
  · have lqIt := (queued.storeFits store member)
    rcases Nat.lt_or_ge idx loads.length with inside | beyond
    · rw [List.getElem?_append_left inside] at there
      exact queued.lqIt store member idx load there
    · rw [List.getElem?_append_right beyond, List.getElem?_singleton] at there
      split at there
      · cases there
        exact iff_of_true (by omega) lqIt.2.1
      · cases there

theorem insertStore (queued : Queued loads stores nextSeqNum) (operand : Nat → UInt8)
    (noData : Bool) (fits : effAddr + effSize < 2 ^ 64) :
    Queued loads (stores ++ [⟨nextSeqNum, effAddr, effSize, loads.length, operand, noData⟩]) (nextSeqNum + 1) := by
  refine ⟨queued.sorted, fun load member => ?_, fun store member => ?_, fun load member idx store there => ?_,
    fun store member idx load there => ?_⟩
  · have := queued.loadFits load member
    rw [List.length_append]
    exact ⟨this.1, by omega, by omega⟩
  · rcases List.mem_append.mp member with before | new
    · have := queued.storeFits store before
      exact ⟨this.1, by omega, this.2.2⟩
    · rw [List.mem_singleton.mp new]
      exact ⟨fits, Nat.lt_succ_self _, Nat.le_refl _⟩
  · have sqIt := queued.loadFits load member
    rcases Nat.lt_or_ge idx stores.length with inside | beyond
    · rw [List.getElem?_append_left inside] at there
      exact queued.sqIt load member idx store there
    · rw [List.getElem?_append_right beyond, List.getElem?_singleton] at there
      split at there
      · cases there
        exact iff_of_false (by omega) (Nat.not_lt.mpr (Nat.le_of_lt sqIt.2.1))
      · cases there
  · rcases List.mem_append.mp member with before | new
    · exact queued.lqIt store before idx load there
    · rw [List.mem_singleton.mp new]
      obtain ⟨inside, rfl⟩ := List.getElem?_eq_some_iff.mp there
      exact iff_of_false (Nat.not_le.mpr inside)
        (Nat.not_lt.mpr (Nat.le_of_lt (queued.loadFits _ (List.getElem_mem inside)).2.1))

end Queued

/-- What has been executed of an entry is what the instruction says. -/
structure SQEntry.Kept (store : SQEntry) : Prop where
  executed : store.effAddrValid = true → store.size = store.inst.effSize ∧ store.isAllZeros = store.inst.noData ∧
    store.data = store.inst.operand
  waiting : store.effAddrValid = false → store.size = 0

/-- The bytes of a load as the executed older stores leave them. -/
def LSQUnit.bytesOf (lsq : LSQUnit) (initial : Nat → UInt8) (load : LoadInst) : List UInt8 :=
  (List.range load.effSize).map fun i => afterStores initial (lsq.storeQueue.take load.sqIt) (load.effAddr + i)

/-- A load is right for the older stores that have executed: it has the bytes that they leave, or it is with the memory
and none of those that are not written back has a byte of it. -/
def Settled (initial : Nat → UInt8) (lsq : LSQUnit) (load : LQEntry) : Prop :=
  match load.state with
  | .idle => True
  | .sent => lsq.storeWBIt ≤ load.inst.sqIt ∧
    ∀ store ∈ (lsq.storeQueue.take load.inst.sqIt).drop lsq.storeWBIt, Apart load.inst store
  | .answered memData => memData = lsq.bytesOf initial load.inst

/-- The load has been sent or answered. -/
def LQEntry.executed (load : LQEntry) : Bool :=
  match load.state with
  | .idle => false
  | _ => true

/-- What holds of the queues after every run. -/
structure LsqInv (initial : Nat → UInt8) (lsq : LSQUnit) : Prop where
  queued : Queued (lsq.loadQueue.map LQEntry.inst) (lsq.storeQueue.map SQEntry.inst) lsq.nextSeqNum
  kept : ∀ store ∈ lsq.storeQueue, store.Kept
  written : ∀ idx < lsq.storeWBIt, ∃ store, lsq.storeQueue[idx]? = some store ∧ store.effAddrValid = true
  memory : ∀ addr, lsq.memory addr = afterStores initial (lsq.storeQueue.take lsq.storeWBIt) addr
  violator : ∀ violator ∈ lsq.memDepViolator, violator ∈ lsq.recorded
  valid : ∀ load ∈ lsq.loadQueue, load.executed = true → load.effAddrValid = true
  settled : ∀ load ∈ lsq.loadQueue, (∀ violator ∈ lsq.recorded, load.inst.seqNum < violator) → Settled initial lsq load

variable {store : SQEntry}

namespace LsqInv

variable {initial : Nat → UInt8} {lsq : LSQUnit}

theorem start (depCheckShift : Nat) (initial : Nat → UInt8) : LsqInv initial (.start depCheckShift initial) where
  queued := ⟨.nil, nofun, nofun, nofun, nofun⟩
  kept := nofun
  written := nofun
  memory _ := rfl
  violator := nofun
  valid := nofun
  settled := nofun

theorem storeWBIt_le (inv : LsqInv initial lsq) : lsq.storeWBIt ≤ lsq.storeQueue.length := by
  by_contra beyond
  obtain ⟨store, there, -⟩ := inv.written lsq.storeQueue.length (by omega)
  rw [List.getElem?_eq_none (Nat.le_refl _)] at there
  cases there

theorem fits (inv : LsqInv initial lsq) (member : load ∈ lsq.loadQueue) :
    load.inst.effAddr + load.inst.effSize < 2 ^ 64 ∧ load.inst.seqNum < lsq.nextSeqNum ∧
      load.inst.sqIt ≤ lsq.storeQueue.length := by
  have fits := inv.queued.loadFits load.inst (List.mem_map_of_mem member)
  rwa [List.length_map] at fits

theorem size_le (kept : store.Kept) : store.size ≤ store.inst.effSize := by
  cases executed : store.effAddrValid with
  | true => exact Nat.le_of_eq (kept.executed executed).1
  | false => exact (kept.waiting executed).symm ▸ Nat.zero_le _

theorem store_fits (inv : LsqInv initial lsq) (member : store ∈ lsq.storeQueue) :
    store.inst.effAddr + store.size < 2 ^ 64 := by
  have fits := (inv.queued.storeFits store.inst (List.mem_map_of_mem member)).1
  have small := size_le (inv.kept store member)
  omega

theorem afterStores_inFlight (inv : LsqInv initial lsq) {sqIt : Nat} (ordered : lsq.storeWBIt ≤ sqIt) (addr : Nat) :
    afterStores lsq.memory ((lsq.storeQueue.take sqIt).drop lsq.storeWBIt) addr =
      afterStores initial (lsq.storeQueue.take sqIt) addr := by
  have memory : lsq.memory = afterStores initial (lsq.storeQueue.take lsq.storeWBIt) := funext inv.memory
  rw [memory, ← afterStores_append, ← Nat.min_eq_left ordered, ← List.take_take, Nat.min_eq_left ordered,
    List.take_append_drop]

/-- **What memory answers is right** for a load that no executed store of the queue has a byte of. -/
theorem memory_answers (inv : LsqInv initial lsq) {load : LoadInst} (ordered : lsq.storeWBIt ≤ load.sqIt)
    (apart : ∀ store ∈ (lsq.storeQueue.take load.sqIt).drop lsq.storeWBIt, Apart load store) :
    (List.range load.effSize).map (fun i => lsq.memory (load.effAddr + i)) = lsq.bytesOf initial load := by
  refine List.map_congr_left fun i member => ?_
  have inside : i < load.effSize := List.mem_range.mp member
  rw [← inv.afterStores_inFlight ordered, afterStores_eq _ fun store member => apart store member i inside]

end LsqInv

/-! ### Steps -/

theorem map_set_of_eq {ε ι : Type} {inst : ε → ι} {entries : List ε} {old new : ε}
    (there : entries[idx]? = some old) (same : inst new = inst old) : (entries.set idx new).map inst = entries.map inst := by
  rw [List.map_set, same]
  refine List.ext_getElem? fun other => ?_
  rcases eq_or_ne idx other with rfl | elsewhere
  · have inside : idx < (entries.map inst).length := by
      rw [List.length_map]
      exact (List.getElem?_eq_some_iff.mp there).1
    rw [List.getElem?_set_self inside, List.getElem?_map, there]
    rfl
  · rw [List.getElem?_set_ne elsewhere]

section StoreQueue

variable {initial : Nat → UInt8} {lsq : LSQUnit} {load : LQEntry}

theorem Settled.of_take_eq {storeQueue : List SQEntry}
    (same : storeQueue.take load.inst.sqIt = lsq.storeQueue.take load.inst.sqIt) (settled : Settled initial lsq load) :
    Settled initial { lsq with storeQueue := storeQueue } load := by
  unfold Settled LSQUnit.bytesOf at settled ⊢
  rw [same]
  exact settled

theorem Settled.set {old new : SQEntry} (there : lsq.storeQueue[idx]? = some old)
    (before : Apart load.inst old) (after : Apart load.inst new) (settled : Settled initial lsq load) :
    Settled initial { lsq with storeQueue := lsq.storeQueue.set idx new } load := by
  rcases Nat.lt_or_ge idx load.inst.sqIt with older | younger
  · have there' : (lsq.storeQueue.take load.inst.sqIt)[idx]? = some old := by rwa [List.getElem?_take_of_lt older]
    unfold Settled at settled ⊢
    rcases load with ⟨inst, valid, idle | sent | memData⟩
    · trivial
    · refine ⟨settled.1, fun store member => ?_⟩
      rw [List.take_set, List.drop_set] at member
      split at member
      · exact settled.2 store member
      · rcases List.mem_or_eq_of_mem_set member with kept | rfl
        · exact settled.2 store kept
        · exact after
    · refine Eq.trans settled (List.map_congr_left fun i member => ?_)
      have inside : i < inst.effSize := List.mem_range.mp member
      rw [afterStores, afterStores, List.take_set, youngest_set there' (before i inside) (after i inside)]
  · exact settled.of_take_eq (List.take_set_of_le younger)

end StoreQueue

namespace LsqInv

variable {initial : Nat → UInt8} {lsq : LSQUnit}

theorem insertLoad (inv : LsqInv initial lsq) (fits : effAddr + effSize < 2 ^ 64) :
    LsqInv initial (lsq.insertLoad effAddr effSize) where
  queued := by
    have queued := inv.queued.insertLoad fits
    rw [List.length_map] at queued
    simpa [LSQUnit.insertLoad] using queued
  kept := inv.kept
  written := inv.written
  memory := inv.memory
  violator := inv.violator
  valid load member executed := by
    rcases List.mem_append.mp member with before | new
    · exact inv.valid load before executed
    · rw [List.mem_singleton.mp new] at executed
      cases executed
  settled load member older := by
    rcases List.mem_append.mp member with before | new
    · exact inv.settled load before older
    · rw [List.mem_singleton.mp new]
      trivial

theorem insertStore (inv : LsqInv initial lsq) (operand : Nat → UInt8) (noData : Bool)
    (fits : effAddr + effSize < 2 ^ 64) : LsqInv initial (lsq.insertStore effAddr effSize operand noData) where
  queued := by
    have queued := inv.queued.insertStore operand noData fits
    rw [List.length_map] at queued
    simpa [LSQUnit.insertStore] using queued
  kept store member := by
    rcases List.mem_append.mp member with before | new
    · exact inv.kept store before
    · rw [List.mem_singleton.mp new]
      exact ⟨nofun, fun _ => rfl⟩
  written idx before := by
    obtain ⟨store, there, executed⟩ := inv.written idx before
    have inside : idx < lsq.storeQueue.length := (List.getElem?_eq_some_iff.mp there).1
    exact ⟨store, (List.getElem?_append_left inside).trans there, executed⟩
  memory addr := by
    show lsq.memory addr = afterStores initial ((lsq.storeQueue ++ [_]).take lsq.storeWBIt) addr
    rw [List.take_append_of_le_length inv.storeWBIt_le, inv.memory]
  violator := inv.violator
  valid := inv.valid
  settled load member older :=
    (inv.settled load member older).of_take_eq (List.take_append_of_le_length (inv.fits member).2.2)

theorem setLoad (inv : LsqInv initial lsq) {old new : LQEntry} (there : lsq.loadQueue[idx]? = some old)
    (same : new.inst = old.inst) (valid : new.executed = true → new.effAddrValid = true)
    (settled : (∀ violator ∈ lsq.recorded, new.inst.seqNum < violator) → Settled initial lsq new) :
    LsqInv initial { lsq with loadQueue := lsq.loadQueue.set idx new } where
  queued := by
    rw [map_set_of_eq there same]
    exact inv.queued
  kept := inv.kept
  written := inv.written
  memory := inv.memory
  violator := inv.violator
  valid load member executed := by
    rcases List.mem_or_eq_of_mem_set member with before | rfl
    · exact inv.valid load before executed
    · exact valid executed
  settled load member older := by
    rcases List.mem_or_eq_of_mem_set member with before | rfl
    · exact inv.settled load before older
    · exact settled older

theorem stallOn (inv : LsqInv initial lsq) (load : LoadInst) (loadIdx : Nat) (store : SQEntry) :
    LsqInv initial (lsq.stallOn load loadIdx store) := by
  unfold LSQUnit.stallOn
  split
  · exact ⟨inv.queued, inv.kept, inv.written, inv.memory, inv.violator, inv.valid, inv.settled⟩
  · exact inv

/-- **`read` gives a load what is right**, forwarded or from the memory. -/
theorem executeLoad (inv : LsqInv initial lsq) {loadIdx : Nat} (sent : Bool)
    (there : lsq.loadQueue[loadIdx]? = some load) (ordered : load.inst.sqIt ≥ lsq.storeWBIt) :
    LsqInv initial (lsq.executeLoad loadIdx sent) := by
  have member : load ∈ lsq.loadQueue := List.mem_of_getElem? there
  have fits := (inv.fits member).1
  have fits' : ∀ store ∈ ((lsq.storeQueue.take load.inst.sqIt).drop lsq.storeWBIt).reverse,
      store.inst.effAddr + store.size < 2 ^ 64 := fun store member =>
    inv.store_fits (List.mem_of_mem_take (List.mem_of_mem_drop (List.mem_reverse.mp member)))
  have reports := lookup_reports fits _ fits'
  simp only [LSQUnit.executeLoad, there, LSQUnit.read]
  generalize result : lookup load.inst _ = found at reports ⊢
  cases found with
  | forward store =>
    refine inv.setLoad there rfl (fun _ => rfl) fun _ => ?_
    have met : store ∈ ((lsq.storeQueue.take load.inst.sqIt).drop lsq.storeWBIt).reverse := by
      obtain ⟨younger, older, whole, -⟩ := reports
      rw [whole]
      exact List.mem_append_right _ (List.mem_cons_self ..)
    refine (afterStores_forwarded lsq.memory fits (fits' store met) reports).trans ?_
    exact List.map_congr_left fun i _ => inv.afterStores_inFlight ordered _
  | stall store =>
    have same : (lsq.stallOn load.inst loadIdx store).loadQueue = lsq.loadQueue := by
      unfold LSQUnit.stallOn
      split <;> rfl
    have there' : (lsq.stallOn load.inst loadIdx store).loadQueue[loadIdx]? = some load := same.symm ▸ there
    exact (inv.stallOn load.inst loadIdx store).setLoad there' rfl nofun fun _ => trivial
  | memory =>
    cases sent with
    | false => exact inv.setLoad there rfl nofun fun _ => trivial
    | true =>
      refine inv.setLoad there rfl (fun _ => rfl) fun _ => ⟨ordered, fun store member => ?_⟩
      exact reports store (List.mem_reverse.mpr member)

theorem respond (inv : LsqInv initial lsq) {loadIdx : Nat}
    (there : lsq.loadQueue[loadIdx]? = some load) (sent : load.state = .sent) :
    LsqInv initial (lsq.respond loadIdx) := by
  have member : load ∈ lsq.loadQueue := List.mem_of_getElem? there
  have executed : load.executed = true := by
    unfold LQEntry.executed
    rw [sent]
  simp only [LSQUnit.respond, there]
  refine inv.setLoad there rfl (fun _ => inv.valid load member executed) fun older => ?_
  have settled := inv.settled load member older
  unfold Settled at settled
  rw [sent] at settled
  exact inv.memory_answers settled.1 settled.2

theorem write_kept (store : SQEntry) : store.write.Kept := ⟨fun _ => ⟨rfl, rfl, rfl⟩, nofun⟩

theorem checkViolations_eq (lsq : LSQUnit) (store : StoreInst) :
    lsq.checkViolations store = lsq ∧ lsq.violator store (lsq.loadQueue.drop store.lqIt) = none ∨
      ∃ load, lsq.violator store (lsq.loadQueue.drop store.lqIt) = some load ∧
        lsq.checkViolations store = { lsq with memDepViolator := some load, recorded := load :: lsq.recorded } := by
  unfold LSQUnit.checkViolations
  cases found : lsq.violator store (lsq.loadQueue.drop store.lqIt) with
  | none => exact Or.inl ⟨rfl, rfl⟩
  | some load => exact Or.inr ⟨load, rfl, rfl⟩

theorem setStore (inv : LsqInv initial lsq) {storeIdx : Nat} (memDepViolator : Option Nat)
    (recorded : List Nat) (there : lsq.storeQueue[storeIdx]? = some store) (waiting : store.effAddrValid = false)
    (violator : ∀ violator ∈ memDepViolator, violator ∈ recorded) (more : ∀ violator ∈ lsq.recorded, violator ∈ recorded)
    (caught : ∀ load ∈ lsq.loadQueue, load.executed = true → storeIdx < load.inst.sqIt →
      (∀ violator ∈ recorded, load.inst.seqNum < violator) → Apart load.inst store.write) :
    LsqInv initial { lsq with
      storeQueue := lsq.storeQueue.set storeIdx store.write
      memDepViolator := memDepViolator
      recorded := recorded } where
  queued := by
    rw [map_set_of_eq there (show store.write.inst = store.inst from rfl)]
    exact inv.queued
  kept other member := by
    rcases List.mem_or_eq_of_mem_set member with before | rfl
    · exact inv.kept other before
    · exact write_kept store
  written idx before := by
    obtain ⟨other, there', executed⟩ := inv.written idx before
    refine ⟨other, ?_, executed⟩
    rw [List.getElem?_set_ne, there']
    rintro rfl
    rw [there] at there'
    cases there'
    rw [waiting] at executed
    cases executed
  memory addr := by
    have beyond : lsq.storeWBIt ≤ storeIdx := by
      by_contra before
      obtain ⟨other, there', executed⟩ := inv.written storeIdx (by omega)
      rw [there] at there'
      cases there'
      rw [waiting] at executed
      cases executed
    rw [List.take_set_of_le beyond]
    exact inv.memory addr
  violator := violator
  valid := inv.valid
  settled load member older := by
    have settled := inv.settled load member fun violator known => older violator (more violator known)
    have before : Apart load.inst store := by
      intro i inside
      rw [Bool.eq_false_iff, Ne, SQEntry.writes_iff, (inv.kept store (List.mem_of_getElem? there)).waiting waiting]
      omega
    rcases Nat.lt_or_ge storeIdx load.inst.sqIt with earlier | later
    · cases executed : load.executed with
      | true => exact settled.set there before (caught load member executed earlier older)
      | false =>
        rcases load with ⟨inst, valid, idle | sent | memData⟩
        · trivial
        · cases executed
        · cases executed
    · exact settled.of_take_eq (List.take_set_of_le later)

theorem mem_drop (inv : LsqInv initial lsq) {storeIdx : Nat}
    (there : lsq.storeQueue[storeIdx]? = some store) (member : load ∈ lsq.loadQueue)
    (earlier : storeIdx < load.inst.sqIt) : load ∈ lsq.loadQueue.drop store.inst.lqIt := by
  obtain ⟨idx, there'⟩ := List.getElem?_of_mem member
  have storeAt : (lsq.storeQueue.map SQEntry.inst)[storeIdx]? = some store.inst := by rw [List.getElem?_map, there]; rfl
  have loadAt : (lsq.loadQueue.map LQEntry.inst)[idx]? = some load.inst := by rw [List.getElem?_map, there']; rfl
  have older := (inv.queued.sqIt load.inst (List.mem_of_getElem? loadAt) storeIdx store.inst storeAt).mp earlier
  have behind := (inv.queued.lqIt store.inst (List.mem_of_getElem? storeAt) idx load.inst loadAt).mpr older
  refine List.mem_of_getElem? (i := idx - store.inst.lqIt) ?_
  rw [List.getElem?_drop, Nat.add_sub_cancel' behind, there']

/-- **A store executes**: what has been answered wrongly because of it is no older than a recorded load. -/
theorem executeStore (inv : LsqInv initial lsq) {storeIdx : Nat}
    (there : lsq.storeQueue[storeIdx]? = some store) (waiting : store.effAddrValid = false) :
    LsqInv initial (lsq.executeStore storeIdx) := by
  have fits := (inv.queued.storeFits store.inst (List.mem_map_of_mem (List.mem_of_getElem? there))).1
  have sorted : (lsq.loadQueue.drop store.inst.lqIt).Pairwise fun first second =>
      first.inst.seqNum < second.inst.seqNum :=
    (List.pairwise_map.mp inv.queued.sorted).sublist (List.drop_sublist ..)
  let written : LSQUnit := { lsq with storeQueue := lsq.storeQueue.set storeIdx store.write }
  -- A load with a byte of the store is in one of its blocks.
  have catches : ∀ load ∈ lsq.loadQueue, load.executed = true → storeIdx < load.inst.sqIt →
      ¬ Apart load.inst store.write →
      (∃ violator ∈ written.violator store.inst (lsq.loadQueue.drop store.inst.lqIt), violator ≤ load.inst.seqNum) ∨
        ∃ violator ∈ lsq.memDepViolator, violator < load.inst.seqNum := by
    intro load member executed earlier common
    obtain ⟨i, inside, writes⟩ : ∃ i < load.inst.effSize, store.write.writes (load.inst.effAddr + i) = true := by
      simpa [Apart] using common
    have inStore := (SQEntry.writes_iff ..).mp writes
    have hit : written.sameBlock store.inst load.inst = true :=
      sameBlock_of_byte (inv.fits member).1 fits ⟨by omega, by omega⟩ inStore
    exact violator_catches sorted (inv.mem_drop there member earlier) (inv.valid load member executed) hit
  simp only [LSQUnit.executeStore, there]
  split
  · rename_i empty
    refine inv.setStore lsq.memDepViolator lsq.recorded there waiting inv.violator (fun _ known => known)
      fun load _ _ _ _ i inside => ?_
    rw [Bool.eq_false_iff, Ne, SQEntry.writes_iff, empty]
    omega
  · rcases checkViolations_eq written store.inst with ⟨same, none⟩ | ⟨found, is, same⟩
    · refine same.symm ▸ inv.setStore lsq.memDepViolator lsq.recorded there waiting inv.violator (fun _ known => known)
        fun load member executed earlier older => ?_
      by_contra common
      rcases catches load member executed earlier common with ⟨violator, is, -⟩ | ⟨violator, is, before⟩
      · rw [Option.mem_def] at is
        exact Option.some_ne_none _ (is.symm.trans none)
      · exact Nat.lt_asymm before (older violator (inv.violator violator is))
    · refine same.symm ▸ inv.setStore (some found) (found :: lsq.recorded) there waiting ?_
        (fun _ known => List.mem_cons_of_mem _ known) fun load member executed earlier older => ?_
      · rintro violator ⟨⟩
        exact List.mem_cons_self ..
      · by_contra common
        rcases catches load member executed earlier common with ⟨violator, is', before⟩ | ⟨violator, is', before⟩
        · cases is.symm.trans is'
          exact Nat.not_lt.mpr before (older found (List.mem_cons_self ..))
        · exact Nat.lt_asymm before (older violator (List.mem_cons_of_mem _ (inv.violator violator is')))

theorem writebackStore (inv : LsqInv initial lsq)
    (there : lsq.storeQueue[lsq.storeWBIt]? = some store) (executed : store.effAddrValid = true)
    (answered : ∀ load ∈ lsq.loadQueue, load.state = .sent → lsq.storeWBIt < load.inst.sqIt) :
    LsqInv initial lsq.writebackStore := by
  simp only [LSQUnit.writebackStore, there]
  refine ⟨inv.queued, inv.kept, fun idx before => ?_, fun addr => ?_, inv.violator, inv.valid,
    fun load member older => ?_⟩
  · rcases Nat.lt_succ_iff_lt_or_eq.mp before with before | rfl
    · exact inv.written idx before
    · exact ⟨store, there, executed⟩
  · have last : lsq.storeQueue.take (lsq.storeWBIt + 1) = lsq.storeQueue.take lsq.storeWBIt ++ [store] := by
      rw [List.take_add_one, there]
      rfl
    show (if _ then _ else lsq.memory addr) = _
    rw [last, afterStores_append, afterStores_singleton, inv.memory]
  · have settled := inv.settled load member older
    rcases load with ⟨inst, valid, idle | sent | memData⟩
    · trivial
    · refine ⟨answered _ member rfl, fun other member => settled.2 other ?_⟩
      rw [← List.drop_drop] at member
      exact List.mem_of_mem_drop member
    · exact settled

/-- **Every step keeps it.** -/
theorem step_inv (inv : LsqInv initial lsq) (step : LSQUnit.Step) (allowed : lsq.Allowed step) :
    LsqInv initial (lsq.step step) := by
  cases step with
  | insertLoad effAddr effSize => exact inv.insertLoad allowed
  | insertStore effAddr effSize operand noData => exact inv.insertStore operand noData allowed
  | executeLoad loadIdx sent =>
    obtain ⟨load, there, -, ordered⟩ := allowed
    exact inv.executeLoad sent there ordered
  | respond loadIdx =>
    obtain ⟨load, there, sent⟩ := allowed
    exact inv.respond there sent
  | executeStore storeIdx =>
    obtain ⟨store, there, waiting⟩ := allowed
    exact inv.executeStore there waiting
  | writebackStore =>
    obtain ⟨⟨store, there, executed⟩, answered⟩ := allowed
    exact inv.writebackStore there executed answered
  | getMemDepViolator => exact ⟨inv.queued, inv.kept, inv.written, inv.memory, nofun, inv.valid, inv.settled⟩

end LsqInv

/-! ### The bytes of the program -/

/-- The store of the program is older than the load, and has the byte. -/
def StoreInst.precedes (store : StoreInst) (load : LoadInst) (addr : Nat) : Bool :=
  decide (store.seqNum < load.seqNum) && decide (store.effAddr ≤ addr ∧ addr < store.effAddr + store.effSize)

/-- What a load has to return for a byte: that of the youngest older store to it, or the initial one. -/
def programByte (initial : Nat → UInt8) (stores : List StoreInst) (load : LoadInst) (addr : Nat) : UInt8 :=
  match stores.reverse.find? fun store => store.precedes load addr with
  | some store => if store.noData then 0 else store.operand (addr - store.effAddr)
  | none => initial addr

/-- **A settled load has the bytes of the program**, once the older stores have executed. -/
theorem LsqInv.bytesOf_eq {initial : Nat → UInt8} {lsq : LSQUnit} (inv : LsqInv initial lsq)
    (member : load ∈ lsq.loadQueue)
    (executed : ∀ store ∈ lsq.storeQueue, store.inst.seqNum < load.inst.seqNum → store.effAddrValid = true) :
    lsq.bytesOf initial load.inst = (List.range load.inst.effSize).map fun i =>
      programByte initial (lsq.storeQueue.map SQEntry.inst) load.inst (load.inst.effAddr + i) := by
  refine List.map_congr_left fun i _ => ?_
  generalize load.inst.effAddr + i = addr
  have place : ∀ idx store, lsq.storeQueue[idx]? = some store →
      (idx < load.inst.sqIt ↔ store.inst.seqNum < load.inst.seqNum) := by
    intro idx store there
    exact inv.queued.sqIt load.inst (List.mem_map_of_mem member) idx store.inst (by rw [List.getElem?_map, there]; rfl)
  have known : ∀ store ∈ lsq.storeQueue.take load.inst.sqIt, store.inst.seqNum < load.inst.seqNum ∧
      store.size = store.inst.effSize ∧ store.isAllZeros = store.inst.noData ∧ store.data = store.inst.operand := by
    intro store earlier
    obtain ⟨idx, there⟩ := List.getElem?_of_mem earlier
    have inside : idx < load.inst.sqIt := by
      by_contra beyond
      rw [List.getElem?_take_eq_none (Nat.le_of_not_lt beyond)] at there
      cases there
    rw [List.getElem?_take_of_lt inside] at there
    have before := (place idx store there).mp inside
    have there' : store ∈ lsq.storeQueue := List.mem_of_mem_take earlier
    exact ⟨before, (inv.kept store there').executed (executed store there' before)⟩
  have younger : ((lsq.storeQueue.drop load.inst.sqIt).reverse.find? fun store => store.inst.precedes load.inst addr) =
      none := by
    refine List.find?_eq_none.mpr fun store member => ?_
    obtain ⟨idx, there⟩ := List.getElem?_of_mem (List.mem_reverse.mp member)
    rw [List.getElem?_drop] at there
    have := mt (place _ store there).mpr (by omega)
    simp [StoreInst.precedes, this]
  have older : ((lsq.storeQueue.take load.inst.sqIt).reverse.find? fun store => store.inst.precedes load.inst addr) =
      youngest (lsq.storeQueue.take load.inst.sqIt) addr := by
    refine List.find?_congr fun store member => ?_
    obtain ⟨before, size, -⟩ := known store (List.mem_reverse.mp member)
    simp [StoreInst.precedes, SQEntry.writes, before, size]
  have found : (lsq.storeQueue.map SQEntry.inst).reverse.find? (fun store => store.precedes load.inst addr) =
      (youngest (lsq.storeQueue.take load.inst.sqIt) addr).map SQEntry.inst := by
    rw [← List.map_reverse, List.find?_map, ← older]
    conv_lhs => rw [← List.take_append_drop load.inst.sqIt lsq.storeQueue, List.reverse_append, List.find?_append]
    rw [show (fun store : StoreInst => store.precedes load.inst addr) ∘ SQEntry.inst =
      fun store => store.inst.precedes load.inst addr from rfl, younger, Option.none_or]
  rw [afterStores, programByte, found]
  cases chosen : youngest (lsq.storeQueue.take load.inst.sqIt) addr with
  | none => rfl
  | some store =>
    obtain ⟨-, -, isAllZeros, data⟩ := known store (List.mem_reverse.mp (List.mem_of_find?_eq_some chosen))
    show store.byte _ = if store.inst.noData then 0 else store.inst.operand _
    rw [SQEntry.byte, isAllZeros, data]

/-- **Loads see program order.** After any run over any initial memory, a load that has been answered, is older than
every load that was ever recorded as the violator, and has no older store that is still to execute, returned for each
byte that of the youngest older store to it, or the initial one. -/
theorem loads_in_program_order (depCheckShift : Nat) (initial : Nat → UInt8) (steps : List LSQUnit.Step)
    (run : AllowedRun LSQUnit.step LSQUnit.Allowed (.start depCheckShift initial) steps) (load : LQEntry)
    (memData : List UInt8) :
    let lsq := runActions LSQUnit.step (.start depCheckShift initial) steps
    load ∈ lsq.loadQueue → load.state = .answered memData →
      (∀ violator ∈ lsq.recorded, load.inst.seqNum < violator) →
      (∀ store ∈ lsq.storeQueue, store.inst.seqNum < load.inst.seqNum → store.effAddrValid = true) →
      memData = (List.range load.inst.effSize).map fun i =>
        programByte initial (lsq.storeQueue.map SQEntry.inst) load.inst (load.inst.effAddr + i) := by
  intro lsq member answered older executed
  have inv : LsqInv initial lsq :=
    run.invariant (LsqInv initial) (fun _ step allowed inv => inv.step_inv step allowed) (.start depCheckShift initial)
  have settled := inv.settled load member older
  unfold Settled at settled
  rw [answered] at settled
  exact settled.trans (inv.bytesOf_eq member executed)

/-- Two stores, the younger one over the end of the older, and two loads of the bytes of the older. The younger load
executes between the stores and is recorded when the younger store executes; the older one waits for that store to be
written back, and takes its bytes from memory. -/
def overlapping : List LSQUnit.Step :=
  [.insertStore 16 8 (fun _ => 1) false, .insertStore 20 8 (fun _ => 2) false, .insertLoad 16 8, .insertLoad 16 4,
    .executeStore 0, .executeLoad 1 true, .executeStore 1, .executeLoad 0 true, .writebackStore, .writebackStore,
    .executeLoad 0 true, .respond 0]

theorem loads_in_program_order_overlapping :
    [1, 1, 1, 1, 2, 2, 2, 2] = (List.range 8).map fun i =>
      programByte (fun _ => 9) ((runActions LSQUnit.step (.start 4 fun _ => 9) overlapping).storeQueue.map SQEntry.inst)
        ⟨2, 16, 8, 2⟩ (16 + i) :=
  have fits : 16 + 8 < 2 ^ 64 := by decide
  have fits' : 20 + 8 < 2 ^ 64 := by decide
  have fits'' : 16 + 4 < 2 ^ 64 := by decide
  loads_in_program_order 4 (fun _ => 9) overlapping
    ⟨fits, fits', fits, fits'', ⟨_, rfl, rfl⟩, ⟨_, rfl, rfl, by decide⟩, ⟨_, rfl, rfl⟩, ⟨_, rfl, rfl, by decide⟩,
      ⟨⟨_, rfl, rfl⟩, by decide⟩, ⟨⟨_, rfl, rfl⟩, by decide⟩, ⟨_, rfl, rfl, by decide⟩, ⟨_, rfl, rfl⟩, trivial⟩
    ⟨⟨2, 16, 8, 2⟩, true, .answered [1, 1, 1, 1, 2, 2, 2, 2]⟩ _ (List.mem_cons_self ..) rfl (by decide) (by decide)

end Emas.Gem5

/-
**The functional cache.**

`class CacheBank`: sets of `numAssoc` ways, most recently used first. The set of an address is given by its
row and the decode function. The loops of `Read` and `Write` go on after a hit, over ways that the hit has
shifted; `shift stop i` is the inner loop, `for( j = i; j > stop; j-- ) set[j] = set[j-1]`, with `stop = 0`
in `Read` and `stop = 1` in `Write`. Flags are the two bits the code uses; the timing of the bank and the
printed text are left out.
-/

import Emas.Nvmain.ControllerData
import Emas.Lib.ActionRun

namespace Emas.Nvmain

open Table

variable {δ : Type}

/-! ### The bank -/

/-- `struct CacheEntry`, over data of any kind. -/
structure CacheEntry (δ : Type) where
  valid : Bool
  dirty : Bool
  address : NVMAddress
  data : δ

/-- The ways of a set. -/
abbrev CacheSet (δ : Type) := Nat → CacheEntry δ

/-- The associativity, and the function that gives the set of an address in its row. -/
structure CacheParams where
  numAssoc : Nat
  decodeFunc : NVMAddress → Nat

/-- `class CacheBank`: `cacheEntry[row][setID]`. -/
structure CacheBank (δ : Type) where
  cacheEntry : Nat → Nat → CacheSet δ

/-- The test of all the loops: the line is here. -/
def CacheEntry.hit (addr : NVMAddress) (entry : CacheEntry δ) : Bool :=
  entry.address.physical == addr.physical && entry.valid

namespace CacheSet

variable (numAssoc : Nat) (addr : NVMAddress) (data : δ) (set : CacheSet δ)

/-- `Present( addr )`. -/
def present : Bool := (List.range numAssoc).any fun i => (set i).hit addr

/-- `SetFull( addr )`. -/
def setFull : Bool := (List.range numAssoc).all fun i => (set i).valid

/-- The first way that is not valid is taken. -/
def install : CacheSet δ × Bool :=
  match (List.range numAssoc).find? fun i => !(set i).valid with
  | some i => (set1 set i { set i with address := addr, data := data, valid := true }, true)
  | none => (set, false)

/-- `for( j = i; j > stop; j-- ) set[j] = set[j-1]`. -/
def shift (stop : Nat) : Nat → CacheSet δ → CacheSet δ
  | 0, set => set
  | j + 1, set => if stop < j + 1 then shift stop j (set1 set (j + 1) (set j)) else set

/-- "Move cache entry to MRU position". -/
def moveToFront (stop i : Nat) : CacheSet δ := set1 (shift stop i set) 0 (set i)

/-- `Read( addr, data )`, with the data of the last hit. -/
def read : CacheSet δ × Option δ :=
  (List.range numAssoc).foldl
    (fun (state : CacheSet δ × Option δ) i =>
      if (state.1 i).hit addr then (moveToFront state.1 0 i, some (state.1 i).data) else state)
    (set, none)

/-- The way is written. -/
def overwrite (i : Nat) : CacheSet δ := set1 set i { set i with data := data, dirty := true }

/-- `Write( addr, data )`. -/
def write : CacheSet δ × Bool :=
  (List.range numAssoc).foldl
    (fun (state : CacheSet δ × Bool) i =>
      if (state.1 i).hit addr then (moveToFront (overwrite data state.1 i) 1 i, true) else state)
    (set, false)

/-- "Updates data without changing dirty bit or LRU position". -/
def updateData : CacheSet δ × Bool :=
  (List.range numAssoc).foldl
    (fun (state : CacheSet δ × Bool) i =>
      if (state.1 i).hit addr then (set1 state.1 i { state.1 i with data := data }, true) else state)
    (set, false)

/-- `Evict( addr, data )`, with the dirty bit and the data of the line. -/
def evict : CacheSet δ × Option (δ × Bool) :=
  match (List.range numAssoc).find? fun i => (set i).hit addr with
  | some i => (set1 set i { set i with valid := false, dirty := false }, some ((set i).data, (set i).dirty))
  | none => (set, none)

end CacheSet

/-- The operations on lines. -/
inductive CacheOp (δ : Type) where
  | install (addr : NVMAddress) (data : δ)
  | read (addr : NVMAddress)
  | write (addr : NVMAddress) (data : δ)
  | updateData (addr : NVMAddress) (data : δ)
  | evict (addr : NVMAddress)

/-- The address that an operation is about. -/
def CacheOp.addr : CacheOp δ → NVMAddress
  | install addr _ | read addr | write addr _ | updateData addr _ | evict addr => addr

/-- What an operation does to the set of its address. -/
def CacheOp.onSet (numAssoc : Nat) (set : CacheSet δ) : CacheOp δ → CacheSet δ
  | install addr data => (CacheSet.install numAssoc addr data set).1
  | read addr => (CacheSet.read numAssoc addr set).1
  | write addr data => (CacheSet.write numAssoc addr data set).1
  | updateData addr data => (CacheSet.updateData numAssoc addr data set).1
  | evict addr => (CacheSet.evict numAssoc addr set).1

namespace CacheBank

/-- The constructor: nothing is valid. -/
def create (address : NVMAddress) (data : δ) : CacheBank δ := ⟨fun _ _ _ => ⟨false, false, address, data⟩⟩

/-- `FindSet( addr )`. -/
def findSet (params : CacheParams) (cache : CacheBank δ) (addr : NVMAddress) : CacheSet δ :=
  cache.cacheEntry addr.row (params.decodeFunc addr)

/-- One operation. -/
def apply (params : CacheParams) (cache : CacheBank δ) (op : CacheOp δ) : CacheBank δ :=
  ⟨set2 cache.cacheEntry op.addr.row (params.decodeFunc op.addr)
    (op.onSet params.numAssoc (cache.findSet params op.addr))⟩

end CacheBank

/-! ### The map -/

/-- The lines by row, set and physical address, each with its data and dirty bit. -/
abbrev CacheMap (δ : Type) := Nat → Nat → Nat → Option (δ × Bool)

/-- What an operation does to its line. -/
def CacheOp.onLine (line : Option (δ × Bool)) : CacheOp δ → Option (δ × Bool)
  | install _ data => some (data, false)
  | read _ => line
  | write _ data => some (data, true)
  | updateData _ data => line.map fun line => (data, line.2)
  | evict _ => none

namespace CacheMap

def find (params : CacheParams) (map : CacheMap δ) (addr : NVMAddress) : Option (δ × Bool) :=
  map addr.row (params.decodeFunc addr) addr.physical

/-- What an operation does to the map. -/
def apply (params : CacheParams) (map : CacheMap δ) (op : CacheOp δ) : CacheMap δ :=
  set3 map op.addr.row (params.decodeFunc op.addr) op.addr.physical (op.onLine (map.find params op.addr))

end CacheMap

/-- The set holds no line twice, and its valid entries are the lines of the map. -/
structure SetRefines (numAssoc : Nat) (set : CacheSet δ) (lines : Nat → Option (δ × Bool)) : Prop where
  distinct : ∀ i < numAssoc, ∀ j < numAssoc, (set i).valid = true → (set j).valid = true →
    (set i).address.physical = (set j).address.physical → i = j
  lines : ∀ physical line, lines physical = some line ↔
    ∃ i < numAssoc, (set i).valid = true ∧ (set i).address.physical = physical ∧ ((set i).data, (set i).dirty) = line

/-- No set holds a line twice, and the valid entries are the lines of a map from addresses to data and dirty bits. -/
def Refines (params : CacheParams) (cache : CacheBank δ) (map : CacheMap δ) : Prop :=
  ∀ row setID, SetRefines params.numAssoc (cache.cacheEntry row setID) (map row setID)

/-- Another line is here. -/
def CacheEntry.other (addr : NVMAddress) (entry : CacheEntry δ) : Bool :=
  entry.address.physical != addr.physical && entry.valid

/-- The valid entries but for a line, in their order. -/
def others (numAssoc : Nat) (addr : NVMAddress) (set : CacheSet δ) : List (CacheEntry δ) :=
  ((List.range numAssoc).map set).filter (·.other addr)

/-- The line is at index 0, the others are as before. -/
structure InFront (numAssoc : Nat) (addr : NVMAddress) (before after : CacheSet δ) : Prop where
  front : (after 0).hit addr = true
  others : others numAssoc addr after = others numAssoc addr before

/-! ### Loops -/

section Loops

variable {σ : Type} {step : σ → Nat → σ} {state : σ} {i n : Nat}

theorem foldl_range_none (idle : ∀ k < n, step state k = state) : (List.range n).foldl step state = state := by
  induction n with
  | zero => rfl
  | succ n ih =>
    rw [List.range_succ, List.foldl_append, ih fun k small => idle k (by omega)]
    exact idle n (by omega)

theorem foldl_range_single (inside : i < n) (before : ∀ k < i, step state k = state)
    (after : ∀ k < n, i < k → step (step state i) k = step state i) :
    (List.range n).foldl step state = step state i := by
  induction n with
  | zero => omega
  | succ n ih =>
    rw [List.range_succ, List.foldl_append]
    rcases Nat.lt_or_eq_of_le (Nat.le_of_lt_succ inside) with earlier | rfl
    · rw [ih earlier fun k small => after k (by omega)]
      exact after n (by omega) earlier
    · rw [foldl_range_none before]
      rfl

end Loops

namespace CacheSet

variable {numAssoc : Nat} {addr : NVMAddress} {data : δ} {set : CacheSet δ} {i k : Nat}

theorem shift_apply (stop : Nat) : ∀ (i : Nat) (set : CacheSet δ) (k : Nat),
    shift stop i set k = if stop < k ∧ k ≤ i then set (k - 1) else set k := by
  intro i
  induction i with
  | zero =>
    intro set k
    rw [if_neg (by omega)]
    rfl
  | succ j ih =>
    intro set k
    rw [shift]
    split
    · rename_i more
      rw [ih, set1_apply, set1_apply]
      by_cases last : k = j + 1
      · subst last
        rw [if_neg (by omega), if_pos rfl, if_pos (by omega)]
        rfl
      · rw [if_neg last]
        by_cases inside : stop < k ∧ k ≤ j
        · rw [if_pos inside, if_neg (by omega), if_pos (by omega)]
        · rw [if_neg inside, if_neg (by omega)]
    · rw [if_neg (by omega)]

theorem moveToFront_zero (stop : Nat) : moveToFront set stop i 0 = set i := set1_self ..

theorem moveToFront_of_gt (stop : Nat) (above : i < k) : moveToFront set stop i k = set k := by
  rw [moveToFront, set1_of_ne _ _ (by omega), shift_apply, if_neg (by omega)]

/-- Where way `k` comes from when way `i` is moved to the front. -/
def source (i k : Nat) : Nat := if k = 0 then i else if k ≤ i then k - 1 else k

theorem moveToFront_eq (set : CacheSet δ) (i : Nat) : moveToFront set 0 i = set ∘ source i := by
  funext k
  rw [moveToFront, set1_apply, shift_apply, Function.comp, source]
  split
  · rfl
  · split
    · rw [if_pos (by omega)]
    · rw [if_neg (by omega)]

/-- The line is at way `i` and nowhere else. -/
structure HitAt (numAssoc : Nat) (addr : NVMAddress) (set : CacheSet δ) (i : Nat) : Prop where
  inside : i < numAssoc
  here : (set i).hit addr = true
  only : ∀ k < numAssoc, (set k).hit addr = true → k = i

theorem HitAt.valid (found : HitAt numAssoc addr set i) : (set i).valid = true :=
  (Bool.and_eq_true_iff.mp found.here).2

theorem HitAt.physical (found : HitAt numAssoc addr set i) : (set i).address.physical = addr.physical :=
  beq_iff_eq.mp (Bool.and_eq_true_iff.mp found.here).1

theorem hit_iff {entry : CacheEntry δ} :
    entry.hit addr = true ↔ entry.address.physical = addr.physical ∧ entry.valid = true := by
  simp [CacheEntry.hit]

theorem HitAt.find (found : HitAt numAssoc addr set i) :
    (List.range numAssoc).find? (fun i => (set i).hit addr) = some i := by
  cases first : (List.range numAssoc).find? (fun i => (set i).hit addr) with
  | none =>
    have none := List.find?_eq_none.mp first i (List.mem_range.mpr found.inside)
    exact absurd found.here none
  | some k =>
    have here := List.find?_some (p := fun i => (set i).hit addr) first
    rw [found.only k (List.mem_range.mp (List.mem_of_find?_eq_some first)) here]

/-- The scans of `Read`, `Write` and `UpdateData`: the hit leaves the ways behind it as they are, so that
there is no other one. -/
theorem HitAt.scan {ρ : Type} (found : HitAt numAssoc addr set i) (onHit : CacheSet δ → Nat → CacheSet δ)
    (answer : CacheSet δ → Nat → ρ) (start : ρ) (behind : ∀ k, i < k → onHit set i k = set k) :
    (List.range numAssoc).foldl (fun (state : CacheSet δ × ρ) i =>
      if (state.1 i).hit addr then (onHit state.1 i, answer state.1 i) else state) (set, start) =
    (onHit set i, answer set i) := by
  rw [foldl_range_single found.inside]
  · exact if_pos found.here
  · intro k below
    refine if_neg fun here => ?_
    exact absurd (found.only k (Nat.lt_trans below found.inside) here) (Nat.ne_of_lt below)
  · intro k inside above
    rw [if_pos found.here]
    refine if_neg fun here => ?_
    have here : (onHit set i k).hit addr = true := here
    rw [behind k above] at here
    exact absurd (found.only k inside here) (Nat.ne_of_gt above)

theorem HitAt.read_eq (found : HitAt numAssoc addr set i) :
    read numAssoc addr set = (moveToFront set 0 i, some (set i).data) :=
  found.scan (fun set i => moveToFront set 0 i) (fun set i => some (set i).data) none
    fun _ above => moveToFront_of_gt 0 above

theorem HitAt.write_eq (found : HitAt numAssoc addr set i) :
    write numAssoc addr data set = (moveToFront (overwrite data set i) 1 i, true) := by
  refine found.scan (fun set i => moveToFront (overwrite data set i) 1 i) (fun _ _ => true) false fun k above => ?_
  rw [moveToFront_of_gt 1 above]
  exact set1_of_ne _ _ (Nat.ne_of_gt above)

theorem HitAt.updateData_eq (found : HitAt numAssoc addr set i) :
    updateData numAssoc addr data set = (set1 set i { set i with data := data }, true) :=
  found.scan (fun set i => set1 set i { set i with data := data }) (fun _ _ => true) false
    fun _ above => set1_of_ne _ _ (Nat.ne_of_gt above)

theorem HitAt.evict_eq (found : HitAt numAssoc addr set i) :
    evict numAssoc addr set = (set1 set i { set i with valid := false, dirty := false },
      some ((set i).data, (set i).dirty)) := by
  unfold evict
  rw [found.find]

end CacheSet

end Emas.Nvmain

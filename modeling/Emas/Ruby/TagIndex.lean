/-
**The tag index of a Ruby cache.**

Runs of `allocate`, `deallocate`, `cacheProbe` and of permission changes, from an empty cache.
-/

import Emas.Ruby.Address
import Emas.Lib.PartialRun

namespace Emas.Ruby

/-! ### The tag array of a Ruby cache

`class CacheMemory` of `mem/ruby/structures/CacheMemory.cc`, with the address and the permission of its entries.

* The sets are an array of ways that may hold an entry; `m_tag_index` gives the way of a line address.
* An assertion that fails, a null pointer that is followed and a `panic` end the program: such a call has no result.
* The way of the victim of `cacheProbe` comes from the replacement policy, and is given to the call.
-/

open Gem5

/-- `enum AccessPermission`. -/
inductive AccessPermission where
  | readOnly | readWrite | maybeStale | backingStore | invalid | notPresent | busy
  deriving DecidableEq, Repr

/-- `class AbstractCacheEntry`. -/
structure AbstractCacheEntry where
  address : Addr
  permission : AccessPermission
  deriving DecidableEq, Repr

/-- How a call ends the program. -/
inductive CacheFailure where
  | assertion | nullPointer | panic
  deriving DecidableEq, Repr

/-- The sizes of a cache, as `init()` accepts them. -/
structure CacheGeometry where
  blockBits : Nat
  numSets : Nat
  assoc : Nat
  startIndexBit : Nat
  several : 1 < numSets

namespace CacheGeometry

variable (g : CacheGeometry)

/-- `m_cache_num_set_bits`. -/
def numSetBits : Nat := g.numSets.log2

/-- `address == makeLineAddress( address )`. -/
def IsLine (address : Addr) : Prop := address = makeLineAddress g.blockBits address

instance (address : Addr) : Decidable (g.IsLine address) := inferInstanceAs (Decidable (_ = _))

theorem numSetBits_pos : 0 < g.numSetBits := by
  have several := g.several
  exact (Nat.le_log2 (by omega)).mpr several

def addressToCacheSet (address : Addr) : Fin g.numSets where
  val := (bitSelect address g.startIndexBit (g.startIndexBit + g.numSetBits - 1)).toNat
  isLt := by
    have several := g.several
    have bits := g.numSetBits_pos
    refine Nat.lt_of_lt_of_le (toNat_bitSelect_lt ..) ?_
    rw [show g.startIndexBit + g.numSetBits - 1 + 1 - g.startIndexBit = g.numSetBits by omega]
    exact Nat.log2_self_le (by omega)

end CacheGeometry

/-- `class CacheMemory`. -/
structure CacheMemory (g : CacheGeometry) where
  cache : Fin g.numSets → Fin g.assoc → Option AbstractCacheEntry
  tagIndex : Addr → Option (Fin g.assoc)

/-- A call on the cache. -/
inductive CacheAction (g : CacheGeometry) where
  | allocate (address : Addr)
  | deallocate (address : Addr)
  | cacheProbe (address : Addr) (victim : Fin g.assoc)
  | changePermission (set : Fin g.numSets) (way : Fin g.assoc) (permission : AccessPermission)

namespace CacheMemory

variable {g : CacheGeometry}

/-- An empty cache. -/
def init (g : CacheGeometry) : CacheMemory g := ⟨fun _ _ => none, fun _ => none⟩

section Calls

variable (mem : CacheMemory g)

def setEntry (set : Fin g.numSets) (way : Fin g.assoc) (entry : Option AbstractCacheEntry) : CacheMemory g :=
  { mem with cache := Function.update mem.cache set (Function.update (mem.cache set) way entry) }

def setTag (address : Addr) (way : Option (Fin g.assoc)) : CacheMemory g :=
  { mem with tagIndex := Function.update mem.tagIndex address way }

/-! ### Looking up -/

/-- `findTagInSet( cacheSet, tag )`, where nothing stands for `-1`. -/
def findTagInSet (cacheSet : Fin g.numSets) (tag : Addr) : Except CacheFailure (Option (Fin g.assoc)) :=
  if ¬ g.IsLine tag then .error .assertion
  else match mem.tagIndex tag with
    | none => .ok none
    | some way => match mem.cache cacheSet way with
      | none => .error .nullPointer
      | some entry => .ok (if entry.permission ≠ .notPresent then some way else none)

def isTagPresent (address : Addr) : Except CacheFailure Bool :=
  (mem.findTagInSet (g.addressToCacheSet address) address).map Option.isSome

def lookup (address : Addr) : Except CacheFailure (Option AbstractCacheEntry) :=
  (mem.findTagInSet (g.addressToCacheSet address) address).map fun loc =>
    loc.bind (mem.cache (g.addressToCacheSet address))

def cacheAvail (address : Addr) : Except CacheFailure Bool :=
  if ¬ g.IsLine address then .error .assertion
  else .ok ((List.finRange g.assoc).any fun way => match mem.cache (g.addressToCacheSet address) way with
    | none => true
    | some entry => entry.address = address ∨ entry.permission = .notPresent)

/-! ### Allocating -/

/-- A slot that `allocate` may take. -/
def isOpen (slot : Option AbstractCacheEntry) : Bool := slot.all fun entry => entry.permission = .notPresent

/-- The first way that is free, or whose entry is not present. -/
def openWay (address : Addr) : Option (Fin g.assoc) :=
  (List.finRange g.assoc).find? fun way => isOpen (mem.cache (g.addressToCacheSet address) way)

def allocate (address : Addr) : Except CacheFailure (CacheMemory g) :=
  if ¬ g.IsLine address then .error .assertion
  else do
    if ← mem.isTagPresent address then .error .assertion
    else if !(← mem.cacheAvail address) then .error .assertion
    else match mem.openWay address with
      | none => .error .panic
      | some way => .ok ((mem.setEntry (g.addressToCacheSet address) way (some ⟨address, .invalid⟩)).setTag
          address (some way))

def deallocate (address : Addr) : Except CacheFailure (CacheMemory g) :=
  if ¬ g.IsLine address then .error .assertion
  else do
    match ← mem.findTagInSet (g.addressToCacheSet address) address with
    | none => .error .assertion
    | some loc => .ok ((mem.setEntry (g.addressToCacheSet address) loc none).setTag address none)

/-- `cacheProbe( address )`, with the way of the victim. -/
def cacheProbe (address : Addr) (victim : Fin g.assoc) : Except CacheFailure Addr := do
  if ← mem.cacheAvail address then .error .assertion
  else match mem.cache (g.addressToCacheSet address) victim with
    | none => .error .nullPointer
    | some entry => .ok entry.address

/-- `changePermission( permission )` of the entry in a way of a set. An entry that is not present is not changed. -/
def changePermission (set : Fin g.numSets) (way : Fin g.assoc) (permission : AccessPermission) :
    Option (CacheMemory g) :=
  match mem.cache set way with
  | none => none
  | some entry =>
    if entry.permission = .notPresent then none
    else some (mem.setEntry set way (some { entry with permission := permission }))

end Calls

variable {mem next : CacheMemory g}

/-! ### Entries and tags -/

theorem cache_setEntry (set set' : Fin g.numSets) (way way' : Fin g.assoc) (entry : Option AbstractCacheEntry) :
    (mem.setEntry set way entry).cache set' way' = if set' = set ∧ way' = way then entry else mem.cache set' way' := by
  by_cases here : set' = set
  · subst here
    by_cases there : way' = way <;> simp [setEntry, there]
  · simp [setEntry, here]

theorem cache_setEntry_self (set : Fin g.numSets) (way : Fin g.assoc) (entry : Option AbstractCacheEntry) :
    (mem.setEntry set way entry).cache set way = entry := by
  rw [cache_setEntry, if_pos ⟨rfl, rfl⟩]

@[simp] theorem tagIndex_setEntry (set : Fin g.numSets) (way : Fin g.assoc) (entry : Option AbstractCacheEntry) :
    (mem.setEntry set way entry).tagIndex = mem.tagIndex := rfl

@[simp] theorem cache_setTag (address : Addr) (way : Option (Fin g.assoc)) :
    (mem.setTag address way).cache = mem.cache := rfl

theorem tagIndex_setTag (address address' : Addr) (way : Option (Fin g.assoc)) :
    (mem.setTag address way).tagIndex address' = if address' = address then way else mem.tagIndex address' :=
  Function.update_apply ..

/-- A way of the set of the address has a present entry for it. -/
def HoldsAt (mem : CacheMemory g) (address : Addr) (way : Fin g.assoc) : Prop :=
  ∃ entry, mem.cache (g.addressToCacheSet address) way = some entry ∧ entry.address = address ∧
    entry.permission ≠ .notPresent

/-! ### The calls -/

variable {address : Addr}

theorem allocate_ok (done : mem.allocate address = .ok next) :
    g.IsLine address ∧ mem.isTagPresent address = .ok false ∧ ∃ way, mem.openWay address = some way ∧
      next = (mem.setEntry (g.addressToCacheSet address) way (some ⟨address, .invalid⟩)).setTag address (some way) := by
  rw [allocate] at done
  split at done
  · exact nomatch done
  next line =>
    cases tag : mem.isTagPresent address with
    | error failure => rw [tag] at done; exact nomatch done
    | ok present =>
      cases avail : mem.cacheAvail address with
      | error failure => rw [tag, avail] at done; cases present <;> exact nomatch done
      | ok available =>
        rw [tag, avail] at done
        cases present
        case true => exact nomatch done
        case false =>
          cases available
          case false => exact nomatch done
          case true =>
            cases opened : mem.openWay address with
            | none => rw [opened] at done; exact nomatch done
            | some way =>
              rw [opened] at done
              exact ⟨not_not.mp line, rfl, way, rfl, (Except.ok.inj done).symm⟩

variable {way : Fin g.assoc}

theorem openWay_free (opened : mem.openWay address = some way)
    {entry : AbstractCacheEntry} (held : mem.cache (g.addressToCacheSet address) way = some entry) :
    entry.permission = .notPresent := by
  have free := List.find?_some opened
  simpa [held, isOpen] using free

theorem allocate_eq (absent : mem.isTagPresent address = .ok false)
    (opened : mem.openWay address = some way) : mem.allocate address =
      .ok ((mem.setEntry (g.addressToCacheSet address) way (some ⟨address, .invalid⟩)).setTag address (some way)) := by
  have line : g.IsLine address := by
    by_contra other
    rw [isTagPresent, findTagInSet, if_pos other] at absent
    exact nomatch absent
  have avail : mem.cacheAvail address = .ok true := by
    rw [cacheAvail, if_neg (not_not_intro line)]
    refine congrArg _ (List.any_eq_true.mpr ⟨way, List.mem_finRange way, ?_⟩)
    cases held : mem.cache (g.addressToCacheSet address) way with
    | none => rfl
    | some entry => simp [openWay_free opened held]
  rw [allocate, if_neg (not_not_intro line), absent, avail]
  show (match mem.openWay address with | none => _ | some way => _) = _
  rw [opened]

theorem deallocate_ok (done : mem.deallocate address = .ok next) :
    g.IsLine address ∧ ∃ loc, mem.findTagInSet (g.addressToCacheSet address) address = .ok (some loc) ∧
      next = (mem.setEntry (g.addressToCacheSet address) loc none).setTag address none := by
  rw [deallocate] at done
  split at done
  · exact nomatch done
  next line =>
    cases found : mem.findTagInSet (g.addressToCacheSet address) address with
    | error failure => rw [found] at done; exact nomatch done
    | ok loc =>
      rw [found] at done
      cases loc with
      | none => exact nomatch done
      | some loc => exact ⟨not_not.mp line, loc, rfl, (Except.ok.inj done).symm⟩

theorem changePermission_some {set : Fin g.numSets} {permission : AccessPermission}
    (done : mem.changePermission set way permission = some next) :
    ∃ entry, mem.cache set way = some entry ∧ entry.permission ≠ .notPresent ∧
      next = mem.setEntry set way (some { entry with permission := permission }) := by
  rw [changePermission] at done
  split at done
  · exact nomatch done
  next entry held =>
    split at done
    · exact nomatch done
    next present => exact ⟨entry, held, present, (Option.some.inj done).symm⟩

/-- The way that `allocate` takes does not hold an entry of another address that the index points to. -/
def Unpointed (mem : CacheMemory g) (address : Addr) : Prop :=
  mem.isTagPresent address = .ok false → ∀ way entry, mem.openWay address = some way →
    mem.cache (g.addressToCacheSet address) way = some entry → mem.tagIndex entry.address = some way →
    entry.address = address

/-! ### The index and the sets -/

/-- What the index says is right. -/
structure Agrees (mem : CacheMemory g) : Prop where
  find : ∀ address, g.IsLine address → ∃ loc, mem.findTagInSet (g.addressToCacheSet address) address = .ok loc ∧
    (loc.isSome ↔ ∃ way, mem.HoldsAt address way)
  tagPresent : ∀ address, g.IsLine address → ∃ present, mem.isTagPresent address = .ok present ∧
    (present ↔ ∃ way, mem.HoldsAt address way)
  lookup : ∀ address, g.IsLine address → ∃ found, mem.lookup address = .ok found ∧
    (found.isSome ↔ ∃ way, mem.HoldsAt address way) ∧ ∀ entry, found = some entry → entry.address = address
  distinct : ∀ set way way' entry entry', mem.cache set way = some entry → mem.cache set way' = some entry' →
    entry.permission ≠ .notPresent → entry'.permission ≠ .notPresent → entry.address = entry'.address → way = way'
  allocates : ∀ address, mem.cacheAvail address = .ok true → mem.allocate address ≠ .error .panic

/-- The index and the entries fit together. -/
structure Indexed (mem : CacheMemory g) : Prop where
  points : ∀ address way, mem.tagIndex address = some way →
    ∃ entry, mem.cache (g.addressToCacheSet address) way = some entry ∧ entry.address = address
  placed : ∀ set way entry, mem.cache set way = some entry →
    g.IsLine entry.address ∧ g.addressToCacheSet entry.address = set
  indexed : ∀ set way entry, mem.cache set way = some entry → entry.permission ≠ .notPresent →
    mem.tagIndex entry.address = some way

theorem Indexed.init : (init g).Indexed where
  points _ _ known := nomatch known
  placed _ _ _ held := nomatch held
  indexed _ _ _ held := nomatch held

namespace Indexed

variable {address : Addr}

/-- **A tag is found where a present entry is.** -/
theorem find_eq (inv : mem.Indexed) (line : g.IsLine address) :
    ∃ loc, mem.findTagInSet (g.addressToCacheSet address) address = .ok loc ∧
      ∀ way, loc = some way ↔ mem.HoldsAt address way := by
  rw [findTagInSet, if_neg (not_not_intro line)]
  have only : ∀ way, mem.HoldsAt address way → mem.tagIndex address = some way := by
    rintro way ⟨entry, held, rfl, present⟩
    exact inv.indexed _ way entry held present
  cases known : mem.tagIndex address with
  | none =>
    refine ⟨none, rfl, fun way => iff_of_false (fun some => nomatch some) fun holds => ?_⟩
    exact nomatch known.symm.trans (only way holds)
  | some way =>
    obtain ⟨entry, held, same⟩ := inv.points address way known
    simp only [held]
    refine ⟨_, rfl, fun way' => ?_⟩
    by_cases present : entry.permission ≠ .notPresent
    · rw [if_pos present, Option.some_inj]
      refine ⟨fun here => here ▸ ⟨entry, held, same, present⟩, fun holds => ?_⟩
      exact Option.some.inj (known.symm.trans (only way' holds))
    · rw [if_neg present]
      refine iff_of_false (fun some => nomatch some) fun holds => ?_
      obtain rfl : way = way' := Option.some.inj (known.symm.trans (only way' holds))
      obtain ⟨entry', held', -, present'⟩ := holds
      obtain rfl : entry = entry' := Option.some.inj (held.symm.trans held')
      exact present present'

theorem openWay_of_cacheAvail (inv : mem.Indexed) (line : g.IsLine address)
    (absent : mem.isTagPresent address = .ok false) (avail : mem.cacheAvail address = .ok true) :
    (mem.openWay address).isSome := by
  obtain ⟨loc, found, at_iff⟩ := inv.find_eq line
  rw [isTagPresent, found] at absent
  obtain rfl : loc = none := Option.not_isSome_iff_eq_none.mp (by simpa using Except.ok.inj absent)
  rw [cacheAvail, if_neg (not_not_intro line)] at avail
  obtain ⟨way, -, fits⟩ := List.any_eq_true.mp (Except.ok.inj avail)
  refine List.find?_isSome.mpr ⟨way, List.mem_finRange way, ?_⟩
  cases held : mem.cache (g.addressToCacheSet address) way with
  | none => rfl
  | some entry =>
    rw [held] at fits
    have either : entry.address = address ∨ entry.permission = .notPresent := by simpa using fits
    rcases either with same | gone
    · by_contra kept
      have present : entry.permission ≠ .notPresent := by simpa [isOpen] using kept
      exact nomatch (at_iff way).mpr ⟨entry, held, same, present⟩
    · simpa [isOpen] using gone

/-- Then every lookup finds exactly the entry that the set holds, and `allocate` finds a way where `cacheAvail` says
so. -/
theorem agrees (inv : mem.Indexed) : mem.Agrees where
  find address line := by
    obtain ⟨loc, found, at_iff⟩ := inv.find_eq line
    exact ⟨loc, found, Option.isSome_iff_exists.trans (exists_congr at_iff)⟩
  tagPresent address line := by
    obtain ⟨loc, found, at_iff⟩ := inv.find_eq line
    exact ⟨loc.isSome, by rw [isTagPresent, found]; rfl, Option.isSome_iff_exists.trans (exists_congr at_iff)⟩
  lookup address line := by
    obtain ⟨loc, found, at_iff⟩ := inv.find_eq line
    refine ⟨loc.bind (mem.cache (g.addressToCacheSet address)), by rw [CacheMemory.lookup, found]; rfl, ?_, ?_⟩
    · rw [← exists_congr at_iff, Option.isSome_iff_exists]
      constructor
      · rintro ⟨entry, bound⟩
        obtain ⟨way, here, -⟩ := Option.bind_eq_some_iff.mp bound
        exact ⟨way, here⟩
      · rintro ⟨way, here⟩
        obtain ⟨entry, held, -⟩ := (at_iff way).mp here
        exact ⟨entry, Option.bind_eq_some_iff.mpr ⟨way, here, held⟩⟩
    · intro entry bound
      obtain ⟨way, here, held⟩ := Option.bind_eq_some_iff.mp bound
      obtain ⟨entry', held', same, -⟩ := (at_iff way).mp here
      exact Option.some.inj (held.symm.trans held') ▸ same
  distinct set way way' entry entry' held held' present present' same := by
    have one := inv.indexed set way entry held present
    have other := inv.indexed set way' entry' held' present'
    rw [same, other] at one
    exact (Option.some.inj one).symm
  allocates address avail := by
    by_cases line : g.IsLine address
    · obtain ⟨loc, found, -⟩ := inv.find_eq line
      have present : mem.isTagPresent address = .ok loc.isSome := by rw [isTagPresent, found]; rfl
      rw [allocate, if_neg (not_not_intro line), present, avail]
      cases loc with
      | some way => exact fun same => nomatch same
      | none =>
        obtain ⟨way, opened⟩ := Option.isSome_iff_exists.mp (inv.openWay_of_cacheAvail line present avail)
        rw [opened]
        exact fun same => nomatch same
    · rw [cacheAvail, if_pos line] at avail
      exact nomatch avail

/-! ### Steps -/

/-- **Allocating keeps the index**, on a way that nothing else points to. -/
theorem allocate (inv : mem.Indexed) (unpointed : mem.Unpointed address) (done : mem.allocate address = .ok next) :
    next.Indexed := by
  obtain ⟨line, absent, way, opened, rfl⟩ := allocate_ok done
  have alone : ∀ entry, mem.cache (g.addressToCacheSet address) way = some entry →
      mem.tagIndex entry.address = some way → entry.address = address := fun entry =>
    unpointed absent way entry opened
  constructor
  · intro address' way' known
    rw [tagIndex_setTag] at known
    rw [cache_setTag, cache_setEntry]
    by_cases same : address' = address
    · rw [if_pos same] at known
      cases known
      exact ⟨_, if_pos ⟨congrArg _ same, rfl⟩, same.symm⟩
    · rw [if_neg same] at known
      obtain ⟨entry, held, of⟩ := inv.points address' way' known
      -- the way that is taken is not the one of another address
      rw [if_neg]
      · exact ⟨entry, held, of⟩
      · rintro ⟨set, rfl⟩
        rw [set] at held
        exact same (of ▸ alone entry held (of ▸ known))
  · intro set way' entry held
    rw [cache_setTag, cache_setEntry] at held
    split at held
    next here =>
      cases held
      exact ⟨line, here.1.symm⟩
    next => exact inv.placed set way' entry held
  · intro set way' entry held present
    rw [cache_setTag, cache_setEntry] at held
    rw [tagIndex_setTag]
    split at held
    next here =>
      cases held
      rw [if_pos rfl, here.2]
    next elsewhere =>
      rw [if_neg]
      · exact inv.indexed set way' entry held present
      · rintro rfl
        -- an entry of the address that is present would have been found
        obtain ⟨loc, found, at_iff⟩ := inv.find_eq line
        rw [isTagPresent, found] at absent
        have missing : loc.isSome = false := Except.ok.inj absent
        obtain ⟨-, rfl⟩ := inv.placed set way' entry held
        rw [(at_iff way').mpr ⟨entry, held, rfl, present⟩] at missing
        exact nomatch missing

theorem deallocate (inv : mem.Indexed) (done : mem.deallocate address = .ok next) : next.Indexed := by
  obtain ⟨line, loc, found, rfl⟩ := deallocate_ok done
  obtain ⟨loc', found', at_iff⟩ := inv.find_eq line
  obtain rfl : some loc = loc' := Except.ok.inj (found.symm.trans found')
  obtain ⟨gone, heldGone, sameGone, presentGone⟩ := (at_iff loc).mp rfl
  constructor
  · intro address' way known
    rw [tagIndex_setTag] at known
    rw [cache_setTag, cache_setEntry]
    by_cases same : address' = address
    · rw [if_pos same] at known
      exact nomatch known
    · rw [if_neg same] at known
      obtain ⟨entry, held, of⟩ := inv.points address' way known
      rw [if_neg]
      · exact ⟨entry, held, of⟩
      · rintro ⟨set, rfl⟩
        rw [set, heldGone] at held
        cases held
        exact same (of.symm.trans sameGone)
  · intro set way entry held
    rw [cache_setTag, cache_setEntry] at held
    split at held
    · exact nomatch held
    · exact inv.placed set way entry held
  · intro set way entry held present
    rw [cache_setTag, cache_setEntry] at held
    rw [tagIndex_setTag]
    split at held
    · exact nomatch held
    next elsewhere =>
      rw [if_neg]
      · exact inv.indexed set way entry held present
      · rintro rfl
        obtain ⟨-, rfl⟩ := inv.placed set way entry held
        exact elsewhere ⟨rfl, (Option.some.inj ((at_iff way).mpr ⟨entry, held, rfl, present⟩)).symm⟩

theorem changePermission (inv : mem.Indexed) {set : Fin g.numSets} {permission : AccessPermission}
    (done : mem.changePermission set way permission = some next) : next.Indexed := by
  obtain ⟨entry, held, present, rfl⟩ := changePermission_some done
  constructor
  · intro address way' known
    obtain ⟨entry', held', of⟩ := inv.points address way' known
    rw [cache_setEntry]
    split
    next here =>
      rw [here.1, here.2, held] at held'
      cases held'
      exact ⟨_, rfl, of⟩
    next => exact ⟨entry', held', of⟩
  · intro set' way' entry' held'
    rw [cache_setEntry] at held'
    split at held'
    next here =>
      cases held'
      exact here.1 ▸ inv.placed set way entry held
    next => exact inv.placed set' way' entry' held'
  · intro set' way' entry' held' present'
    rw [cache_setEntry] at held'
    rw [tagIndex_setEntry]
    split at held'
    next here =>
      cases held'
      exact here.2 ▸ inv.indexed set way entry held present
    next => exact inv.indexed set' way' entry' held' present'

/-- **An index that is taken over is wrong**: it leads to the entry of another address. -/
theorem unpointed_of_agrees (inv : mem.Indexed) (done : mem.allocate address = .ok next) (agrees : next.Agrees) :
    mem.Unpointed address := by
  obtain ⟨line, absent, way', opened', rfl⟩ := allocate_ok done
  intro _ way entry opened held known
  obtain rfl : way' = way := Option.some.inj (opened'.symm.trans opened)
  by_contra other
  obtain ⟨lineOld, setOld⟩ := inv.placed _ _ entry held
  obtain ⟨found, looked, -, same⟩ := agrees.lookup entry.address lineOld
  have stale : CacheMemory.lookup ((mem.setEntry (g.addressToCacheSet address) way'
      (some ⟨address, .invalid⟩)).setTag address (some way')) entry.address =
      .ok (some ⟨address, .invalid⟩) := by
    rw [CacheMemory.lookup, findTagInSet, if_neg (not_not_intro lineOld), tagIndex_setTag, if_neg other,
      tagIndex_setEntry, known, setOld, cache_setTag]
    simp only [cache_setEntry_self]
    rw [if_pos (by decide)]
    exact congrArg Except.ok (cache_setEntry_self ..)
  rw [stale] at looked
  cases looked
  exact other (same _ rfl).symm

end Indexed

/-! ### Runs -/

/-- What a call leaves, where no assertion fails. -/
def act (mem : CacheMemory g) : CacheAction g → Option (CacheMemory g)
  | .allocate address => (mem.allocate address).toOption
  | .deallocate address => (mem.deallocate address).toOption
  | .cacheProbe address victim => (mem.cacheProbe address victim).toOption.map fun _ => mem
  | .changePermission set way permission => mem.changePermission set way permission

/-- The condition on a call: an `allocate` takes no way that the index still has for another address. -/
def Fresh (mem : CacheMemory g) : CacheAction g → Prop
  | .allocate address => mem.Unpointed address
  | _ => True

theorem Indexed.act (inv : mem.Indexed) {action : CacheAction g} (fresh : mem.Fresh action)
    (done : mem.act action = some next) : next.Indexed := by
  cases action with
  | allocate address => exact inv.allocate fresh (ok_of_toOption done)
  | deallocate address => exact inv.deallocate (ok_of_toOption done)
  | cacheProbe address victim =>
    obtain ⟨-, -, rfl⟩ := Option.map_eq_some_iff.mp done
    exact inv
  | changePermission set way permission => exact inv.changePermission done

/-- **The index agrees with the sets in all states of a run if and only if no `allocate` takes a way that the index
still has for another address.** -/
theorem agrees_iff (g : CacheGeometry) (actions : List (CacheAction g)) :
    (∀ passed rest final, passed ++ rest = actions → tryActions act (init g) passed = some final → final.Agrees) ↔
      MeetAll act Fresh (init g) actions := by
  refine MeetAll.iff_goal Indexed Agrees (fun _ => Indexed.agrees)
    (fun _ _ _ done inv fresh => inv.act fresh done) ?_ ?_ Indexed.init actions
  · intro mem action next done inv agrees
    cases action with
    | allocate address => exact inv.unpointed_of_agrees (ok_of_toOption done) agrees
    | _ => trivial
  · intro mem action failed
    cases action with
    | allocate address =>
      intro absent way entry opened
      rw [act, allocate_eq absent opened] at failed
      exact nomatch failed
    | _ => trivial

/-- Two sets of one way, for lines of 64 bytes. -/
def directMapped : CacheGeometry := ⟨6, 2, 1, 6, by decide⟩

/-- The entry of the first line of a set becomes `NotPresent`, and its way goes to the third line. -/
def reusedWay : List (CacheAction directMapped) :=
  [.allocate 0, .changePermission ⟨0, by decide⟩ ⟨0, by decide⟩ .notPresent, .allocate 0x80]

/-- **The index does not always agree with the sets**: the first line is found after that, in the entry of the third. -/
theorem not_agrees : ¬ ∀ (g : CacheGeometry) (actions : List (CacheAction g)) (final : CacheMemory g),
    tryActions act (init g) actions = some final → final.Agrees := by
  intro always
  have found : (tryActions act (init directMapped) reusedWay).map (fun final => final.lookup 0) =
      some (.ok (some ⟨0x80, .invalid⟩)) := by decide +kernel
  obtain ⟨final, run, looked⟩ := Option.map_eq_some_iff.mp found
  obtain ⟨entry, looked', -, same⟩ := (always directMapped reusedWay final run).lookup 0 (by decide)
  rw [looked] at looked'
  exact absurd (same _ (Except.ok.inj looked').symm) (by decide)

end CacheMemory

end Emas.Ruby

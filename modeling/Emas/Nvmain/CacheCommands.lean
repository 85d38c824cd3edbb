/-
**Commands to a cache bank.**

`CacheBank::IssueCommand`: a CACHE_READ or CACHE_WRITE takes an idle bank, and its response comes when the bank is
done. A CACHE_WRITE first makes room: if the set is full, the line of the last way is evicted, with a response of its
own. Only then it looks whether the line is there, and writes or installs it. The rest of `CacheRequest` and the owner
of the request, which are handed back with the response, are left out.

* `issueWrite_done_iff`: **in which states the command does what it is for**, in any state of the bank.
-/

import Emas.Nvmain.CacheRefinement

namespace Emas.Nvmain

open Table

variable {δ : Type}

/-! ### Commands -/

/-- `enum CacheOperation`. -/
inductive CacheOperation where
  | none
  | read
  | write
  | scrub
  | evict
  deriving DecidableEq, Repr

/-- `struct CacheRequest`. -/
structure CacheRequest (δ : Type) where
  optype : CacheOperation
  address : NVMAddress
  data : δ
  hit : Bool

/-- The bank with its timing. `busy` is `state == CACHE_BUSY`. -/
structure TimedBank (δ : Type) where
  cache : CacheBank δ
  busy : Bool
  stateTimer : Nat

/-- `readTime` and `writeTime`, besides the sets. -/
structure TimedParams extends CacheParams where
  readTime : Nat
  writeTime : Nat

/-- A response in the event queue. -/
structure CacheResponse (δ : Type) where
  cycle : Nat
  request : CacheRequest δ

namespace CacheBank

variable (params : CacheParams) (cache : CacheBank δ) (addr : NVMAddress)

/-- `Present( addr )`. -/
def present : Bool := CacheSet.present params.numAssoc addr (cache.findSet params addr)

/-- `SetFull( addr )`. -/
def setFull : Bool := CacheSet.setFull params.numAssoc (cache.findSet params addr)

/-- `ChooseVictim( addr, victim )`: the address of the last way. -/
def chooseVictim : NVMAddress := (cache.findSet params addr (params.numAssoc - 1)).address

end CacheBank

section Issue

variable [Inhabited δ] (params : TimedParams) (now : Nat)

/-- The eviction of a CACHE_WRITE: the bank after it, and what is reported. -/
def CacheBank.makeRoom (params : CacheParams) (cache : CacheBank δ) (addr : NVMAddress) :
    CacheBank δ × List (CacheRequest δ) :=
  if cache.setFull params addr then
    let victim := cache.chooseVictim params addr
    let data := (CacheSet.evict params.numAssoc victim (cache.findSet params victim)).2.elim default Prod.fst
    (cache.apply params (.evict victim), [⟨.evict, victim, data, false⟩])
  else (cache, [])

/-- The line is written, or installed if it is not there. -/
def CacheBank.store (params : CacheParams) (cache : CacheBank δ) (addr : NVMAddress) (data : δ) : CacheBank δ :=
  if cache.present params addr then cache.apply params (.write addr data)
  else cache.apply params (.install addr data)

/-- `case CACHE_READ`. -/
def TimedBank.issueRead (bank : TimedBank δ) (request : CacheRequest δ) : TimedBank δ × List (CacheResponse δ) :=
  let stateTimer := now + params.readTime
  let hit := bank.cache.present params.toCacheParams request.address
  let set := bank.cache.findSet params.toCacheParams request.address
  let cache := if hit then bank.cache.apply params.toCacheParams (.read request.address) else bank.cache
  let data := if hit then (CacheSet.read params.numAssoc request.address set).2.getD request.data else request.data
  (⟨cache, true, stateTimer⟩, [⟨stateTimer, { request with data := data, hit := hit }⟩])

/-- `case CACHE_WRITE`. -/
def TimedBank.issueWrite (bank : TimedBank δ) (request : CacheRequest δ) : TimedBank δ × List (CacheResponse δ) :=
  let stateTimer := now + params.writeTime
  let room := bank.cache.makeRoom params.toCacheParams request.address
  let hit := room.1.present params.toCacheParams request.address
  (⟨room.1.store params.toCacheParams request.address request.data, true, stateTimer⟩,
    room.2.map (CacheResponse.mk stateTimer) ++ [⟨stateTimer, { request with hit := hit }⟩])

/-- `IssueCommand( nreq )`: `none` where the assertion fails that the bank is idle; other operations are unknown. -/
def TimedBank.issueCommand (bank : TimedBank δ) (request : CacheRequest δ) :
    Option (TimedBank δ × List (CacheResponse δ)) :=
  if bank.busy then none
  else match request.optype with
    | .read => some (bank.issueRead params now request)
    | .write => some (bank.issueWrite params now request)
    | .none | .scrub | .evict => some (bank, [])

end Issue

/-! ### What a write is for -/

/-- The lines that are reported as evicted. -/
def evictions (responses : List (CacheResponse δ)) : List (NVMAddress × δ) :=
  (responses.filter (·.request.optype = .evict)).map fun response =>
    (response.request.address, response.request.data)

/-- The valid entries of some ways, but for a line. -/
def held (addr : NVMAddress) (set : CacheSet δ) (ways : List Nat) : List (CacheEntry δ) :=
  (ways.map set).filter (·.other addr)

/-- What a CACHE_WRITE is for: the line is there with the data, a line makes room exactly when the written one is new
and its set full, and all other lines stay. -/
structure WriteDone (params : CacheParams) (before : CacheBank δ) (addr : NVMAddress) (data : δ)
    (after : CacheBank δ) (evicted : List (NVMAddress × δ)) : Prop where
  present : after.present params addr = true
  written : ∀ i < params.numAssoc, (after.findSet params addr i).hit addr = true →
    (after.findSet params addr i).data = data
  hit : before.present params addr = true → evicted = [] ∧
    (others params.numAssoc addr (after.findSet params addr)).Perm
      (others params.numAssoc addr (before.findSet params addr))
  replaced : before.present params addr = false → before.setFull params addr = true →
    let last := before.findSet params addr (params.numAssoc - 1)
    evicted = [(last.address, last.data)] ∧
      CacheSet.present params.numAssoc last.address (after.findSet params addr) = false ∧
      (others params.numAssoc addr (after.findSet params addr)).Perm
        (held addr (before.findSet params addr) (List.range (params.numAssoc - 1)))
  installed : before.present params addr = false → before.setFull params addr = false → evicted = [] ∧
    (others params.numAssoc addr (after.findSet params addr)).Perm
      (others params.numAssoc addr (before.findSet params addr))
  elsewhere : ∀ row setID, ¬(row = addr.row ∧ setID = params.decodeFunc addr) →
    after.cacheEntry row setID = before.cacheEntry row setID

/-! ### Where it is done -/

/-- How often the address is at way 2 or further. -/
def hitsBehind (numAssoc : Nat) (addr : NVMAddress) (set : CacheSet δ) : Nat :=
  ((List.range numAssoc).filter fun i => decide (2 ≤ i) && (set i).hit addr).length

/-- What falls out at way 0 is what is doubled at way 1, once for each way behind at which the line is. Unless a set
holds a line twice, this says that both are nothing. -/
def WriteKeeps (numAssoc : Nat) (addr : NVMAddress) (set : CacheSet δ) : Prop :=
  (held addr set [0]).Perm (List.replicate (hitsBehind numAssoc addr set) (held addr set [1])).flatten

/-- The line of the last way belongs to the set, and is at no other way. -/
structure VictimAlone (params : CacheParams) (cache : CacheBank δ) (addr : NVMAddress) : Prop where
  row : (cache.chooseVictim params addr).row = addr.row
  set : params.decodeFunc (cache.chooseVictim params addr) = params.decodeFunc addr
  alone : ∀ k < params.numAssoc - 1, (cache.findSet params addr k).hit (cache.chooseVictim params addr) = false

/-- There are ways; a line that is there is in a set with room, and its write keeps the others; a line that is not
there finds room, or a victim that is alone. -/
structure WriteFinds (params : CacheParams) (cache : CacheBank δ) (addr : NVMAddress) : Prop where
  ways : 0 < params.numAssoc
  hit : cache.present params addr = true →
    cache.setFull params addr = false ∧ WriteKeeps params.numAssoc addr (cache.findSet params addr)
  miss : cache.present params addr = false → cache.setFull params addr = true → VictimAlone params cache addr

/-! ### Entries of some ways -/

section Held

variable {numAssoc : Nat} {addr : NVMAddress} {set set' : CacheSet δ} {ways ways' : List Nat} {i : Nat}

theorem held_append : held addr set (ways ++ ways') = held addr set ways ++ held addr set ways' := by
  unfold held
  rw [List.map_append, List.filter_append]

theorem held_cons (i : Nat) (ways : List Nat) :
    held addr set (i :: ways) = held addr set [i] ++ held addr set ways := by
  rw [← held_append, List.singleton_append]

theorem held_congr (same : ∀ i ∈ ways, set' i = set i) : held addr set' ways = held addr set ways := by
  unfold held
  rw [List.map_congr_left same]

theorem held_hit (here : (set i).hit addr = true) : held addr set [i] = [] := by
  obtain ⟨physical, -⟩ := CacheSet.hit_iff.mp here
  simp [held, CacheEntry.other, physical]

theorem held_cons_hit (here : (set i).hit addr = true) (ways : List Nat) :
    held addr set (i :: ways) = held addr set ways := by
  rw [held_cons, held_hit here, List.nil_append]

theorem held_invalid (free : (set i).valid = false) : held addr set [i] = [] := by
  simp [held, CacheEntry.other, free]

theorem held_congr_but (same : ∀ k, k ≠ i → set' k = set k) (none' : held addr set' [i] = [])
    (none : held addr set [i] = []) (ways : List Nat) : held addr set' ways = held addr set ways := by
  induction ways with
  | nil => rfl
  | cons k rest ih =>
    rw [held_cons, held_cons k rest, ih]
    by_cases here : k = i
    · rw [here, none', none]
    · rw [held_congr fun j member => List.mem_singleton.mp member ▸ same k here]

/-- The ways but the first one. -/
def behindFront (numAssoc : Nat) : List Nat := List.range' 1 (numAssoc - 1)

theorem others_eq_held : others numAssoc addr set = held addr set (List.range numAssoc) := rfl

theorem others_front (positive : 0 < numAssoc) :
    others numAssoc addr set = held addr set [0] ++ held addr set (behindFront numAssoc) := by
  rw [others_eq_held, ← held_cons, behindFront, List.range_eq_range']
  obtain ⟨rest, rfl⟩ := Nat.exists_eq_add_of_lt positive
  rw [show 0 + rest + 1 = rest + 1 by omega, List.range'_succ]
  rfl

theorem others_last (positive : 0 < numAssoc) :
    others numAssoc addr set = held addr set (List.range (numAssoc - 1)) ++ held addr set [numAssoc - 1] := by
  rw [← held_append, ← List.range_succ, Nat.succ_eq_add_one, Nat.sub_add_cancel positive, others_eq_held]

end Held

/-! ### The loop of `Write` -/

section Loop

open CacheSet

variable {numAssoc : Nat} {addr : NVMAddress} {data : δ} {set current : CacheSet δ} {i : Nat}

theorem behindFront_cut {front : Nat} (inside : front + 2 < numAssoc) : behindFront numAssoc =
    List.range' 1 (front + 1) ++ (front + 2) :: List.range' (front + 3) (numAssoc - (front + 3)) := by
  obtain ⟨rest, rfl⟩ := Nat.exists_eq_add_of_lt inside
  have cut : List.range' (front + 2) (rest + 1) = (front + 2) :: List.range' (front + 3) rest := List.range'_succ ..
  rw [behindFront, show front + 2 + rest + 1 - 1 = front + 1 + (rest + 1) by omega, ← List.range'_append_1,
    show 1 + (front + 1) = front + 2 by omega, show front + 2 + rest + 1 - (front + 3) = rest by omega, cut]

theorem behindFront_shift {front : Nat} (inside : front + 2 < numAssoc) : behindFront numAssoc =
    1 :: ((List.range' 1 (front + 1)).map (· + 1) ++ List.range' (front + 3) (numAssoc - (front + 3))) := by
  obtain ⟨rest, rfl⟩ := Nat.exists_eq_add_of_lt inside
  have up : (List.range' 1 (front + 1)).map (· + 1) = List.range' 2 (front + 1) := by
    rw [List.range'_eq_map_range, List.range'_eq_map_range, List.map_map]
    exact List.map_congr_left fun k _ => by simp only [Function.comp_apply]; omega
  rw [up, behindFront, show front + 2 + rest + 1 - 1 = front + 1 + rest + 1 by omega, List.range'_succ,
    ← List.range'_append_1, show 1 + 1 + (front + 1) = front + 3 by omega,
    show front + 2 + rest + 1 - (front + 3) = rest by omega]

theorem held_moveToFront (inside : i < numAssoc) (here : (current i).hit addr = true) :
    held addr (moveToFront (overwrite data current i) 1 i) (behindFront numAssoc) =
      (if 2 ≤ i then held addr current [1] else []) ++ held addr current (behindFront numAssoc) := by
  have away : ∀ k, i < k → moveToFront (overwrite data current i) 1 i k = current k := by
    intro k above
    rw [moveToFront_of_gt 1 above, overwrite_of_ne (by omega)]
  have behind : ∀ k ∈ behindFront numAssoc, 1 ≤ k := fun k member => (List.mem_range'_1.mp member).1
  obtain rfl | rfl | far : i = 0 ∨ i = 1 ∨ 2 ≤ i := by omega
  · -- the line was in front: nothing is shifted
    rw [if_neg (by omega), List.nil_append]
    exact held_congr fun k member => away k (behind k member)
  · -- the line stays at way 1, and is in front too
    rw [if_neg (by omega), List.nil_append]
    have second : (moveToFront (overwrite data current 1) 1 1 1).hit addr = true := by
      rw [moveToFront_overwrite_apply, if_neg (by omega), if_neg (by omega), overwrite, set1_self]
      exact here
    unfold behindFront
    rw [show numAssoc - 1 = numAssoc - 2 + 1 by omega, List.range'_succ, held_cons_hit second, held_cons_hit here]
    exact held_congr fun k member => away k (List.mem_range'_1.mp member).1
  · -- way 1 keeps its place, and is copied to way 2
    rw [if_pos far]
    obtain ⟨front, rfl⟩ : ∃ front, i = front + 2 := ⟨i - 2, by omega⟩
    have kept : held addr (moveToFront (overwrite data current (front + 2)) 1 (front + 2)) [1] =
        held addr current [1] := by
      refine held_congr fun k member => ?_
      rw [List.mem_singleton.mp member, moveToFront_overwrite_apply, if_neg (by omega), if_neg (by omega),
        overwrite_of_ne (by omega)]
    have shifted : held addr (moveToFront (overwrite data current (front + 2)) 1 (front + 2))
        ((List.range' 1 (front + 1)).map (· + 1)) = held addr current (List.range' 1 (front + 1)) := by
      unfold held
      rw [List.map_map]
      refine congrArg (List.filter _) (List.map_congr_left fun k member => ?_)
      obtain ⟨low, high⟩ := List.mem_range'_1.mp member
      rw [Function.comp_apply, moveToFront_overwrite_apply, if_neg (by omega), if_pos (by omega),
        Nat.add_sub_cancel, overwrite_of_ne (by omega)]
    have still : held addr (moveToFront (overwrite data current (front + 2)) 1 (front + 2))
        (List.range' (front + 3) (numAssoc - (front + 3))) =
        held addr current (List.range' (front + 3) (numAssoc - (front + 3))) :=
      held_congr fun k member => away k (List.mem_range'_1.mp member).1
    conv_lhs => rw [behindFront_shift inside, held_cons, held_append, kept, shifted, still]
    rw [behindFront_cut inside, held_append, held_cons_hit here]

/-- The loop after the ways below `j`, from `set`. -/
structure WriteLoop (numAssoc : Nat) (addr : NVMAddress) (data : δ) (set : CacheSet δ) (j : Nat)
    (current : CacheSet δ) : Prop where
  behind : ∀ k, j ≤ k → current k = set k
  second : held addr current [1] = held addr set [1]
  front : ∀ k < j, (set k).hit addr = true → (current 0).hit addr = true
  data : ∀ k < j, (current k).hit addr = true → (current k).data = data
  others : held addr current (behindFront numAssoc) =
    (List.replicate (hitsBehind j addr set) (held addr set [1])).flatten ++ held addr set (behindFront numAssoc)

theorem WriteLoop.start : WriteLoop numAssoc addr data set 0 set :=
  ⟨fun _ _ => rfl, rfl, nofun, nofun, rfl⟩

theorem hitsBehind_succ (j : Nat) : hitsBehind (j + 1) addr set =
    hitsBehind j addr set + if 2 ≤ j ∧ (set j).hit addr = true then 1 else 0 := by
  unfold hitsBehind
  rw [List.range_succ, List.filter_append, List.length_append, List.filter_singleton]
  by_cases counts : 2 ≤ j ∧ (set j).hit addr = true
  · simp [counts.1, counts.2]
  · have passed : (decide (2 ≤ j) && (set j).hit addr) = false := by simpa using counts
    rw [if_neg counts, passed]
    rfl

theorem WriteLoop.miss {j : Nat} (loop : WriteLoop numAssoc addr data set j current)
    (missed : (current j).hit addr = false) : WriteLoop numAssoc addr data set (j + 1) current := by
  have original : (set j).hit addr = false := loop.behind j (Nat.le_refl j) ▸ missed
  refine ⟨fun k above => loop.behind k (by omega), loop.second, fun k below here => ?_, fun k below here => ?_, ?_⟩
  · rcases Nat.lt_or_eq_of_le (Nat.le_of_lt_succ below) with earlier | rfl
    · exact loop.front k earlier here
    · rw [original] at here
      cases here
  · rcases Nat.lt_or_eq_of_le (Nat.le_of_lt_succ below) with earlier | rfl
    · exact loop.data k earlier here
    · rw [missed] at here
      cases here
  · rw [hitsBehind_succ, if_neg (by simp [original]), Nat.add_zero]
    exact loop.others

theorem WriteLoop.hit {j : Nat} (loop : WriteLoop numAssoc addr data set j current) (inside : j < numAssoc)
    (here : (current j).hit addr = true) :
    WriteLoop numAssoc addr data set (j + 1) (moveToFront (overwrite data current j) 1 j) := by
  have original : (set j).hit addr = true := loop.behind j (Nat.le_refl j) ▸ here
  have own : (overwrite data current j j).hit addr = true ∧ (overwrite data current j j).data = data := by
    rw [overwrite, set1_self]
    exact ⟨here, rfl⟩
  refine ⟨fun k above => ?_, ?_, fun _ _ _ => ?_, fun k below found => ?_, ?_⟩
  · rw [moveToFront_of_gt 1 (by omega), overwrite_of_ne (by omega)]
    exact loop.behind k (by omega)
  · rw [← loop.second]
    by_cases atOne : j = 1
    · subst atOne
      rw [held_hit here]
      refine held_hit ?_
      rw [moveToFront_overwrite_apply, if_neg (by omega), if_neg (by omega)]
      exact own.1
    · refine held_congr fun k member => ?_
      rw [List.mem_singleton.mp member, moveToFront_overwrite_apply, if_neg (by omega), if_neg (by omega),
        overwrite_of_ne (Ne.symm atOne)]
  · rw [moveToFront_zero]
    exact own.1
  · rw [moveToFront_overwrite_apply] at found ⊢
    split
    · exact own.2
    · rename_i behind
      rw [if_neg behind] at found
      split
      · rename_i shifted
        rw [if_pos shifted, overwrite_of_ne (by omega)] at found
        rw [overwrite_of_ne (by omega)]
        exact loop.data (k - 1) (by omega) found
      · rename_i still
        rw [if_neg still] at found
        by_cases last : k = j
        · rw [last]
          exact own.2
        · rw [overwrite_of_ne last] at found ⊢
          exact loop.data k (by omega) found
  · rw [held_moveToFront inside here, loop.others, loop.second, hitsBehind_succ]
    by_cases far : 2 ≤ j
    · rw [if_pos far, if_pos ⟨far, original⟩, List.replicate_succ, List.flatten_cons, List.append_assoc]
    · rw [if_neg far, if_neg fun both => far both.1, List.nil_append, Nat.add_zero]

variable (numAssoc addr data set) in
/-- **The loop of `Write`**, over any set: a line at several ways is written at each of them. -/
theorem writeLoop_write : WriteLoop numAssoc addr data set numAssoc (write numAssoc addr data set).1 := by
  have passed : ∀ j ≤ numAssoc, WriteLoop numAssoc addr data set j
      ((List.range j).foldl (fun (state : CacheSet δ × Bool) i =>
        if (state.1 i).hit addr then (moveToFront (overwrite data state.1 i) 1 i, true) else state)
        (set, false)).1 := by
    intro j bound
    induction j with
    | zero => exact .start
    | succ j ih =>
      have loop := ih (by omega)
      rw [List.range_succ, List.foldl_append, List.foldl_cons, List.foldl_nil]
      split
      · rename_i here
        exact loop.hit (by omega) here
      · rename_i missed
        exact loop.miss (Bool.eq_false_iff.mpr missed)
  exact passed numAssoc (Nat.le_refl numAssoc)

/-- **The other lines after a write** are those behind way 0, and copies of the one at way 1. -/
theorem written_others (present : CacheSet.present numAssoc addr set = true) :
    others numAssoc addr (write numAssoc addr data set).1 =
      (List.replicate (hitsBehind numAssoc addr set) (held addr set [1])).flatten ++
        held addr set (behindFront numAssoc) := by
  obtain ⟨k, member, here⟩ := List.any_eq_true.mp present
  have inside := List.mem_range.mp member
  have loop := writeLoop_write numAssoc addr data set
  rw [others_front (by omega), held_hit (loop.front k inside here), List.nil_append, loop.others]

theorem written_others_perm_iff (present : CacheSet.present numAssoc addr set = true) :
    (others numAssoc addr (write numAssoc addr data set).1).Perm (others numAssoc addr set) ↔
      WriteKeeps numAssoc addr set := by
  obtain ⟨k, member, -⟩ := List.any_eq_true.mp present
  have inside := List.mem_range.mp member
  rw [written_others present, others_front (by omega), List.perm_append_right_iff]
  exact List.perm_comm

end Loop

/-! ### Making room and installing -/

namespace CacheSet

variable {numAssoc : Nat} {addr : NVMAddress} {data : δ} {set : CacheSet δ} {i k : Nat}

theorem present_iff : present numAssoc addr set = true ↔ ∃ k < numAssoc, (set k).hit addr = true := by
  simp [present]

theorem absent_iff : present numAssoc addr set = false ↔ ∀ k < numAssoc, (set k).hit addr = false := by
  simp [present]

theorem setFull_iff : setFull numAssoc set = true ↔ ∀ k < numAssoc, (set k).valid = true := by
  simp [setFull]

theorem install_eq_of_first (free : (set i).valid = false) (inside : i < numAssoc)
    (before : ∀ k < i, (set k).valid = true) :
    install numAssoc addr data set =
      (set1 set i { set i with address := addr, data := data, valid := true }, true) := by
  have first : (List.range numAssoc).find? (fun i => !(set i).valid) = some i := by
    refine List.find?_range_eq_some.mpr ⟨?_, List.mem_range.mpr inside, fun k below => ?_⟩
    · rw [free]
      rfl
    · rw [before k below]
      rfl
  unfold install
  rw [first]

theorem exists_first_free (room : setFull numAssoc set = false) :
    ∃ i < numAssoc, (set i).valid = false ∧ ∀ k < i, (set k).valid = true := by
  cases first : (List.range numAssoc).find? (fun i => !(set i).valid) with
  | none =>
    have full : setFull numAssoc set = true := setFull_iff.mpr fun k inside => by
      simpa using List.find?_range_eq_none.mp first k inside
    rw [full] at room
    cases room
  | some i =>
    obtain ⟨free, member, before⟩ := List.find?_range_eq_some.mp first
    exact ⟨i, List.mem_range.mp member, by simpa using free, fun k below => by simpa using before k below⟩

theorem install_of_full (full : setFull numAssoc set = true) : (install numAssoc addr data set).1 = set := by
  have none : (List.range numAssoc).find? (fun i => !(set i).valid) = none :=
    List.find?_range_eq_none.mpr fun k inside => by rw [setFull_iff.mp full k inside]; rfl
  unfold install
  rw [none]

theorem install_of_valid (valid : (set k).valid = true) : (install numAssoc addr data set).1 k = set k := by
  unfold install
  split
  · rename_i i first
    have free : (!(set i).valid) = true := List.find?_some (p := fun i => !(set i).valid) first
    refine set1_of_ne _ _ fun same => ?_
    rw [← same, valid] at free
    cases free
  · rfl

variable (numAssoc) in
theorem evict_of_earlier (here : (set i).hit addr = true) (earlier : i < k) :
    (evict numAssoc addr set).1 k = set k := by
  unfold evict
  split
  · rename_i j first
    obtain ⟨-, -, before⟩ := List.find?_range_eq_some.mp first
    refine set1_of_ne _ _ fun same => ?_
    have missed := before i (by omega)
    rw [here] at missed
    cases missed
  · rfl

theorem hit_of_evict {victim : NVMAddress} (here : ((evict numAssoc victim set).1 k).hit addr = true) :
    (set k).hit addr = true := by
  unfold evict at here
  split at here
  · dsimp only at here
    rw [set1_apply] at here
    split at here
    · simp [CacheEntry.hit] at here
    · exact here
  · exact here

variable (data) in
theorem install_spec (absent : present numAssoc addr set = false) (free : (set i).valid = false)
    (inside : i < numAssoc) (before : ∀ k < i, (set k).valid = true) :
    (∀ k, (install numAssoc addr data set).1 k =
        if k = i then { set i with address := addr, data := data, valid := true } else set k) ∧
      present numAssoc addr (install numAssoc addr data set).1 = true ∧
      (∀ k < numAssoc, ((install numAssoc addr data set).1 k).hit addr = true →
        ((install numAssoc addr data set).1 k).data = data) ∧
      others numAssoc addr (install numAssoc addr data set).1 = others numAssoc addr set := by
  have ways : ∀ k, (install numAssoc addr data set).1 k =
      if k = i then { set i with address := addr, data := data, valid := true } else set k := by
    intro k
    rw [install_eq_of_first free inside before]
    exact set1_apply ..
  have own : ((install numAssoc addr data set).1 i).hit addr = true := by
    rw [ways, if_pos rfl]
    exact hit_iff.mpr ⟨rfl, rfl⟩
  refine ⟨ways, present_iff.mpr ⟨i, inside, own⟩, fun k small here => ?_, ?_⟩
  · rw [ways] at here ⊢
    split
    · rfl
    · rename_i away
      rw [if_neg away, absent_iff.mp absent k small] at here
      cases here
  · exact held_congr_but (fun k away => (ways k).trans (if_neg away)) (held_hit own) (held_invalid free) _

end CacheSet

/-! ### The command on its set -/

section Store

open CacheSet

variable {params : CacheParams} {cache : CacheBank δ} {addr : NVMAddress} {data : δ} {op : CacheOp δ}

theorem findSet_apply (row : addr.row = op.addr.row) (set : params.decodeFunc addr = params.decodeFunc op.addr) :
    (cache.apply params op).findSet params addr = op.onSet params.numAssoc (cache.findSet params op.addr) :=
  if_pos ⟨row, set⟩

theorem findSet_apply_of_ne (other : ¬(addr.row = op.addr.row ∧ params.decodeFunc addr = params.decodeFunc op.addr)) :
    (cache.apply params op).findSet params addr = cache.findSet params addr := if_neg other

theorem store_of_hit (present : cache.present params addr = true) :
    cache.store params addr data = cache.apply params (.write addr data) := if_pos present

theorem store_of_miss (absent : cache.present params addr = false) :
    cache.store params addr data = cache.apply params (.install addr data) := if_neg (by rw [absent]; nofun)

theorem writeDone_hit_iff (present : cache.present params addr = true) :
    WriteDone params cache addr data (cache.apply params (.write addr data)) [] ↔
      WriteKeeps params.numAssoc addr (cache.findSet params addr) := by
  have after : (cache.apply params (.write addr data)).findSet params addr =
      (CacheSet.write params.numAssoc addr data (cache.findSet params addr)).1 := findSet_apply rfl rfl
  have loop := writeLoop_write params.numAssoc addr data (cache.findSet params addr)
  constructor
  · intro done
    have kept := (done.hit present).2
    rw [after] at kept
    exact (written_others_perm_iff present).mp kept
  · intro keeps
    refine ⟨?_, fun i inside here => ?_, fun _ => ⟨rfl, ?_⟩, fun absent => ?_, fun absent => ?_,
      fun row setID other => if_neg other⟩
    · obtain ⟨k, inside, here⟩ := present_iff.mp present
      unfold CacheBank.present
      rw [after]
      exact present_iff.mpr ⟨0, by omega, loop.front k inside here⟩
    · rw [after] at here ⊢
      exact loop.data i inside here
    · rw [after]
      exact (written_others_perm_iff present).mpr keeps
    · exact absurd (present.symm.trans absent) nofun
    · exact absurd (present.symm.trans absent) nofun

theorem writeDone_miss (absent : cache.present params addr = false) (room : cache.setFull params addr = false) :
    WriteDone params cache addr data (cache.apply params (.install addr data)) [] := by
  have after : (cache.apply params (.install addr data)).findSet params addr =
      (CacheSet.install params.numAssoc addr data (cache.findSet params addr)).1 := findSet_apply rfl rfl
  obtain ⟨i, inside, free, before⟩ := exists_first_free room
  obtain ⟨-, present, written, kept⟩ := install_spec data absent free inside before
  refine ⟨?_, fun k small here => ?_, fun present => ?_, fun _ full => ?_, fun _ _ => ⟨rfl, ?_⟩,
    fun row setID other => if_neg other⟩
  · unfold CacheBank.present
    rwa [after]
  · rw [after] at here ⊢
    exact written k small here
  · exact absurd (present.symm.trans absent) nofun
  · exact absurd (full.symm.trans room) nofun
  · rw [after, kept]

theorem makeRoom_of_full [Inhabited δ] (full : cache.setFull params addr = true) :
    cache.makeRoom params addr = (cache.apply params (.evict (cache.chooseVictim params addr)),
      [⟨.evict, cache.chooseVictim params addr, (CacheSet.evict params.numAssoc (cache.chooseVictim params addr)
        (cache.findSet params (cache.chooseVictim params addr))).2.elim default Prod.fst, false⟩]) := if_pos full

theorem makeRoom_of_room [Inhabited δ] (room : cache.setFull params addr = false) :
    cache.makeRoom params addr = (cache, []) := if_neg (by rw [room]; nofun)

theorem writeDone_of_victimAlone [Inhabited δ] (absent : cache.present params addr = false)
    (full : cache.setFull params addr = true) (positive : 0 < params.numAssoc)
    (victim : VictimAlone params cache addr) :
    WriteDone params cache addr data ((cache.makeRoom params addr).1.store params addr data)
      ((cache.makeRoom params addr).2.map fun request => (request.address, request.data)) := by
  have last : HitAt params.numAssoc (cache.chooseVictim params addr) (cache.findSet params addr)
      (params.numAssoc - 1) := by
    refine ⟨by omega, hit_iff.mpr ⟨rfl, setFull_iff.mp full _ (by omega)⟩, fun k small here => ?_⟩
    by_contra other
    rw [victim.alone k (by omega)] at here
    cases here
  have own : cache.findSet params (cache.chooseVictim params addr) = cache.findSet params addr := by
    unfold CacheBank.findSet
    rw [victim.row, victim.set]
  have apart : (cache.chooseVictim params addr).physical ≠ addr.physical := by
    intro same
    have missed := absent_iff.mp absent _ last.inside
    rw [hit_iff.mpr ⟨same, last.valid⟩] at missed
    cases missed
  -- the set without the last line, and with the new one in its place
  have room : (cache.apply params (.evict (cache.chooseVictim params addr))).findSet params addr =
      set1 (cache.findSet params addr) (params.numAssoc - 1)
        { cache.findSet params addr (params.numAssoc - 1) with valid := false, dirty := false } := by
    rw [findSet_apply victim.row.symm victim.set.symm]
    show (CacheSet.evict params.numAssoc (cache.chooseVictim params addr)
      (cache.findSet params (cache.chooseVictim params addr))).1 = _
    rw [own, last.evict_eq]
  have others' : ∀ k, k ≠ params.numAssoc - 1 →
      (cache.apply params (.evict (cache.chooseVictim params addr))).findSet params addr k =
        cache.findSet params addr k := fun k other => by
    rw [room, set1_of_ne _ _ other]
  have free : ((cache.apply params (.evict (cache.chooseVictim params addr))).findSet params addr
      (params.numAssoc - 1)).valid = false := by
    rw [room, set1_self]
  have missing : (cache.apply params (.evict (cache.chooseVictim params addr))).present params addr = false := by
    refine absent_iff.mpr fun k small => ?_
    by_cases atLast : k = params.numAssoc - 1
    · simp [atLast, CacheEntry.hit, free]
    · rw [others' k atLast]
      exact absent_iff.mp absent k small
  obtain ⟨ways, present, written, kept⟩ := install_spec data missing free last.inside fun k below => by
    rw [others' k (by omega)]
    exact setFull_iff.mp full k (by omega)
  rw [makeRoom_of_full full, store_of_miss missing]
  have after : ((cache.apply params (.evict (cache.chooseVictim params addr))).apply params
      (.install addr data)).findSet params addr = (CacheSet.install params.numAssoc addr data
        ((cache.apply params (.evict (cache.chooseVictim params addr))).findSet params addr)).1 :=
    findSet_apply rfl rfl
  refine ⟨?_, fun k small here => ?_, fun present => ?_, fun _ _ => ⟨?_, ?_, ?_⟩, fun _ room => ?_,
    fun row setID other => ?_⟩
  · unfold CacheBank.present
    rwa [after]
  · rw [after] at here ⊢
    exact written k small here
  · rw [absent] at present
    cases present
  · rw [List.map_singleton, own, last.evict_eq]
    rfl
  · refine absent_iff.mpr fun k small => ?_
    rw [after, ways]
    split
    · exact Bool.and_eq_false_iff.mpr (.inl (beq_eq_false_iff_ne.mpr (Ne.symm apart)))
    · rename_i other
      rw [others' k other]
      exact victim.alone k (by omega)
  · rw [after, kept, others_last positive, held_invalid free, List.append_nil,
      held_congr fun k member => others' k (List.mem_range.mp member).ne]
  · rw [full] at room
    cases room
  · refine (if_neg other).trans (if_neg fun same => other ?_)
    exact ⟨same.1.trans victim.row, same.2.trans victim.set⟩

theorem WriteDone.victimAlone [Inhabited δ] {evicted : List (NVMAddress × δ)}
    (absent : cache.present params addr = false) (full : cache.setFull params addr = true)
    (done : WriteDone params cache addr data ((cache.makeRoom params addr).1.store params addr data) evicted) :
    VictimAlone params cache addr := by
  rw [makeRoom_of_full full] at done
  have gone := (done.replaced absent full).2.1
  obtain ⟨way, small, -⟩ := present_iff.mp done.present
  have stored : ∀ {room : CacheBank δ}, room.present params addr = false →
      (room.store params addr data).findSet params addr =
        (CacheSet.install params.numAssoc addr data (room.findSet params addr)).1 := fun missing => by
    rw [store_of_miss missing]
    exact findSet_apply rfl rfl
  have home : addr.row = (cache.chooseVictim params addr).row ∧
      params.decodeFunc addr = params.decodeFunc (cache.chooseVictim params addr) := by
    -- a victim of another set leaves this one full, and nothing is installed
    by_contra other
    have still : (cache.apply params (.evict (cache.chooseVictim params addr))).findSet params addr =
        cache.findSet params addr := findSet_apply_of_ne other
    have present := done.present
    unfold CacheBank.present at present
    rw [stored (by unfold CacheBank.present; rw [still]; exact absent), still, install_of_full full] at present
    exact absurd (present.symm.trans absent) nofun
  refine ⟨home.1.symm, home.2.symm, fun k below => Bool.eq_false_iff.mpr fun here => ?_⟩
  -- an earlier way is evicted, and the last one is still there
  have room : (cache.apply params (.evict (cache.chooseVictim params addr))).findSet params addr =
      (CacheSet.evict params.numAssoc (cache.chooseVictim params addr) (cache.findSet params addr)).1 := by
    rw [findSet_apply home.1 home.2]
    unfold CacheBank.findSet
    rw [home.1, home.2]
    rfl
  have last := evict_of_earlier params.numAssoc here below
  have valid := setFull_iff.mp full (params.numAssoc - 1) (by omega)
  rw [stored ?_] at gone
  · have missed := absent_iff.mp gone (params.numAssoc - 1) (by omega)
    rw [install_of_valid (by rw [room, last, valid]), room, last, hit_iff.mpr ⟨rfl, valid⟩] at missed
    cases missed
  · refine absent_iff.mpr fun j inside => Bool.eq_false_iff.mpr fun found => ?_
    rw [room] at found
    have missed := absent_iff.mp absent j inside
    rw [hit_of_evict found] at missed
    cases missed

/-- **A CACHE_WRITE on the cache**, with what it evicts. -/
theorem store_done_iff [Inhabited δ] (params : CacheParams) (cache : CacheBank δ) (addr : NVMAddress) (data : δ) :
    WriteDone params cache addr data ((cache.makeRoom params addr).1.store params addr data)
        ((cache.makeRoom params addr).2.map fun request => (request.address, request.data)) ↔
      WriteFinds params cache addr := by
  cases full : cache.setFull params addr with
  | true =>
    cases present : cache.present params addr with
    | true =>
      refine ⟨fun done => ?_, fun finds => ?_⟩
      · -- a line is evicted although the written one is there
        have none := (done.hit present).1
        rw [makeRoom_of_full full] at none
        cases none
      · exact absurd (full.symm.trans (finds.hit present).1) nofun
    | false =>
      refine ⟨fun done => ?_, fun finds => writeDone_of_victimAlone present full finds.ways (finds.miss present full)⟩
      obtain ⟨way, small, -⟩ := present_iff.mp done.present
      refine ⟨Nat.zero_lt_of_lt small, fun here => absurd (here.symm.trans present) nofun, fun _ _ => ?_⟩
      exact done.victimAlone present full
  | false =>
    obtain ⟨way, small, -⟩ := exists_first_free full
    rw [makeRoom_of_room full]
    cases present : cache.present params addr with
    | true =>
      rw [store_of_hit present, List.map_nil, writeDone_hit_iff present]
      refine ⟨fun keeps => ⟨Nat.zero_lt_of_lt small, fun _ => ⟨full, keeps⟩, fun absent => ?_⟩,
        fun finds => (finds.hit present).2⟩
      exact absurd (present.symm.trans absent) nofun
    | false =>
      rw [store_of_miss present, List.map_nil]
      refine ⟨fun _ => ⟨Nat.zero_lt_of_lt small, fun here => ?_, fun _ full' => ?_⟩,
        fun _ => writeDone_miss present full⟩
      · exact absurd (here.symm.trans present) nofun
      · exact absurd (full'.symm.trans full) nofun

theorem evictions_issueWrite [Inhabited δ] {params : TimedParams} {now : Nat} {bank : TimedBank δ}
    {request : CacheRequest δ} (write : request.optype = .write) :
    evictions (bank.issueWrite params now request).2 =
      (bank.cache.makeRoom params.toCacheParams request.address).2.map fun request =>
        (request.address, request.data) := by
  unfold TimedBank.issueWrite evictions
  cases full : bank.cache.setFull params.toCacheParams request.address with
  | true =>
    rw [makeRoom_of_full full]
    simp [write]
  | false =>
    rw [makeRoom_of_room full]
    simp [write]

end Store

/-- **When a CACHE_WRITE does what it is for**, whatever the sets hold: there are ways; and if the line is there, its
set has room, and what falls out at way 0 is what is doubled at way 1 (as a rule, neither way holds another line); and
if it is not there and its set full, the victim belongs to the set and is at no other way. -/
theorem issueWrite_done_iff [Inhabited δ] (params : TimedParams) (now : Nat) (bank after : TimedBank δ)
    (request : CacheRequest δ) (responses : List (CacheResponse δ)) (write : request.optype = .write)
    (issued : bank.issueCommand params now request = some (after, responses)) :
    WriteDone params.toCacheParams bank.cache request.address request.data after.cache (evictions responses) ↔
      WriteFinds params.toCacheParams bank.cache request.address := by
  unfold TimedBank.issueCommand at issued
  rw [write] at issued
  split at issued
  · cases issued
  · obtain ⟨rfl, rfl⟩ := Prod.ext_iff.mp (Option.some.inj issued)
    rw [evictions_issueWrite write]
    exact store_done_iff params.toCacheParams bank.cache request.address request.data

/-- Lines 1 and 2 in the set, at ways 0 and 1. -/
def twoLines : TimedBank Nat :=
  ⟨[CacheOp.install (lineAddr 1) 10, .install (lineAddr 2) 20].foldl (CacheBank.apply ⟨2, fun _ => 0⟩)
    (CacheBank.create (lineAddr 0) 0), false, 0⟩

def writeLine (physical data : Nat) : CacheRequest Nat := ⟨.write, lineAddr physical, data, false⟩

/-- Sets of some ways, with the times of the constructor. -/
def smallSets (numAssoc : Nat) : TimedParams := ⟨⟨numAssoc, fun _ => 0⟩, 1, 1⟩

theorem issueWrite_done_newLine :
    WriteDone (smallSets 2).toCacheParams twoLines.cache (lineAddr 3) 30
      (twoLines.issueWrite (smallSets 2) 5 (writeLine 3 30)).1.cache [(lineAddr 2, 20)] := by
  refine (issueWrite_done_iff (smallSets 2) 5 twoLines _ (writeLine 3 30) _ rfl rfl).mpr
    ⟨by decide, fun present => ?_, fun _ _ => ⟨rfl, rfl, by decide⟩⟩
  exact absurd present (by decide)

/-- **A line is evicted for one that is there**, as the set is full. **With room, the write of a line at way 1 loses
the line at way 0.** -/
theorem write_loses_other_line :
    evictions (twoLines.issueWrite (smallSets 2) 5 (writeLine 1 11)).2 = [(lineAddr 2, 20)] ∧
      ¬WriteDone (smallSets 2).toCacheParams twoLines.cache (lineAddr 1) 11
        (twoLines.issueWrite (smallSets 2) 5 (writeLine 1 11)).1.cache
        (evictions (twoLines.issueWrite (smallSets 2) 5 (writeLine 1 11)).2) ∧
      ¬WriteDone (smallSets 4).toCacheParams twoLines.cache (lineAddr 2) 21
        (twoLines.issueWrite (smallSets 4) 5 (writeLine 2 21)).1.cache
        (evictions (twoLines.issueWrite (smallSets 4) 5 (writeLine 2 21)).2) := by
  refine ⟨by decide, fun done => ?_, fun done => ?_⟩
  · exact absurd (done.hit (by decide)).1 (by decide)
  · exact absurd (done.hit (by decide)).2.length_eq (by decide)

end Emas.Nvmain

/-
**Store sets.**

`StoreSet` of `cpu/o3/store_set.cc` predicts which load depends on which store. The `SSIT` gives the set of an
instruction by its address, the `LFST` the last store of a set, and `storeList` the stores on their way, the youngest
first.
-/

import Emas.Lib.PartialRun
import Emas.Lib.SortedMap

namespace Emas.Gem5

/-- The arguments of the constructor. -/
structure StoreSetParams where
  clearPeriod : BitVec 64
  SSITSize : Nat
  LFSTSize : Nat
  SSIT_pos : 0 < SSITSize
  LFST_pos : 0 < LFSTSize
  deriving DecidableEq, Repr

/-- `class StoreSet`. -/
structure StoreSet where
  SSIT : Nat → Nat
  validSSIT : Nat → Bool
  LFST : Nat → Nat
  validLFST : Nat → Bool
  storeList : SortedMap Natᵒᵈ Nat
  memOpsPred : BitVec 32

namespace StoreSet

variable (params : StoreSetParams) (set : StoreSet)

/-- `StoreSet( clear_period, SSIT_size, LFST_size )`. -/
def init : StoreSet := ⟨fun _ => 0, fun _ => false, fun _ => 0, fun _ => false, .empty, 0⟩

def calcIndex (PC : BitVec 64) : Nat := (PC >>> 2 &&& BitVec.ofNat 64 (params.SSITSize - 1)).toNat

def calcSSID (PC : BitVec 64) : Nat := (PC ^^^ PC >>> 10).toNat % params.LFSTSize

def clear : StoreSet :=
  { set with
    validSSIT := fun i => if i < params.SSITSize then false else set.validSSIT i
    validLFST := fun i => if i < params.LFSTSize then false else set.validLFST i
    storeList := .empty }

/-- `checkClear( )`. The counter is an `int`, which is extended for the comparison. -/
def checkClear : StoreSet :=
  let memOpsPred := set.memOpsPred + 1
  if params.clearPeriod < memOpsPred.signExtend 64 then { set.clear params with memOpsPred := 0 }
  else { set with memOpsPred := memOpsPred }

/-- `violation( store_PC, load_PC )`, or nothing where an assertion fails. -/
def violation (storePC loadPC : BitVec 64) : Option StoreSet :=
  let loadIndex := calcIndex params loadPC
  let storeIndex := calcIndex params storePC
  if loadIndex < params.SSITSize ∧ storeIndex < params.SSITSize then
    match set.validSSIT loadIndex, set.validSSIT storeIndex with
    | false, false =>
      let newSet := calcSSID params loadPC
      if newSet < params.LFSTSize then
        some { set with
          validSSIT := Function.update (Function.update set.validSSIT loadIndex true) storeIndex true
          SSIT := Function.update (Function.update set.SSIT loadIndex newSet) storeIndex newSet }
      else none
    | true, false =>
      let loadSSID := set.SSIT loadIndex
      if loadSSID < params.LFSTSize then
        some { set with
          validSSIT := Function.update set.validSSIT storeIndex true
          SSIT := Function.update set.SSIT storeIndex loadSSID }
      else none
    | false, true =>
      let storeSSID := set.SSIT storeIndex
      some { set with
        validSSIT := Function.update set.validSSIT loadIndex true
        SSIT := Function.update set.SSIT loadIndex storeSSID }
    | true, true =>
      let loadSSID := set.SSIT loadIndex
      let storeSSID := set.SSIT storeIndex
      if loadSSID < params.LFSTSize ∧ storeSSID < params.LFSTSize then
        if loadSSID < storeSSID then some { set with SSIT := Function.update set.SSIT storeIndex loadSSID }
        else some { set with SSIT := Function.update set.SSIT loadIndex storeSSID }
      else none
  else none

def insertLoad : StoreSet := set.checkClear params

def insertStore (storePC : BitVec 64) (storeSeqNum : Nat) : Option StoreSet :=
  let index := calcIndex params storePC
  let set := set.checkClear params
  if index < params.SSITSize then
    if set.validSSIT index then
      let storeSSID := set.SSIT index
      if storeSSID < params.LFSTSize then
        some { set with
          LFST := Function.update set.LFST storeSSID storeSeqNum
          validLFST := Function.update set.validLFST storeSSID true
          storeList := set.storeList.insert (OrderDual.toDual storeSeqNum) storeSSID }
      else none
    else some set
  else none

def issued (issuedPC : BitVec 64) (issuedSeqNum : Nat) (isStore : Bool) : Option StoreSet :=
  if !isStore then some set
  else
    let index := calcIndex params issuedPC
    if index < params.SSITSize then
      let set := { set with storeList := set.storeList.erase (OrderDual.toDual issuedSeqNum) }
      if set.validSSIT index then
        let storeSSID := set.SSIT index
        if storeSSID < params.LFSTSize then
          if set.validLFST storeSSID && set.LFST storeSSID == issuedSeqNum then
            some { set with validLFST := Function.update set.validLFST storeSSID false }
          else some set
        else none
      else some set
    else none

/-- A turn of the loop of `squash`: the tables after it, or nothing if the loop is left. -/
def squashTurn (squashedNum : Nat) : Option StoreSet :=
  match set.storeList.entries with
  | [] => none
  | (seqNum, idx) :: _ =>
    if OrderDual.ofDual seqNum ≤ squashedNum then none
    else
      let younger : Bool := squashedNum < set.LFST idx
      if set.validLFST idx && younger then
        some { set with validLFST := Function.update set.validLFST idx false, storeList := set.storeList.erase seqNum }
      else if !set.validLFST idx && younger then some { set with storeList := set.storeList.erase seqNum }
      else some set

/-- The loop of `squash` within a number of turns. -/
def squashLoop (squashedNum : Nat) : Nat → StoreSet → Option StoreSet
  | 0, _ => none
  | turns + 1, set =>
    match set.squashTurn squashedNum with
    | none => some set
    | some next => squashLoop squashedNum turns next

/-- `squash( squashed_num, tid )`, or nothing if it does not end. -/
def squash (squashedNum : Nat) : Option StoreSet := squashLoop squashedNum (set.storeList.entries.length + 1) set

/-! ### One call -/

variable {set} {squashedNum : Nat}

/-- The number of a store of the list. -/
def seqNum (entry : Natᵒᵈ × Nat) : Nat := OrderDual.ofDual entry.1

/-- The tables without the stores younger than a number. -/
def drained (set : StoreSet) (squashedNum : Nat) : StoreSet :=
  { set with
    validLFST := fun i =>
      set.validLFST i && !set.storeList.entries.any fun entry => squashedNum < seqNum entry && entry.2 == i
    storeList := ⟨set.storeList.entries.filter fun entry => seqNum entry ≤ squashedNum, set.storeList.sorted.filter _⟩ }

/-- The last store of the set of each younger store is younger. -/
def Settled (set : StoreSet) (squashedNum : Nat) : Prop :=
  ∀ entry ∈ set.storeList.entries, squashedNum < seqNum entry → squashedNum < set.LFST entry.2

/-- The two tables agree on the stores younger than a number. -/
structure Agree (set : StoreSet) (squashedNum : Nat) : Prop where
  settled : set.Settled squashedNum
  listed : ∀ idx, set.validLFST idx → squashedNum < set.LFST idx →
    ∃ entry ∈ set.storeList.entries, squashedNum < seqNum entry ∧ entry.2 = idx

/-- The call ends, and leaves no younger store in either table. -/
def CleansUp (set : StoreSet) (squashedNum : Nat) : Prop :=
  ∃ turns result, squashLoop squashedNum turns set = some result ∧
    (∀ entry ∈ result.storeList.entries, seqNum entry ≤ squashedNum) ∧
    ∀ idx, result.validLFST idx → result.LFST idx ≤ squashedNum

variable {first : Natᵒᵈ × Nat} {rest : List (Natᵒᵈ × Nat)}

theorem older_behind (entries : set.storeList.entries = first :: rest)
    {entry : Natᵒᵈ × Nat} (mem : entry ∈ rest) : seqNum entry < seqNum first := by
  have sorted := set.storeList.sorted
  rw [entries] at sorted
  exact (List.pairwise_cons.mp sorted).1 entry mem

def dropFirst (set : StoreSet) (first : Natᵒᵈ × Nat) : StoreSet :=
  { set with
    validLFST := Function.update set.validLFST first.2 false
    storeList := set.storeList.erase first.1 }

theorem entries_dropFirst
    (entries : set.storeList.entries = first :: rest) : (set.dropFirst first).storeList.entries = rest := by
  have sorted := set.storeList.sorted
  show SortedEntries.erase first.1 set.storeList.entries = rest
  rw [entries] at sorted ⊢
  exact SortedEntries.erase_head sorted

theorem squashTurn_nil (entries : set.storeList.entries = []) : set.squashTurn squashedNum = none := by
  rw [squashTurn, entries]

theorem squashTurn_older (entries : set.storeList.entries = first :: rest) (older : seqNum first ≤ squashedNum) :
    set.squashTurn squashedNum = none := by
  rw [squashTurn, entries]
  exact if_pos older

theorem squashTurn_drops (entries : set.storeList.entries = first :: rest) (younger : squashedNum < seqNum first)
    (last : squashedNum < set.LFST first.2) : set.squashTurn squashedNum = some (set.dropFirst first) := by
  have goesOn : ¬OrderDual.ofDual first.1 ≤ squashedNum := Nat.not_le.mpr younger
  rw [squashTurn, entries]
  dsimp only
  rw [if_neg goesOn, decide_eq_true last, Bool.and_true, Bool.and_true]
  cases valid : set.validLFST first.2 with
  | true => rfl
  | false =>
    have same : Function.update set.validLFST first.2 false = set.validLFST := by
      rw [← valid, Function.update_eq_self]
    rw [dropFirst, same]
    rfl

theorem squashTurn_spins (entries : set.storeList.entries = first :: rest) (younger : squashedNum < seqNum first)
    (last : set.LFST first.2 ≤ squashedNum) : set.squashTurn squashedNum = some set := by
  have goesOn : ¬OrderDual.ofDual first.1 ≤ squashedNum := Nat.not_le.mpr younger
  rw [squashTurn, entries]
  dsimp only
  rw [if_neg goesOn, decide_eq_false (Nat.not_lt.mpr last), Bool.and_false, Bool.and_false]
  rfl

theorem drained_of_older (older : ∀ entry ∈ set.storeList.entries, seqNum entry ≤ squashedNum) :
    set.drained squashedNum = set := by
  have list : (set.drained squashedNum).storeList = set.storeList :=
    SortedMap.ext (List.filter_eq_self.mpr fun entry mem => decide_eq_true (older entry mem))
  have valid : (set.drained squashedNum).validLFST = set.validLFST := by
    funext i
    have none : set.storeList.entries.any (fun entry => squashedNum < seqNum entry && entry.2 == i) = false := by
      refine List.any_eq_false.mpr fun entry mem => ?_
      rw [decide_eq_false (Nat.not_lt.mpr (older entry mem)), Bool.false_and]
      exact Bool.false_ne_true
    show (set.validLFST i && !_) = _
    rw [none, Bool.not_false, Bool.and_true]
  calc set.drained squashedNum
      = { set with validLFST := (set.drained squashedNum).validLFST, storeList := (set.drained squashedNum).storeList } := rfl
    _ = set := by rw [list, valid]

theorem drained_dropFirst (entries : set.storeList.entries = first :: rest) (younger : squashedNum < seqNum first) :
    (set.dropFirst first).drained squashedNum = set.drained squashedNum := by
  have dropped := entries_dropFirst entries
  have list : ((set.dropFirst first).drained squashedNum).storeList = (set.drained squashedNum).storeList := by
    apply SortedMap.ext
    show (set.dropFirst first).storeList.entries.filter _ = set.storeList.entries.filter _
    rw [dropped, entries, List.filter_cons_of_neg (by simpa using younger)]
  have valid : ((set.dropFirst first).drained squashedNum).validLFST = (set.drained squashedNum).validLFST := by
    funext i
    show ((Function.update set.validLFST first.2 false i) && !(set.dropFirst first).storeList.entries.any _)
      = (set.validLFST i && !set.storeList.entries.any _)
    rw [dropped, entries, List.any_cons, decide_eq_true younger, Bool.true_and]
    by_cases is : i = first.2
    · subst is
      rw [Function.update_self, beq_self_eq_true, Bool.true_or, Bool.not_true, Bool.false_and, Bool.and_false]
    · rw [Function.update_of_ne is, beq_eq_false_iff_ne.mpr (Ne.symm is), Bool.false_or]
  calc (set.dropFirst first).drained squashedNum
      = { set with validLFST := ((set.dropFirst first).drained squashedNum).validLFST
                   storeList := ((set.dropFirst first).drained squashedNum).storeList } := rfl
    _ = set.drained squashedNum := by rw [list, valid]; rfl

theorem older_of_first (entries : set.storeList.entries = first :: rest)
    (older : seqNum first ≤ squashedNum) : ∀ entry ∈ set.storeList.entries, seqNum entry ≤ squashedNum := by
  intro entry mem
  rw [entries] at mem
  rcases List.mem_cons.mp mem with rfl | behind
  · exact older
  · exact Nat.le_of_lt (Nat.lt_of_lt_of_le (older_behind entries behind) older)

/-- **The loop ends** once it has dropped each younger store. -/
theorem squashLoop_drained (settled : set.Settled squashedNum) {turns : Nat}
    (enough : set.storeList.entries.length < turns) : squashLoop squashedNum turns set = some (set.drained squashedNum) := by
  induction turns generalizing set with
  | zero => exact absurd enough (Nat.not_lt_zero _)
  | succ turns ih =>
    rw [squashLoop]
    cases entries : set.storeList.entries with
    | nil =>
      rw [squashTurn_nil entries, drained_of_older (by rw [entries]; exact nofun)]
    | cons first rest =>
      rcases Nat.lt_or_ge squashedNum (seqNum first) with younger | older
      · have mem : first ∈ set.storeList.entries := by
          rw [entries]
          exact List.mem_cons_self
        have dropped := entries_dropFirst entries
        rw [squashTurn_drops entries younger (settled first mem younger), ← drained_dropFirst entries younger]
        refine ih (fun entry mem => ?_) ?_
        · rw [dropped] at mem
          exact settled entry (by rw [entries]; exact List.mem_cons_of_mem _ mem)
        · rw [entries, List.length_cons] at enough
          rw [dropped]
          omega
      · rw [squashTurn_older entries older, drained_of_older (older_of_first entries older)]

/-- **The loop does not end** if it comes to a younger store whose set has an older last one. -/
theorem squashLoop_spins (unsettled : ¬set.Settled squashedNum) (turns : Nat) :
    squashLoop squashedNum turns set = none := by
  induction turns generalizing set with
  | zero => rfl
  | succ turns ih =>
    unfold Settled at unsettled
    push Not at unsettled
    obtain ⟨entry, mem, younger, last⟩ := unsettled
    obtain ⟨first, rest, entries⟩ : ∃ first rest, set.storeList.entries = first :: rest :=
      List.exists_cons_of_ne_nil (List.ne_nil_of_mem mem)
    have younger' : squashedNum < seqNum first := by
      by_contra older
      exact absurd younger (Nat.not_lt.mpr (older_of_first entries (Nat.not_lt.mp older) entry mem))
    rw [squashLoop]
    rcases Nat.lt_or_ge squashedNum (set.LFST first.2) with later | earlier
    · rw [squashTurn_drops entries younger' later]
      refine ih fun settled => ?_
      rw [entries] at mem
      rcases List.mem_cons.mp mem with rfl | behind
      · exact absurd later (Nat.not_lt.mpr last)
      · exact absurd (settled entry (by rw [entries_dropFirst entries]; exact behind) younger) (Nat.not_lt.mpr last)
    · rw [squashTurn_spins entries younger' earlier]
      exact ih fun settled => absurd (settled entry mem younger) (Nat.not_lt.mpr last)

theorem squashLoop_eq_some {turns : Nat} {result : StoreSet} (done : squashLoop squashedNum turns set = some result) :
    set.Settled squashedNum ∧ result = set.drained squashedNum := by
  by_cases settled : set.Settled squashedNum
  · refine ⟨settled, ?_⟩
    have more : ∀ (turns more : Nat) (set result : StoreSet), squashLoop squashedNum turns set = some result →
        squashLoop squashedNum (turns + more) set = some result := by
      intro turns
      induction turns with
      | zero => exact fun _ _ _ done => nomatch done
      | succ turns ih =>
        intro more set result done
        rw [Nat.add_right_comm, squashLoop]
        rw [squashLoop] at done
        cases turn : set.squashTurn squashedNum with
        | none =>
          rw [turn] at done
          exact done
        | some next =>
          rw [turn] at done
          exact ih more next result done
    have whole := more turns (set.storeList.entries.length + 1) set result done
    rw [squashLoop_drained settled (by omega)] at whole
    exact (Option.some.inj whole).symm
  · rw [squashLoop_spins settled turns] at done
    cases done

/-- **A call cleans up** if and only if the tables agree on the younger stores. -/
theorem cleansUp_iff : set.CleansUp squashedNum ↔ set.Agree squashedNum := by
  constructor
  · rintro ⟨turns, result, done, -, last⟩
    obtain ⟨settled, rfl⟩ := squashLoop_eq_some done
    refine ⟨settled, fun idx valid younger => ?_⟩
    by_contra unlisted
    push Not at unlisted
    have kept : (set.drained squashedNum).validLFST idx = true := by
      have none : set.storeList.entries.any (fun entry => squashedNum < seqNum entry && entry.2 == idx) = false :=
        List.any_eq_false.mpr fun entry mem => by simpa using unlisted entry mem
      show (set.validLFST idx && !_) = _
      rw [none, valid]
      rfl
    exact absurd (last idx kept) (Nat.not_le.mpr younger)
  · rintro ⟨settled, listed⟩
    refine ⟨_, _, squashLoop_drained settled (Nat.lt_succ_self _), fun entry mem => ?_, fun idx valid => ?_⟩
    · exact of_decide_eq_true (List.mem_filter.mp mem).2
    · obtain ⟨was, none⟩ := Bool.and_eq_true_iff.mp valid
      by_contra younger
      obtain ⟨entry, mem, younger', is⟩ := listed idx was (Nat.not_le.mp younger)
      have found : set.storeList.entries.any (fun entry => squashedNum < seqNum entry && entry.2 == idx) = true :=
        List.any_eq_true.mpr ⟨entry, mem, by simp [younger', is]⟩
      rw [found] at none
      cases none

/-! ### Runs -/

end StoreSet

/-- The calls of the memory dependence unit. -/
inductive StoreSetAction where
  | violation (storePC loadPC : BitVec 64)
  | insertLoad (loadPC : BitVec 64) (loadSeqNum : Nat)
  | insertStore (storePC : BitVec 64) (storeSeqNum : Nat) (tid : Nat)
  | issued (issuedPC : BitVec 64) (issuedSeqNum : Nat) (isStore : Bool)
  | squash (squashedNum : Nat) (tid : Nat)
  | clear
  deriving DecidableEq, Repr

namespace StoreSet

variable (params : StoreSetParams)

/-- The tables after a call, or nothing if an assertion fails or the call does not end. -/
def tryAct (set : StoreSet) : StoreSetAction → Option StoreSet
  | .violation storePC loadPC => set.violation params storePC loadPC
  | .insertLoad _ _ => some (set.insertLoad params)
  | .insertStore storePC storeSeqNum _ => set.insertStore params storePC storeSeqNum
  | .issued issuedPC issuedSeqNum isStore => set.issued params issuedPC issuedSeqNum isStore
  | .squash squashedNum _ => set.squash squashedNum
  | .clear => some (set.clear params)

/-- A squash cleans up. -/
def CleansUpAt (set : StoreSet) : StoreSetAction → Prop
  | .squash squashedNum _ => set.CleansUp squashedNum
  | _ => True

/-- The tables agree where a squash starts. -/
def AgreeAt (set : StoreSet) : StoreSetAction → Prop
  | .squash squashedNum _ => set.Agree squashedNum
  | _ => True

/-- The sets of the instructions are in the table of the last stores. -/
def InRange (set : StoreSet) : Prop := ∀ i, set.validSSIT i → set.SSIT i < params.LFSTSize

variable {params} {set : StoreSet}

theorem calcIndex_lt (PC : BitVec 64) : calcIndex params PC < params.SSITSize := by
  have below : (PC >>> 2 &&& BitVec.ofNat 64 (params.SSITSize - 1)).toNat ≤ params.SSITSize - 1 := by
    rw [BitVec.toNat_and, BitVec.toNat_ofNat]
    exact Nat.le_trans Nat.and_le_right (Nat.mod_le ..)
  exact Nat.lt_of_le_of_lt below (Nat.sub_lt params.SSIT_pos Nat.one_pos)

theorem calcSSID_lt (PC : BitVec 64) : calcSSID params PC < params.LFSTSize := Nat.mod_lt _ params.LFST_pos

theorem inRange_update {valid valid' : Nat → Bool} {SSIT : Nat → Nat} (inRange : ∀ i, valid i → SSIT i < params.LFSTSize)
    {index ssid : Nat} (others : ∀ i, i ≠ index → valid' i → valid i) (fits : ssid < params.LFSTSize) :
    ∀ i, valid' i → Function.update SSIT index ssid i < params.LFSTSize := by
  intro i valid
  by_cases is : i = index
  · rw [is, Function.update_self]
    exact fits
  · rw [Function.update_of_ne is]
    exact inRange i (others i is valid)

theorem update_others {valid : Nat → Bool} {index : Nat} {bit : Bool} :
    ∀ i, i ≠ index → Function.update valid index bit i → valid i := fun i ne is => by
  rwa [Function.update_of_ne ne] at is

theorem violation_inRange (inRange : set.InRange params) (storePC loadPC : BitVec 64) :
    ∃ next, set.violation params storePC loadPC = some next ∧ next.InRange params := by
  have indices : calcIndex params loadPC < params.SSITSize ∧ calcIndex params storePC < params.SSITSize :=
    ⟨calcIndex_lt loadPC, calcIndex_lt storePC⟩
  unfold violation
  dsimp only
  rw [if_pos indices]
  cases load : set.validSSIT (calcIndex params loadPC) <;> cases store : set.validSSIT (calcIndex params storePC) <;>
    dsimp only
  case false.false =>
    refine ⟨_, if_pos (calcSSID_lt loadPC), ?_⟩
    exact inRange_update (inRange_update inRange update_others (calcSSID_lt loadPC)) update_others (calcSSID_lt loadPC)
  case true.false =>
    have fits := inRange _ load
    exact ⟨_, if_pos fits, inRange_update inRange update_others fits⟩
  case false.true =>
    exact ⟨_, rfl, inRange_update inRange update_others (inRange _ store)⟩
  case true.true =>
    have fits := inRange _ load
    have fits' := inRange _ store
    rw [if_pos ⟨fits, fits'⟩]
    split
    next => exact ⟨_, rfl, inRange_update inRange (fun _ _ valid => valid) fits⟩
    next => exact ⟨_, rfl, inRange_update inRange (fun _ _ valid => valid) fits'⟩

theorem clear_inRange (inRange : set.InRange params) : (set.clear params).InRange params := by
  intro i valid
  refine inRange i ?_
  show set.validSSIT i = true
  change (if i < params.SSITSize then false else set.validSSIT i) = true at valid
  split at valid
  next => cases valid
  next => exact valid

theorem checkClear_inRange (inRange : set.InRange params) : (set.checkClear params).InRange params := by
  unfold checkClear
  dsimp only
  split
  next => exact clear_inRange inRange
  next => exact inRange

theorem insertStore_inRange (inRange : set.InRange params) (storePC : BitVec 64) (storeSeqNum : Nat) :
    ∃ next, set.insertStore params storePC storeSeqNum = some next ∧ next.InRange params := by
  have inRange' := checkClear_inRange inRange
  unfold insertStore
  dsimp only
  rw [if_pos (calcIndex_lt storePC)]
  split
  next valid => exact ⟨_, if_pos (inRange' _ valid), inRange'⟩
  next => exact ⟨_, rfl, inRange'⟩

theorem issued_inRange (inRange : set.InRange params) (issuedPC : BitVec 64) (issuedSeqNum : Nat) (isStore : Bool) :
    ∃ next, set.issued params issuedPC issuedSeqNum isStore = some next ∧ next.InRange params := by
  unfold issued
  split
  next => exact ⟨_, rfl, inRange⟩
  next =>
    dsimp only
    rw [if_pos (calcIndex_lt issuedPC)]
    split
    next valid =>
      rw [if_pos (inRange _ valid)]
      split
      next => exact ⟨_, rfl, inRange⟩
      next => exact ⟨_, rfl, inRange⟩
    next => exact ⟨_, rfl, inRange⟩

theorem tryAct_inRange (action : StoreSetAction) (agree : set.AgreeAt action) (inRange : set.InRange params) :
    ∃ next, set.tryAct params action = some next ∧ next.InRange params := by
  cases action with
  | violation storePC loadPC => exact violation_inRange inRange storePC loadPC
  | insertLoad loadPC loadSeqNum => exact ⟨_, rfl, checkClear_inRange inRange⟩
  | insertStore storePC storeSeqNum tid => exact insertStore_inRange inRange storePC storeSeqNum
  | issued issuedPC issuedSeqNum isStore => exact issued_inRange inRange issuedPC issuedSeqNum isStore
  | squash squashedNum tid => exact ⟨_, squashLoop_drained agree.settled (Nat.lt_succ_self _), inRange⟩
  | clear => exact ⟨_, rfl, clear_inRange inRange⟩

/-- **Every squash of a run cleans up** if and only if the tables agree where each of them starts, and then no call of
the run fails. -/
theorem squash_cleans_up_iff (params : StoreSetParams) (actions : List StoreSetAction) :
    ((∀ passed rest set, passed ++ rest = actions → tryActions (tryAct params) init passed = some set →
        ∀ action ∈ rest.head?, set.CleansUpAt action) ↔ MeetAll (tryAct params) AgreeAt init actions) ∧
      (MeetAll (tryAct params) AgreeAt init actions → ∃ set, tryActions (tryAct params) init actions = some set) := by
  have each : ∀ (set : StoreSet) action, set.CleansUpAt action ↔ set.AgreeAt action := fun set action => by
    cases action with
    | squash squashedNum tid => exact cleansUp_iff
    | _ => exact Iff.rfl
  refine ⟨?_, fun all => ?_⟩
  · rw [← MeetAll.iff_next]
    simp only [each]
  · obtain ⟨set, run, -⟩ := all.progress (InRange params) (fun set action agree => tryAct_inRange action agree)
      (show init.InRange params from nofun)
    exact ⟨set, run⟩

/-- Tables of the default sizes. -/
def defaults : StoreSetParams := ⟨250000, 1024, 1024, by decide, by decide⟩

/-- Two threads insert stores of one set, the younger store first, and a squash between them never ends. -/
theorem olderLast_spins : ∃ set, tryActions (tryAct defaults) init
    [.violation 0x100 0x200, .insertStore 0x100 10 0, .insertStore 0x100 5 1] = some set ∧
      ∀ turns, squashLoop 7 turns set = none := by
  refine ⟨_, rfl, fun turns => squashLoop_spins (fun settled => ?_) turns⟩
  have younger := settled (OrderDual.toDual 10, 512) (by decide) (by decide)
  exact absurd younger (by decide)

end StoreSet

end Emas.Gem5

/-
**Re-reference interval prediction.**

`class BRRIPRP` of `mem/cache/replacement_policies/brrip_rp.cc`, with the counters of `base/sat_counter.hh`. The victim is
the first entry with the greatest prediction value, and all entries age by what that value lacks to the maximum.

* The replacement data of an entry is known by the place of the entry among the candidates.
* A counter has at most eight bits, and never more than its maximum, so that no operation on it overflows.

**`BRRIPRP.getVictim_ages`** — one pass over the candidates does what the loop does that ages them step by step.
-/

import Emas.Lib.Aging
import Mathlib.Algebra.Group.Nat.Defs

namespace Emas.Gem5

/-! ### Saturating counters -/

/-- `class SatCounter`, with its bits. -/
structure SatCounter (bits : Nat) where
  initialVal : Nat
  counter : Nat
  initial_le : initialVal ≤ 2 ^ bits - 1
  counter_le : counter ≤ 2 ^ bits - 1
  deriving DecidableEq

namespace SatCounter

variable {bits : Nat} (c : SatCounter bits)

def maxVal (bits : Nat) : Nat := 2 ^ bits - 1

/-- `SatCounter( bits, initial_val )`. -/
def create (initialVal : Nat) (fits : initialVal ≤ 2 ^ bits - 1) : SatCounter bits := ⟨initialVal, initialVal, fits, fits⟩

def withCounter (value : Nat) (fits : value ≤ maxVal bits) : SatCounter bits := { c with counter := value, counter_le := fits }

def reset : SatCounter bits := c.withCounter c.initialVal c.initial_le

/-- `--counter`. -/
def decrement : SatCounter bits := c.withCounter (c.counter - 1) (Nat.le_trans (Nat.sub_le ..) c.counter_le)

/-- `counter += value`, of a value that is not negative. -/
def addAssign (value : Nat) : SatCounter bits :=
  if fits : maxVal bits - c.counter ≥ value then
    c.withCounter (c.counter + value) (Nat.add_le_of_le_sub' c.counter_le fits)
  else c.withCounter (maxVal bits) (Nat.le_refl _)

/-- `saturate( )`, with the value that it adds. -/
def saturate : Nat × SatCounter bits := (maxVal bits - c.counter, c.withCounter (maxVal bits) (Nat.le_refl _))

@[simp] theorem addAssign_counter (value : Nat) :
    (c.addAssign value).counter = min (c.counter + value) (maxVal bits) := by
  have bound : c.counter ≤ maxVal bits := c.counter_le
  unfold addAssign
  split
  · next fits => exact (Nat.min_eq_left (Nat.add_le_of_le_sub' bound fits)).symm
  · next full =>
    exact (Nat.min_eq_right (Nat.le_of_not_le fun within => full (Nat.le_sub_of_add_le' within))).symm

end SatCounter

/-! ### The policy -/

/-- `class BRRIPRP`: `btp` is a percentage. -/
structure BRRIPRP where
  numRRPVBits : Nat
  hitPriority : Bool
  btp : Nat
  bits_pos : 0 < numRRPVBits
  bits_le : numRRPVBits ≤ 8

/-- `struct BRRIPReplData`. -/
structure BRRIPReplData (bits : Nat) where
  rrpv : SatCounter bits
  valid : Bool
  deriving DecidableEq

namespace BRRIPRP

variable (policy : BRRIPRP)

abbrev ReplData : Type := BRRIPReplData policy.numRRPVBits

/-- The greatest RRPV. -/
def maxRRPV : Nat := SatCounter.maxVal policy.numRRPVBits

def instantiateEntry : policy.ReplData := ⟨.create 0 (Nat.zero_le _), false⟩

variable {policy}

def invalidate (data : policy.ReplData) : policy.ReplData := { data with valid := false }

def touch (data : policy.ReplData) : policy.ReplData :=
  { data with rrpv := if policy.hitPriority then data.rrpv.reset else data.rrpv.decrement }

/-- `reset( replacement_data )`, where `drawn` is the random number between 1 and 100. -/
def reset (drawn : Nat) (data : policy.ReplData) : policy.ReplData :=
  let saturated := data.rrpv.saturate.2
  { rrpv := if drawn ≤ policy.btp then saturated.decrement else saturated, valid := true }

/-- The prediction values of the candidates. -/
def rrpvs (candidates : List policy.ReplData) : List Nat := candidates.map fun candidate => candidate.rrpv.counter

/-- The search for a victim from a place on: the place that is found, and whether the entry there is invalid. -/
def search : List policy.ReplData → Nat → Nat → Nat → Nat × Bool
  | [], _, victim, _ => (victim, false)
  | candidate :: rest, place, victim, victimRRPV =>
    if !candidate.valid then (place, true)
    else if candidate.rrpv.counter > victimRRPV then search rest (place + 1) place candidate.rrpv.counter
    else search rest (place + 1) victim victimRRPV

/-- The aging loop: all candidates by what the victim lacks to the maximum. -/
def age (candidates : List policy.ReplData) (victim : Nat) (data : policy.ReplData) : List policy.ReplData :=
  let (diff, saturated) := data.rrpv.saturate
  let candidates := candidates.set victim { data with rrpv := saturated }
  if diff > 0 then candidates.map fun candidate => { candidate with rrpv := candidate.rrpv.addAssign diff }
  else candidates

/-- `getVictim( candidates )`: the place of the victim, and the candidates afterwards. -/
def getVictim : List policy.ReplData → Option (Nat × List policy.ReplData)
  | [] => none
  | first :: rest =>
    let candidates := first :: rest
    match search candidates 0 0 first.rrpv.counter with
    | (invalid, true) => some (invalid, candidates)
    | (victim, false) => candidates[victim]?.map fun data => (victim, age candidates victim data)

/-! ### The search -/

theorem search_valid {candidates seen : List policy.ReplData} {victim victimRRPV : Nat}
    (first : FirstGreatest (rrpvs seen) victim victimRRPV) (valid : ∀ candidate ∈ candidates, candidate.valid = true) :
    ∃ found greatest, search candidates seen.length victim victimRRPV = (found, false) ∧
      FirstGreatest (rrpvs (seen ++ candidates)) found greatest := by
  induction candidates generalizing seen victim victimRRPV with
  | nil => exact ⟨victim, victimRRPV, rfl, by rwa [List.append_nil]⟩
  | cons candidate rest ih =>
    obtain ⟨here, behind⟩ := List.forall_mem_cons.mp valid
    have longer : (seen ++ [candidate]).length = seen.length + 1 := by simp
    have split : seen ++ candidate :: rest = seen ++ [candidate] ++ rest := by simp
    have mapped : rrpvs (seen ++ [candidate]) = rrpvs seen ++ [candidate.rrpv.counter] := by simp [rrpvs]
    have length : (rrpvs seen).length = seen.length := by simp [rrpvs]
    unfold search
    rw [here, Bool.not_true, if_neg Bool.false_ne_true, split, ← longer]
    split
    · next above =>
      have next := first.append_greater above
      rw [length, ← mapped] at next
      exact ih next behind
    · next below =>
      have next := first.append_le (Nat.not_lt.mp below)
      rw [← mapped] at next
      exact ih next behind

variable {candidates : List policy.ReplData}

theorem search_invalid (invalid : ∃ candidate ∈ candidates, candidate.valid = false) (place victim victimRRPV : Nat) :
    search candidates place victim victimRRPV =
      (place + candidates.findIdx fun candidate => !candidate.valid, true) := by
  induction candidates generalizing place victim victimRRPV with
  | nil =>
    obtain ⟨candidate, member, -⟩ := invalid
    cases member
  | cons candidate rest ih =>
    unfold search
    rw [List.findIdx_cons]
    cases here : candidate.valid with
    | false => rfl
    | true =>
      have behind : ∃ candidate ∈ rest, candidate.valid = false := by
        obtain ⟨other, member, bad⟩ := invalid
        rcases List.mem_cons.mp member with rfl | later
        · rw [here] at bad
          cases bad
        · exact ⟨other, later, bad⟩
      have onward : place + (rest.findIdx (fun candidate => !candidate.valid) + 1) =
          place + 1 + rest.findIdx fun candidate => !candidate.valid := by omega
      simp only [Bool.not_true, Bool.false_eq_true, if_false, cond_false, onward, ih behind, ite_self]

/-! ### Aging -/

/-- **The candidates age by what the victim lacks.** -/
theorem age_rrpvs {victim greatest : Nat} {data : policy.ReplData}
    (first : FirstGreatest (rrpvs candidates) victim greatest) (held : candidates[victim]? = some data) :
    rrpvs (age candidates victim data) = (rrpvs candidates).map (· + (policy.maxRRPV - greatest)) := by
  have here := first.here
  rw [rrpvs, List.getElem?_map, held, Option.map_some, Option.some.injEq] at here
  have below : greatest ≤ policy.maxRRPV := here ▸ data.rrpv.counter_le
  refine List.ext_getElem? fun place => ?_
  unfold age rrpvs
  dsimp only [SatCounter.saturate]
  rw [here, List.map_map, List.getElem?_map, List.getElem?_map]
  by_cases same : victim = place
  · -- the victim is saturated already when the others age
    subst same
    obtain ⟨inside, -⟩ := List.getElem?_eq_some_iff.mp held
    have sum : greatest + (policy.maxRRPV - greatest) = policy.maxRRPV := Nat.add_sub_cancel' below
    rw [held, Option.map_some, Function.comp_apply, here, sum]
    split
    · simp only [List.getElem?_map, List.getElem?_set_self inside, Option.map_some, SatCounter.addAssign_counter]
      exact congrArg some (Nat.min_eq_right (Nat.le_add_right _ _))
    · rw [List.getElem?_set_self inside]
      rfl
  · cases at_place : candidates[place]? with
    | none => split <;> simp [List.getElem?_set_ne same, at_place]
    | some other =>
      have bound : other.rrpv.counter ≤ greatest :=
        first.bound _ (List.mem_map.mpr ⟨other, List.mem_of_getElem? at_place, rfl⟩)
      have fits : other.rrpv.counter + (policy.maxRRPV - greatest) ≤ policy.maxRRPV := by omega
      rw [Option.map_some]
      split
      · simp only [List.getElem?_map, List.getElem?_set_ne same, at_place, Option.map_some, Function.comp,
          SatCounter.addAssign_counter]
        exact congrArg some (Nat.min_eq_left fits)
      · next none =>
        have zero : policy.maxRRPV - greatest = 0 := Nat.eq_zero_of_not_pos none
        rw [List.getElem?_set_ne same, at_place, Function.comp_apply, zero]
        rfl

theorem age_valid {victim : Nat} {data : policy.ReplData} (held : candidates[victim]? = some data) :
    (age candidates victim data).map BRRIPReplData.valid = candidates.map BRRIPReplData.valid := by
  have set : (candidates.set victim { data with rrpv := data.rrpv.saturate.2 }).map BRRIPReplData.valid =
      candidates.map BRRIPReplData.valid := by
    obtain ⟨inside, same⟩ := List.getElem?_eq_some_iff.mp held
    rw [List.map_set, ← same, ← List.getElem_map BRRIPReplData.valid, List.set_getElem_self]
    rwa [List.length_map]
  unfold age
  dsimp only
  split
  · rw [List.map_map]
    exact set
  · exact set

/-- **The victim of one pass is that of the textbook loop**: for candidates that are all valid, `getVictim` picks the same
one, leaves the same RRPVs, none of which exceeds the greatest, and keeps all candidates valid. An invalid candidate is
picked first, and nothing changes. -/
theorem getVictim_ages (candidates : List policy.ReplData) (nonempty : candidates ≠ []) :
    ((∀ candidate ∈ candidates, candidate.valid = true) → ∃ victim aged, getVictim candidates = some (victim, aged) ∧
        agingLoop policy.maxRRPV (policy.maxRRPV + 1) (rrpvs candidates) = some (victim, rrpvs aged) ∧
        (∀ rrpv ∈ rrpvs aged, rrpv ≤ policy.maxRRPV) ∧ ∀ candidate ∈ aged, candidate.valid = true) ∧
    ((∃ candidate ∈ candidates, candidate.valid = false) →
      getVictim candidates = some (candidates.findIdx fun candidate => !candidate.valid, candidates)) := by
  obtain ⟨first, rest, rfl⟩ := List.exists_cons_of_ne_nil nonempty
  refine ⟨fun valid => ?_, fun invalid => ?_⟩
  · -- the search starts with the first candidate, and looks at it once more
    have single : FirstGreatest (rrpvs [first]) 0 first.rrpv.counter :=
      ⟨rfl, fun _ before => absurd before (Nat.not_lt_zero _), fun _ member => Nat.le_of_eq (List.mem_singleton.mp member)⟩
    obtain ⟨victim, greatest, searched, found⟩ := search_valid single fun candidate member =>
      valid candidate (List.mem_cons_of_mem _ member)
    rw [List.singleton_append] at found
    have start : search (first :: rest) 0 0 first.rrpv.counter = (victim, false) := by
      rw [← searched, search, valid first (List.mem_cons_self ..)]
      simp
    have here := found.here
    rw [rrpvs, List.getElem?_map, Option.map_eq_some_iff] at here
    obtain ⟨data, held, rrpv⟩ := here
    have below : greatest ≤ policy.maxRRPV := rrpv ▸ data.rrpv.counter_le
    have loop := agingLoop_eq found (show policy.maxRRPV - greatest < policy.maxRRPV + 1 by omega)
    rw [Nat.add_sub_cancel' below, ← age_rrpvs found held] at loop
    refine ⟨victim, age (first :: rest) victim data, ?_, loop, ?_, ?_⟩
    · unfold getVictim
      dsimp only
      rw [start]
      exact congrArg (Option.map _) held
    · intro value member
      obtain ⟨candidate, -, rfl⟩ := List.mem_map.mp member
      exact candidate.rrpv.counter_le
    · intro candidate member
      have among : candidate.valid ∈ (age (first :: rest) victim data).map BRRIPReplData.valid :=
        List.mem_map.mpr ⟨candidate, member, rfl⟩
      rw [age_valid held] at among
      obtain ⟨before, inside, same⟩ := List.mem_map.mp among
      exact same ▸ valid before inside
  · unfold getVictim
    dsimp only
    rw [search_invalid invalid, Nat.zero_add]

/-- Two-bit predictions: the second candidate is the victim, and the others age by one. -/
theorem getVictim_ages_of_two :
    let policy : BRRIPRP := ⟨2, false, 3, by decide, by decide⟩
    let candidates : List policy.ReplData := [⟨⟨0, 0, by decide, by decide⟩, true⟩, ⟨⟨0, 2, by decide, by decide⟩, true⟩]
    (∃ victim aged, getVictim candidates = some (victim, aged) ∧
      agingLoop policy.maxRRPV (policy.maxRRPV + 1) (rrpvs candidates) = some (victim, rrpvs aged) ∧
      (∀ rrpv ∈ rrpvs aged, rrpv ≤ policy.maxRRPV) ∧ ∀ candidate ∈ aged, candidate.valid = true) ∧
    (getVictim candidates).map (fun found => (found.1, rrpvs found.2)) = some (1, [1, 3]) :=
  ⟨(getVictim_ages _ (by decide)).1 (by decide), by decide⟩

end BRRIPRP

end Emas.Gem5

/-
**The numbers of the command queues.**

`SetConfig` makes `commandQueueCount` queues, and `GetCommandQueueId` gives the queue of a rank, of a bank or of a
subarray. `SetConfig` also allocates a counter for each subarray of each bank (`starvationCounter`), so that no
product of the dimensions goes beyond a `uint64_t`.

* `bijOn_rankFirst`, `bijOn_bankFirst`, `bijOn_subArrays`: the formulas.
* `numbersQueues_iff`: **all models and schemes number the queues, but for the fixed scheme** with a queue per bank,
  which has no formula.
-/

import Emas.Nvmain.ControllerActions
import Emas.Lib.MixedRadix

namespace Emas.Nvmain

open MixedRadix

namespace Config

variable (cfg : Config)

/-- Rank, bank and subarray of what has a queue of its own. The numbers that the queue model does not look at are 0. -/
def units : Set (Nat × Nat × Nat) :=
  match cfg.queueModel with
  | .perRank => {unit | unit.1 < cfg.ranks ∧ unit.2 = (0, 0)}
  | .perBank => {unit | unit.1 < cfg.ranks ∧ unit.2.1 < cfg.banks ∧ unit.2.2 = 0}
  | .perSubArray => {unit | unit.1 < cfg.ranks ∧ unit.2.1 < cfg.banks ∧ unit.2.2 < cfg.subArrayNum}

/-- Each unit has one queue and each queue one unit, and the `assert` holds of every address. -/
structure NumbersQueues : Prop where
  bijective : Set.BijOn (fun unit : Nat × Nat × Nat => cfg.queueOf unit.1 unit.2.1 unit.2.2) cfg.units
    (Set.Iio cfg.commandQueueCount)
  inside : ∀ addr : NVMAddress, addr.rank < cfg.ranks → addr.bank < cfg.banks → addr.subarray < cfg.subArrayNum →
    cfg.getCommandQueueId addr < cfg.commandQueueCount

variable {cfg}

theorem bijOn_ranks (model : cfg.queueModel = .perRank) :
    Set.BijOn (fun unit : Nat × Nat × Nat => cfg.queueOf unit.1 unit.2.1 unit.2.2) cfg.units
      (Set.Iio cfg.commandQueueCount) := by
  simp only [units, queueOf, getCommandQueueId, commandQueueCount, model, NVMAddress.translated]
  refine ⟨fun unit ⟨rank, _⟩ => rank, fun unit ⟨_, rest⟩ unit' ⟨_, rest'⟩ same => ?_, fun rank below => ?_⟩
  · exact Prod.ext same (rest.trans rest'.symm)
  · exact ⟨(rank, 0, 0), ⟨below, rfl⟩, rfl⟩

theorem bijOn_rankFirst (model : cfg.queueModel = .perBank) (scheme : cfg.scheduleScheme = 1) :
    Set.BijOn (fun unit : Nat × Nat × Nat => cfg.queueOf unit.1 unit.2.1 unit.2.2) cfg.units
      (Set.Iio cfg.commandQueueCount) := by
  have digits := bijOn_two_digits cfg.ranks cfg.banks
  simp only [units, queueOf, getCommandQueueId, commandQueueCount, model, scheme, if_true, NVMAddress.translated]
  rw [Nat.mul_comm]
  refine digits.comp (f := fun unit : Nat × Nat × Nat => (unit.2.1, unit.1)) ⟨?_, ?_, ?_⟩
  · rintro ⟨rank, bank, subarray⟩ ⟨inRanks, inBanks, -⟩
    exact ⟨inBanks, inRanks⟩
  · rintro ⟨rank, bank, subarray⟩ ⟨-, -, rfl⟩ ⟨rank', bank', subarray'⟩ ⟨-, -, rfl⟩ ⟨⟩
    rfl
  · rintro ⟨bank, rank⟩ ⟨inBanks, inRanks⟩
    exact ⟨(rank, bank, 0), ⟨inRanks, inBanks, rfl⟩, rfl⟩

theorem bijOn_bankFirst (model : cfg.queueModel = .perBank) (scheme : cfg.scheduleScheme = 2) :
    Set.BijOn (fun unit : Nat × Nat × Nat => cfg.queueOf unit.1 unit.2.1 unit.2.2) cfg.units
      (Set.Iio cfg.commandQueueCount) := by
  have digits := bijOn_two_digits cfg.banks cfg.ranks
  simp only [units, queueOf, getCommandQueueId, commandQueueCount, model, scheme, NVMAddress.translated]
  refine digits.comp (f := fun unit : Nat × Nat × Nat => (unit.1, unit.2.1)) ⟨?_, ?_, ?_⟩
  · rintro ⟨rank, bank, subarray⟩ ⟨inRanks, inBanks, -⟩
    exact ⟨inRanks, inBanks⟩
  · rintro ⟨rank, bank, subarray⟩ ⟨-, -, rfl⟩ ⟨rank', bank', subarray'⟩ ⟨-, -, rfl⟩ ⟨⟩
    rfl
  · rintro ⟨rank, bank⟩ ⟨inRanks, inBanks⟩
    exact ⟨(rank, bank, 0), ⟨inRanks, inBanks, rfl⟩, rfl⟩

theorem bijOn_subArrays (model : cfg.queueModel = .perSubArray) :
    Set.BijOn (fun unit : Nat × Nat × Nat => cfg.queueOf unit.1 unit.2.1 unit.2.2) cfg.units
      (Set.Iio cfg.commandQueueCount) := by
  have banks := bijOn_two_digits cfg.banks cfg.ranks
  have digits := bijOn_two_digits cfg.subArrayNum (cfg.ranks * cfg.banks)
  have nested : ∀ unit : Nat × Nat × Nat,
      unit.1 * cfg.banks * cfg.subArrayNum + unit.2.1 * cfg.subArrayNum + unit.2.2 =
        (unit.1 * cfg.banks + unit.2.1) * cfg.subArrayNum + unit.2.2 := fun unit => by rw [Nat.add_mul]
  simp only [units, queueOf, getCommandQueueId, commandQueueCount, model, NVMAddress.translated, nested]
  refine digits.comp (f := fun unit : Nat × Nat × Nat => (unit.1 * cfg.banks + unit.2.1, unit.2.2)) ⟨?_, ?_, ?_⟩
  · rintro ⟨rank, bank, subarray⟩ ⟨inRanks, inBanks, small⟩
    exact ⟨mul_add_lt inRanks inBanks, small⟩
  · rintro ⟨rank, bank, subarray⟩ ⟨inRanks, inBanks, -⟩ ⟨rank', bank', subarray'⟩ ⟨inRanks', inBanks', -⟩ same
    obtain ⟨number, rfl⟩ := Prod.mk.inj same
    obtain ⟨rfl, rfl⟩ := mul_add_inj inBanks inBanks' number
    rfl
  · rintro ⟨number, subarray⟩ ⟨below, small⟩
    obtain ⟨⟨rank, bank⟩, ⟨inRanks, inBanks⟩, rfl⟩ := banks.surjOn below
    exact ⟨(rank, bank, subarray), ⟨inRanks, inBanks, small⟩, rfl⟩

theorem NumbersQueues.of_bijOn
    (bijective : Set.BijOn (fun unit : Nat × Nat × Nat => cfg.queueOf unit.1 unit.2.1 unit.2.2) cfg.units
      (Set.Iio cfg.commandQueueCount)) : cfg.NumbersQueues := by
  refine ⟨bijective, fun addr inRanks inBanks inSubArrays => ?_⟩
  have into := bijective.mapsTo
  simp only [units, queueOf, getCommandQueueId, NVMAddress.translated] at into ⊢
  cases model : cfg.queueModel with
  | perRank =>
    rw [model] at into
    exact into (x := (addr.rank, 0, 0)) ⟨inRanks, rfl⟩
  | perBank =>
    rw [model] at into
    exact into (x := (addr.rank, addr.bank, 0)) ⟨inRanks, inBanks, rfl⟩
  | perSubArray =>
    rw [model] at into
    exact into (x := (addr.rank, addr.bank, addr.subarray)) ⟨inRanks, inBanks, inSubArrays⟩

theorem not_numbersQueues (model : cfg.queueModel = .perBank) (first : cfg.scheduleScheme ≠ 1)
    (second : cfg.scheduleScheme ≠ 2) (some' : cfg.ranks * cfg.banks ≠ 0) : ¬cfg.NumbersQueues := by
  rintro ⟨⟨into, apart, -⟩, -⟩
  have number : ∀ rank bank, cfg.queueOf rank bank 0 = maxCycle := fun rank bank => by
    simp only [queueOf, getCommandQueueId, model, if_neg first, if_neg second]
  have unit : ∀ {rank bank}, rank < cfg.ranks → bank < cfg.banks → (rank, bank, 0) ∈ cfg.units := by
    intro rank bank inRanks inBanks
    rw [units, model]
    exact ⟨inRanks, inBanks, rfl⟩
  obtain ⟨ranks, banks⟩ := Nat.mul_ne_zero_iff.mp some'
  have ranks := Nat.pos_of_ne_zero ranks
  have banks := Nat.pos_of_ne_zero banks
  have below : maxCycle < cfg.ranks * cfg.banks := by
    have below := into (unit ranks banks)
    rw [commandQueueCount, model] at below
    exact (number 0 0).symm.trans_lt below
  have large : 1 < maxCycle := by decide
  -- There would be a second bank, with the same number.
  rcases Nat.lt_or_ge 1 cfg.banks with another | one
  · have same := apart (unit ranks banks) (unit ranks another) ((number 0 0).trans (number 0 1).symm)
    cases same
  · have another : 1 < cfg.ranks := by
      by_contra few
      have product := Nat.mul_le_mul (Nat.le_of_not_lt few) one
      omega
    have same := apart (unit ranks banks) (unit another banks) ((number 0 0).trans (number 1 0).symm)
    cases same

/-- **The queues are numbered** by all models and schemes, but for the fixed scheme with a queue per bank. -/
theorem numbersQueues_iff (cfg : Config) :
    cfg.NumbersQueues ↔
      (cfg.queueModel = .perBank → cfg.scheduleScheme = 1 ∨ cfg.scheduleScheme = 2 ∨ cfg.ranks * cfg.banks = 0) := by
  constructor
  · intro numbers model
    by_contra none'
    obtain ⟨first, rest⟩ := not_or.mp none'
    obtain ⟨second, some'⟩ := not_or.mp rest
    exact not_numbersQueues model first second some' numbers
  · intro formula
    cases model : cfg.queueModel with
    | perRank => exact .of_bijOn (bijOn_ranks model)
    | perSubArray => exact .of_bijOn (bijOn_subArrays model)
    | perBank =>
      rcases formula model with first | second | none'
      · exact .of_bijOn (bijOn_rankFirst model first)
      · exact .of_bijOn (bijOn_bankFirst model second)
      · have empty : cfg.units = ∅ := by
          rw [units, model]
          refine Set.eq_empty_of_forall_notMem fun unit ⟨inRanks, inBanks, _⟩ => ?_
          have positive := Nat.mul_pos (Nat.zero_lt_of_lt inRanks) (Nat.zero_lt_of_lt inBanks)
          omega
        refine .of_bijOn ?_
        rw [empty, commandQueueCount, model, none']
        exact ⟨fun _ => nofun, fun _ => nofun, fun _ below => absurd below (Nat.not_lt_zero _)⟩

/-- The fixed scheme with the default queue model: there is no number for the only bank of the only rank. -/
theorem fixed_scheme_unnumbered :
    let cfg := { smallConfig .perBank 0 with scheduleScheme := 0, banks := 1 }
    cfg.commandQueueCount = 1 ∧ ¬cfg.getCommandQueueId (.translated 0 0 0 0 0) < cfg.commandQueueCount ∧
      ¬cfg.NumbersQueues := by
  refine ⟨rfl, by decide, fun numbers => ?_⟩
  exact absurd (numbers.inside (.translated 0 0 0 0 0) (by decide) (by decide) (by decide)) (by decide)

end Config

end Emas.Nvmain

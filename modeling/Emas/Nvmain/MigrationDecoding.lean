/-
**Decoding after migrations.**

A completed migration gives the page that was promoted the channel of its victim, and the victim the channel
of the promoted page; rows, banks, ranks and subarrays stay. `MigrationRun` is the migrator with the victims
that `CoinMigrator::ChooseVictim` picks in turn, in the fast channel, and the pairs that were migrated.
-/

import Emas.Nvmain.AddressInverse
import Emas.Nvmain.Migrator
import Emas.Lib.ActionRun
import Emas.Lib.Relabel

namespace Emas.Nvmain

open MemoryPartition MixedRadix

/-! ### The runs -/

/-- The parameters of `ChooseVictim`. -/
structure PromotionParams where
  promotionChannel : Nat
  ranks : Nat
  banks : Nat
  rows : Nat
  matHeight : Nat

namespace PromotionParams

variable (fast : PromotionParams)

def totalPromotionPages : Nat := fast.ranks * fast.banks * fast.rows

/-- `ChooseVictim( at, promotee, victim )` for the current promotion page. -/
def chooseVictim (currentPromotionPage : Nat) : Location :=
  let promoPage := currentPromotionPage
  let victimRank := promoPage % fast.ranks
  let promoPage := promoPage / 2 ^ mlog2 (toInt fast.ranks)
  let victimBank := promoPage % fast.banks
  let promoPage := promoPage / 2 ^ mlog2 (toInt fast.banks)
  let subarrayCount := fast.rows / fast.matHeight
  let victimSubarray := promoPage % subarrayCount
  let victimRow := promoPage / 2 ^ mlog2 (toInt subarrayCount)
  fun
    | row => victimRow
    | col => 0
    | bank => victimBank
    | rank => victimRank
    | channel => fast.promotionChannel
    | subarray => victimSubarray

end PromotionParams

/-- The pages that were exchanged. -/
structure Migration where
  promotee : Location
  victim : Location

/-- A migrator in a run, with the next victim and all migrations so far. -/
structure MigrationRun where
  migrator : Migrator
  currentPromotionPage : Nat
  history : List Migration

/-- A victim is chosen, for a promotee, or for a migration that cannot be queued. -/
inductive MigrationStep where
  | migrate (promotee : Location)
  | give

namespace MigrationRun

def create : MigrationRun := ⟨.create, 0, []⟩

variable (params : MigratorParams) (fast : PromotionParams)

/-- The page that `ChooseVictim` takes next. -/
def victim (run : MigrationRun) : Location := fast.chooseVictim run.currentPromotionPage

/-- The promoted page and its victim are migrated. -/
def act (run : MigrationRun) (step : MigrationStep) : MigrationRun :=
  let next := (run.currentPromotionPage + 1) % fast.totalPromotionPages
  match step with
  | .migrate promotee =>
    ⟨run.migrator.complete params promotee (run.victim fast), next, run.history ++ [⟨promotee, run.victim fast⟩]⟩
  | .give => { run with currentPromotionPage := next }

end MigrationRun

/-- The digits of a key below the row. -/
structure InPage (params : MigratorParams) (location : Location) : Prop where
  bank : location bank < params.numBanks
  rank : location rank < params.numRanks
  subarray : location subarray < params.numSubarrays
  channel : location channel < params.numChannels

/-- What `TryMigration` and its `assert`s ask of a migration: a promotee outside the fast channel; neither
page was migrated. -/
def MigrationRun.Allowed (params : MigratorParams) (fast : PromotionParams) (run : MigrationRun) : MigrationStep → Prop
  | .migrate promotee => InPage params promotee ∧ promotee channel ≠ fast.promotionChannel ∧
      InPage params (run.victim fast) ∧ run.migrator.isMigrated params promotee = false ∧
      run.migrator.isMigrated params (run.victim fast) = false
  | .give => True

/-! ### Keys -/

section Keys

variable {params : MigratorParams} {first second : Location}

/-- The same page: all fields but the column. -/
def SamePage (first second : Location) : Prop := ∀ part, part ≠ col → first part = second part

theorem SamePage.key_eq (same : SamePage first second) : params.getAddressKey first = params.getAddressKey second := by
  unfold MigratorParams.getAddressKey
  rw [same row nofun, same bank nofun, same rank nofun, same subarray nofun, same channel nofun]

/-- **Pages have keys of their own.** -/
theorem key_eq_iff (inPage : InPage params first) (inPage' : InPage params second) :
    params.getAddressKey first = params.getAddressKey second ↔ SamePage first second := by
  refine ⟨fun same => ?_, SamePage.key_eq⟩
  have number : ∀ location : Location, params.getAddressKey location =
      (((location row * params.numBanks + location bank) * params.numRanks + location rank) *
        params.numSubarrays + location subarray) * params.numChannels + location channel :=
    fun location => by
      unfold MigratorParams.getAddressKey
      ring
  rw [number, number] at same
  obtain ⟨same, channels⟩ := mul_add_inj inPage.channel inPage'.channel same
  obtain ⟨same, subarrays⟩ := mul_add_inj inPage.subarray inPage'.subarray same
  obtain ⟨same, ranks⟩ := mul_add_inj inPage.rank inPage'.rank same
  obtain ⟨rows, banks⟩ := mul_add_inj inPage.bank inPage'.bank same
  intro part other
  cases part with
  | row => exact rows
  | col => exact absurd rfl other
  | bank => exact banks
  | rank => exact ranks
  | channel => exact channels
  | subarray => exact subarrays

end Keys

/-! ### One migration -/

section Complete

variable {params : MigratorParams} {migrator : Migrator} {promotee demotee : Location}

@[simp] theorem check_migrationMap (assertion : MigratorAssert) (condition : Bool) :
    (migrator.check assertion condition).migrationMap = migrator.migrationMap := by
  unfold Migrator.check
  split <;> rfl

@[simp] theorem check_migrationState (assertion : MigratorAssert) (condition : Bool) :
    (migrator.check assertion condition).migrationState = migrator.migrationState := by
  unfold Migrator.check
  split <;> rfl

theorem setMigrationState_migrationMap (address : Location) (newState : MigratorState) :
    (migrator.setMigrationState params address newState).migrationMap = migrator.migrationMap := by
  unfold Migrator.setMigrationState
  dsimp only
  split <;> simp

theorem setMigrationState_migrationState (address : Location) (newState : MigratorState) :
    (migrator.setMigrationState params address newState).migrationState =
      migrator.migrationState.insert (params.getAddressKey address) newState := by
  unfold Migrator.setMigrationState
  dsimp only
  split <;> simp

/-- **The channels after a migration.** -/
theorem complete_moved (different : params.getAddressKey promotee ≠ params.getAddressKey demotee) (key : Nat) :
    (migrator.complete params promotee demotee).moved key =
      if key = params.getAddressKey demotee then some (promotee channel)
      else if key = params.getAddressKey promotee then some (demotee channel)
      else migrator.moved key := by
  unfold Migrator.complete Migrator.moved Migrator.stateOf
  rw [setMigrationState_migrationMap, setMigrationState_migrationMap, setMigrationState_migrationState,
    setMigrationState_migrationState]
  simp only [Migrator.startMigration, check_migrationMap, check_migrationState, SortedMap.find?_insert]
  by_cases demoted : key = params.getAddressKey demotee
  · simp [demoted]
  · by_cases promoted : key = params.getAddressKey promotee
    · simp [promoted, different]
    · simp [demoted, promoted]

end Complete

/-! ### Runs -/

variable {location : Location}

section Runs

variable {params : MigratorParams} {fast : PromotionParams} {run : MigrationRun}

/-- The history has sent the page to the channel. -/
def MovedTo (fast : PromotionParams) (history : List Migration) (location : Location) (newChannel : Nat) :
    Prop :=
  ∃ migration ∈ history,
    SamePage migration.promotee location ∧ newChannel = fast.promotionChannel ∨
    SamePage migration.victim location ∧ newChannel = migration.promotee channel

/-- The pages that have moved are those of the history. -/
structure TracksMoves (params : MigratorParams) (fast : PromotionParams) (run : MigrationRun) : Prop where
  promotees : ∀ migration ∈ run.history, InPage params migration.promotee ∧
    migration.promotee channel ≠ fast.promotionChannel
  victims : ∀ migration ∈ run.history, migration.victim channel = fast.promotionChannel
  moved : ∀ location, InPage params location → ∀ newChannel,
    run.migrator.moved (params.getAddressKey location) = some newChannel ↔ MovedTo fast run.history location newChannel

theorem TracksMoves.create (params : MigratorParams) (fast : PromotionParams) : TracksMoves params fast .create where
  promotees := nofun
  victims := nofun
  moved := fun _ _ _ => ⟨nofun, nofun⟩

theorem movedTo_append {history : List Migration} {migration : Migration}
    {newChannel : Nat} : MovedTo fast (history ++ [migration]) location newChannel ↔
      MovedTo fast history location newChannel ∨
      (SamePage migration.promotee location ∧ newChannel = fast.promotionChannel ∨
        SamePage migration.victim location ∧ newChannel = migration.promotee channel) := by
  unfold MovedTo
  simp only [List.mem_append, List.mem_singleton, or_and_right, exists_or, exists_eq_left]

theorem TracksMoves.not_movedTo (tracks : TracksMoves params fast run) {page location : Location}
    (inPage : InPage params location) (same : SamePage page location)
    (still : run.migrator.isMigrated params page = false) (newChannel : Nat) :
    ¬MovedTo fast run.history location newChannel := by
  rw [← tracks.moved location inPage, ← same.key_eq]
  intro found
  unfold Migrator.isMigrated at still
  rw [found] at still
  cases still

/-- **A migration is tracked.** -/
theorem step_tracks (step : MigrationStep) (allowed : run.Allowed params fast step)
    (tracks : TracksMoves params fast run) : TracksMoves params fast (run.act params fast step) := by
  cases step with
  | give => exact ⟨tracks.promotees, tracks.victims, tracks.moved⟩
  | migrate promotee =>
    obtain ⟨inPage, slow, inPage', still, still'⟩ := allowed
    have hub : run.victim fast channel = fast.promotionChannel := rfl
    have different : params.getAddressKey promotee ≠ params.getAddressKey (run.victim fast) := fun same =>
      slow (((key_eq_iff inPage inPage').mp same channel nofun).trans hub)
    refine ⟨fun migration member => ?_, fun migration member => ?_, fun location inLocation newChannel => ?_⟩
    · rcases List.mem_append.mp member with old | new
      · exact tracks.promotees migration old
      · rw [List.mem_singleton.mp new]
        exact ⟨inPage, slow⟩
    · rcases List.mem_append.mp member with old | new
      · exact tracks.victims migration old
      · rw [List.mem_singleton.mp new]
        exact hub
    · unfold MigrationRun.act
      dsimp only
      rw [complete_moved different, movedTo_append]
      by_cases demoted : SamePage (run.victim fast) location
      · have apart : ¬SamePage promotee location := fun same =>
          different ((key_eq_iff inPage inPage').mpr fun part other =>
            (same part other).trans (demoted part other).symm)
        have old := tracks.not_movedTo inLocation demoted still' newChannel
        rw [if_pos demoted.key_eq.symm, Option.some_inj]
        simp only [old, apart, demoted, false_and, true_and, false_or]
        exact eq_comm
      · rw [if_neg fun same => demoted ((key_eq_iff inPage' inLocation).mp same.symm)]
        by_cases promoted : SamePage promotee location
        · have old := tracks.not_movedTo inLocation promoted still newChannel
          rw [if_pos promoted.key_eq.symm, Option.some_inj, hub]
          simp only [old, promoted, demoted, false_and, true_and, false_or, or_false]
          exact eq_comm
        · rw [if_neg fun same => promoted ((key_eq_iff inPage inLocation).mp same.symm),
            tracks.moved location inLocation]
          simp only [promoted, demoted, false_and, or_false]

end Runs

/-! ### Locations and addresses -/

/-- The decoder and the keys are those of a memory with power-of-two counts. -/
structure MigratorFits (params : MigratorParams) (widths : MemoryPartition → Nat) : Prop where
  invertible : Invertible params.translator widths
  bitWidths : params.translator.method.bitWidths = widths
  narrow : ∀ part, widths part < 64
  numBanks : params.numBanks = 2 ^ widths bank
  numRanks : params.numRanks = 2 ^ widths rank
  numSubarrays : params.numSubarrays = 2 ^ widths subarray
  numChannels : params.numChannels = 2 ^ widths channel

/-- The fields are within their widths. -/
def Located (widths : MemoryPartition → Nat) (location : Location) : Prop :=
  ∀ part, location part < 2 ^ widths part

section Addresses

variable {params : MigratorParams} {widths : MemoryPartition → Nat}

theorem translateLoop_lt {translator : AddressTranslator} (narrow : ∀ part, translator.method.bitWidths part < 64)
    {orders : List Int} {refAddress : Nat} {partitions fields : Location}
    (small : ∀ part, partitions part < 2 ^ translator.method.bitWidths part)
    (decoded : translator.translateLoop orders refAddress partitions = some fields) :
    ∀ part, fields part < 2 ^ translator.method.bitWidths part := by
  induction orders generalizing refAddress partitions with
  | nil =>
    obtain rfl := Option.some.inj decoded
    exact small
  | cons order rest ih =>
    unfold AddressTranslator.translateLoop at decoded
    split at decoded
    · cases decoded
    · rename_i part found
      refine ih (fun other => ?_) decoded
      by_cases here : other = part
      · subst here
        rw [Function.update_self, AddressTranslator.modulo, AddressTranslator.shl64, Nat.one_mul,
          Nat.mod_eq_of_lt (Nat.pow_lt_pow_right (by decide) (narrow other))]
        exact Nat.mod_lt _ (Nat.two_pow_pos _)
      · rw [Function.update_of_ne here]
        exact small other

theorem MigratorFits.located (fits : MigratorFits params widths) {address : Nat} {fields : Location}
    (decoded : params.translator.translate address = some fields) : Located widths fields := by
  have narrow : ∀ part, params.translator.method.bitWidths part < 64 := by
    rw [fits.bitWidths]
    exact fits.narrow
  have small := translateLoop_lt narrow (fun _ => Nat.two_pow_pos _) decoded
  rw [fits.bitWidths] at small
  exact small

theorem MigratorFits.inPage (fits : MigratorFits params widths)
    (located : Located widths location) : InPage params location :=
  ⟨fits.numBanks ▸ located bank, fits.numRanks ▸ located rank, fits.numSubarrays ▸ located subarray,
    fits.numChannels ▸ located channel⟩

end Addresses

/-! ### Injectivity -/

section Injective

variable {params : MigratorParams} {fast : PromotionParams} {widths : MemoryPartition → Nat}
  {run : MigrationRun}

/-- Where the page was moved to that a place has in channel `label`. -/
def movedAt (widths : MemoryPartition → Nat) (params : MigratorParams) (migrator : Migrator)
    (place : { place // Located widths place }) (label : Nat) : Option Nat :=
  migrator.moved (params.getAddressKey (Function.update place.1 channel label))

theorem located_update (located : Located widths location) {label : Nat}
    (small : label < 2 ^ widths channel) : Located widths (Function.update location channel label) := by
  intro part
  by_cases here : part = channel
  · subst here
    rwa [Function.update_self]
  · rw [Function.update_of_ne here]
    exact located part

theorem redirect_eq (migrator : Migrator) (place : { place // Located widths place }) :
    migrator.redirect params place.1 =
      Function.update place.1 channel (relabel (movedAt widths params migrator) place (place.1 channel)) := by
  unfold Migrator.redirect relabel movedAt
  rw [Function.update_eq_self]
  cases migrator.moved (params.getAddressKey place.1) with
  | none => exact (Function.update_eq_self channel place.1).symm
  | some newChannel => rfl

theorem TracksMoves.moves (tracks : TracksMoves params fast run) (fits : MigratorFits params widths)
    (inside : fast.promotionChannel < 2 ^ widths channel) :
    Moves fast.promotionChannel (· < 2 ^ widths channel) (movedAt widths params run.migrator) where
  toHub := by
    intro place label new small other move
    have located := located_update place.2 small
    rcases (tracks.moved _ (fits.inPage located) new).mp move with
      ⟨migration, member, ⟨-, hub⟩ | ⟨same, -⟩⟩
    · exact hub
    · have here := same channel nofun
      rw [tracks.victims migration member, Function.update_self] at here
      exact absurd here.symm other
  fromHub := by
    intro place new move
    have located := located_update place.2 inside
    rcases (tracks.moved _ (fits.inPage located) new).mp move with
      ⟨migration, member, ⟨same, -⟩ | ⟨-, rfl⟩⟩
    · have here := same channel nofun
      rw [Function.update_self] at here
      exact absurd here (tracks.promotees migration member).2
    · obtain ⟨inPage, slow⟩ := tracks.promotees migration member
      exact ⟨slow, fits.numChannels ▸ inPage.channel⟩

/-- Addresses of different fields go to different places. -/
def DecodesApart (params : MigratorParams) (migrator : Migrator) : Prop :=
  ∀ address address' fields fields', params.translator.translate address = some fields →
    params.translator.translate address' = some fields' → fields ≠ fields' →
    migrator.translate params address ≠ migrator.translate params address'

theorem decodesApart_iff (fits : MigratorFits params widths) (migrator : Migrator) :
    DecodesApart params migrator ↔ KeepsApart (· < 2 ^ widths channel) (movedAt widths params migrator) := by
  constructor
  · intro apart place label label' small small' different same
    have located := located_update place.2 small
    have located' := located_update place.2 small'
    have locations : Function.update place.1 channel label ≠ Function.update place.1 channel label' :=
      fun same => different (by simpa using congrFun same channel)
    refine apart _ _ _ _ (fits.invertible.fields _ located) (fits.invertible.fields _ located') locations ?_
    unfold Migrator.translate
    rw [fits.invertible.fields _ located, fits.invertible.fields _ located', Option.map_some, Option.map_some,
      redirect_eq migrator ⟨_, located⟩, redirect_eq migrator ⟨_, located'⟩]
    unfold relabel movedAt at same ⊢
    simpa using congrArg (fun label => some (Function.update place.1 channel label)) same
  · intro apart address address' fields fields' decoded decoded' different same
    have located := fits.located decoded
    have located' := fits.located decoded'
    unfold Migrator.translate at same
    rw [decoded, decoded', Option.map_some, Option.map_some, Option.some_inj,
      redirect_eq migrator ⟨_, located⟩, redirect_eq migrator ⟨_, located'⟩] at same
    have elsewhere : Function.update fields channel (fields' channel) = fields' := by
      funext part
      by_cases here : part = channel
      · rw [here, Function.update_self]
      · rw [Function.update_of_ne here]
        have there := congrFun same part
        rwa [Function.update_of_ne here, Function.update_of_ne here] at there
    have channels : fields channel ≠ fields' channel := fun equal => different (by
      rw [← elsewhere, ← equal, Function.update_eq_self])
    refine apart ⟨fields, located⟩ (fields channel) (fields' channel) (located channel) (located' channel) channels ?_
    have there := congrFun same channel
    rw [Function.update_self, Function.update_self] at there
    refine there.trans ?_
    unfold relabel movedAt
    rw [elsewhere, Function.update_eq_self]

/-- At every row, bank, rank and subarray: a page was promoted if and only if the page of the fast channel
there was demoted to its channel. -/
def PairedHistory (widths : MemoryPartition → Nat) (fast : PromotionParams) (history : List Migration) :
    Prop :=
  ∀ location, Located widths location → location channel ≠ fast.promotionChannel →
    ((∃ migration ∈ history, SamePage migration.promotee location) ↔ ∃ migration ∈ history, SamePage migration.victim
        (Function.update location channel fast.promotionChannel) ∧ migration.promotee channel = location channel)

theorem TracksMoves.promoted_iff (tracks : TracksMoves params fast run)
    (inPage : InPage params location) (slow : location channel ≠ fast.promotionChannel) :
    run.migrator.moved (params.getAddressKey location) ≠ none ↔
      ∃ migration ∈ run.history, SamePage migration.promotee location := by
  rw [Option.ne_none_iff_exists']
  constructor
  · rintro ⟨newChannel, move⟩
    obtain ⟨migration, member, ⟨same, -⟩ | ⟨same, -⟩⟩ := (tracks.moved location inPage newChannel).mp move
    · exact ⟨migration, member, same⟩
    · exact absurd ((same channel nofun).symm.trans (tracks.victims migration member)) slow
  · rintro ⟨migration, member, same⟩
    exact ⟨fast.promotionChannel, (tracks.moved location inPage _).mpr ⟨migration, member, .inl ⟨same, rfl⟩⟩⟩

theorem TracksMoves.demoted_iff (tracks : TracksMoves params fast run)
    (inPage : InPage params location) (hub : location channel = fast.promotionChannel) (newChannel : Nat) :
    run.migrator.moved (params.getAddressKey location) = some newChannel ↔
      ∃ migration ∈ run.history, SamePage migration.victim location ∧ migration.promotee channel = newChannel := by
  rw [tracks.moved location inPage]
  constructor
  · rintro ⟨migration, member, ⟨same, -⟩ | ⟨same, rfl⟩⟩
    · exact absurd ((same channel nofun).trans hub) (tracks.promotees migration member).2
    · exact ⟨migration, member, same, rfl⟩
  · rintro ⟨migration, member, same, rfl⟩
    exact ⟨migration, member, .inr ⟨same, rfl⟩⟩

theorem TracksMoves.paired_iff (tracks : TracksMoves params fast run) (fits : MigratorFits params widths)
    (inside : fast.promotionChannel < 2 ^ widths channel) :
    Paired fast.promotionChannel (· < 2 ^ widths channel)
        (movedAt widths params run.migrator) ↔ PairedHistory widths fast run.history := by
  have each : ∀ location, Located widths location → location channel ≠ fast.promotionChannel →
      ((run.migrator.moved (params.getAddressKey location) ≠ none ↔ run.migrator.moved (params.getAddressKey
          (Function.update location channel fast.promotionChannel)) = some (location channel)) ↔
      ((∃ migration ∈ run.history, SamePage migration.promotee location) ↔
        ∃ migration ∈ run.history, SamePage migration.victim (Function.update location channel fast.promotionChannel) ∧
          migration.promotee channel = location channel)) := by
    intro location located slow
    rw [tracks.promoted_iff (fits.inPage located) slow,
      tracks.demoted_iff (fits.inPage (located_update located inside)) (Function.update_self ..)]
  constructor
  · intro paired location located slow
    refine (each location located slow).mp ?_
    have here := paired ⟨location, located⟩ (location channel) (located channel) slow
    unfold movedAt at here
    rwa [Function.update_eq_self] at here
  · intro paired place label small slow
    have located := located_update place.2 small
    have slow' : Function.update place.1 channel label channel ≠ fast.promotionChannel := by
      rwa [Function.update_self]
    have here := (each _ located slow').mpr (paired _ located slow')
    rwa [Function.update_idem, Function.update_self] at here

end Injective

/-- **Migrations keep the decoding injective exactly if they come in pairs.** For every run of migrations
that `CoinMigrator` completes. -/
theorem migration_injective_iff (params : MigratorParams) (widths : MemoryPartition → Nat)
    (fits : MigratorFits params widths) (fast : PromotionParams)
    (inside : fast.promotionChannel < 2 ^ widths channel) (steps : List MigrationStep)
    (allowed : AllowedRun (MigrationRun.act params fast) (MigrationRun.Allowed params fast) .create steps) :
    DecodesApart params (runActions (MigrationRun.act params fast) .create steps).migrator ↔
      PairedHistory widths fast (runActions (MigrationRun.act params fast) .create steps).history := by
  have tracks := allowed.invariant (TracksMoves params fast) (fun _ step => step_tracks step)
    (TracksMoves.create params fast)
  rw [decodesApart_iff fits, (tracks.moves fits inside).keepsApart_iff inside, tracks.paired_iff fits inside]

def smallMigratorWidths : MemoryPartition → Nat := smallMigrator.translator.method.bitWidths

theorem smallMigrator_fits : MigratorFits smallMigrator smallMigratorWidths where
  invertible := by
    have orders : ∀ part, smallMigrator.translator.method.order part =
        5 - ((layout [row, subarray, rank, bank, channel, col]).idxOf part : Int) := by
      intro part
      cases part <;> decide
    exact invertible_of_widths (by decide) orders rfl (fun part => by cases part <;> decide) (by decide) (by decide)
  bitWidths := rfl
  narrow := fun part => by cases part <;> decide
  numBanks := rfl
  numRanks := rfl
  numSubarrays := rfl
  numChannels := rfl

/-- Channel 0 is the fast one. -/
def smallFast : PromotionParams := ⟨0, 1, 2, 4, 4⟩

/-- The first victim is row 0 of bank 0, and so is the page that is promoted. -/
theorem migration_injective_counterpart :
    DecodesApart smallMigrator (runActions (MigrationRun.act smallMigrator smallFast) .create
      [.migrate (pageAt 0 1)]).migrator := by
  refine (migration_injective_iff smallMigrator smallMigratorWidths smallMigrator_fits smallFast (by decide)
    [.migrate (pageAt 0 1)] ⟨⟨⟨by decide, by decide, by decide, by decide⟩, by decide,
      ⟨by decide, by decide, by decide, by decide⟩, by decide, by decide⟩, trivial⟩).mpr ?_
  have history : (runActions (MigrationRun.act smallMigrator smallFast) .create
      [.migrate (pageAt 0 1)]).history = [⟨pageAt 0 1, smallFast.chooseVictim 0⟩] := rfl
  have victim : ∀ part, smallFast.chooseVictim 0 part = 0 := by
    intro part
    cases part <;> decide
  have page : ∀ part, part ≠ channel → pageAt 0 1 part = 0 := by
    intro part other
    cases part <;> first | exact absurd rfl other | rfl
  intro location located slow
  have one : location channel = 1 := by
    have small : location channel < 2 := located channel
    have slow : location channel ≠ 0 := slow
    omega
  rw [history]
  simp only [List.mem_singleton, exists_eq_left]
  constructor
  · intro same
    refine ⟨fun part other => ?_, one.symm⟩
    rw [victim]
    by_cases here : part = channel
    · rw [here, Function.update_self]
      rfl
    · rw [Function.update_of_ne here, ← same part other, page part here]
  · rintro ⟨same, -⟩ part other
    by_cases here : part = channel
    · rw [here, one]
      rfl
    · rw [page part here, ← victim part, same part other, Function.update_of_ne here]

/-- **Two pages in one place.** Row 1 of channel 1 is promoted, with row 0 of channel 0 as the victim: row 1
of channel 0 is still there. -/
theorem two_pages_collide :
    AllowedRun (MigrationRun.act smallMigrator smallFast) (MigrationRun.Allowed smallMigrator smallFast)
      .create [.migrate (pageAt 1 1)] ∧
    ¬DecodesApart smallMigrator (runActions (MigrationRun.act smallMigrator smallFast) .create
      [.migrate (pageAt 1 1)]).migrator := by
  refine ⟨⟨⟨⟨by decide, by decide, by decide, by decide⟩, by decide,
    ⟨by decide, by decide, by decide, by decide⟩, by decide, by decide⟩, trivial⟩, fun apart => ?_⟩
  have located : ∀ c < 2, Located smallMigratorWidths (pageAt 1 c) := by
    intro c small part
    cases part with
    | channel => exact small
    | row => exact (by decide : 1 < 4)
    | col | bank | rank | subarray => exact Nat.two_pow_pos _
  have slow := smallMigrator_fits.invertible.fields (pageAt 1 1) (located 1 (by decide))
  have fast := smallMigrator_fits.invertible.fields (pageAt 1 0) (located 0 (by decide))
  refine apart _ _ _ _ slow fast (fun same => absurd (congrFun same channel) (by decide)) ?_
  unfold Migrator.translate
  rw [slow, fast, Option.map_some, Option.map_some]
  congr 1
  funext part
  cases part <;> decide +kernel

end Emas.Nvmain

/-
**The migrating decoder.**

`class Migrator`: an `AddressTranslator` that sends the pages that were migrated to another channel. Pages
have one-dimensional keys (`getAddressKey`); `migrationMap` has the new channel of a page, `migrationState`
how far its migration has come. Keys are `Nat`, as the number of pages does not come near `2 ^ 64`. A read
of `migrationState[key]` where there is none inserts `MIGRATION_UNKNOWN`, which reads the same later on and
is left out. A failing `assert` is recorded in `failedAsserts`.

A checkpoint is the bytes of the file: the pairs of `migrationMap`, two 64-bit numbers each.

* `restored_moved`: no page of a restored map is redirected.
-/

import Emas.Nvmain.AddressTranslator
import Emas.Lib.SortedMap

namespace Emas.Nvmain

open MemoryPartition

/-- The fields of a translated address. -/
abbrev Location := MemoryPartition → Nat

/-- `enum MigratorState`. -/
inductive MigratorState where
  | unknown
  | reading
  | buffered
  | writing
  | done
  deriving DecidableEq, Repr

/-- What `SetConfig` caches, and the plain translator. -/
structure MigratorParams where
  translator : AddressTranslator
  numChannels : Nat
  numBanks : Nat
  numRanks : Nat
  numSubarrays : Nat

/-- `GetAddressKey( address )`. -/
def MigratorParams.getAddressKey (params : MigratorParams) (address : Location) : Nat :=
  address row * params.numBanks * params.numRanks * params.numSubarrays * params.numChannels +
  address bank * params.numRanks * params.numSubarrays * params.numChannels +
  address rank * params.numSubarrays * params.numChannels +
  address subarray * params.numChannels +
  address channel

/-- The `assert`s of the migrator. -/
inductive MigratorAssert where
  | notMigrating
  | knownPage
  | newState
  deriving DecidableEq, Repr

/-- `class Migrator`. -/
structure Migrator where
  migrationMap : SortedMap Nat Nat
  migrationState : SortedMap Nat MigratorState
  migrating : Bool
  inputPage : Nat
  outputPage : Nat
  failedAsserts : List MigratorAssert

namespace Migrator

variable (params : MigratorParams) (migrator : Migrator)

/-- `Migrator( )`. -/
def create : Migrator := ⟨.empty, .empty, false, 0, 0, []⟩

/-- `assert( condition )`. -/
def check (assertion : MigratorAssert) (condition : Bool) : Migrator :=
  if condition then migrator
  else { migrator with failedAsserts := migrator.failedAsserts ++ [assertion] }

/-- `StartMigration( promotee, demotee )`. -/
def startMigration (promotee demotee : Location) : Migrator :=
  let demoChannel := promotee channel
  let promoChannel := demotee channel
  let promokey := params.getAddressKey promotee
  let demokey := params.getAddressKey demotee
  let migrator := migrator.check .notMigrating (!migrator.migrating)
  { migrator with
    migrationMap := (migrator.migrationMap.insert promokey promoChannel).insert demokey demoChannel
    migrationState := (migrator.migrationState.insert promokey .reading).insert demokey .reading
    migrating := true
    inputPage := promokey
    outputPage := demokey }

/-- `migrationState[key]`. -/
def stateOf (key : Nat) : MigratorState := (migrator.migrationState.find? key).getD .unknown

/-- `SetMigrationState( address, newState )`. -/
def setMigrationState (address : Location) (newState : MigratorState) : Migrator :=
  let key := params.getAddressKey address
  let migrator := migrator.check .knownPage (migrator.migrationState.find? key).isSome
  let migrator := migrator.check .newState (migrator.stateOf key ≠ newState)
  let migrator := { migrator with migrationState := migrator.migrationState.insert key newState }
  if migrator.stateOf migrator.inputPage = .done ∧ migrator.stateOf migrator.outputPage = .done then
    { migrator with migrating := false }
  else migrator

/-- The channel of a page that was migrated. -/
def moved (key : Nat) : Option Nat :=
  match migrator.migrationMap.find? key with
  | some newChannel => if migrator.stateOf key = .done then some newChannel else none
  | none => none

/-- `IsMigrated( address )`. -/
def isMigrated (address : Location) : Bool := (migrator.moved (params.getAddressKey address)).isSome

/-- `IsBuffered( address )`. -/
def isBuffered (address : Location) : Bool :=
  let key := params.getAddressKey address
  (migrator.migrationMap.find? key).isSome && (migrator.stateOf key = .buffered || migrator.stateOf key = .writing)

/-- The channel is changed if needed. -/
def redirect (fields : Location) : Location :=
  match migrator.moved (params.getAddressKey fields) with
  | some newChannel => Function.update fields channel newChannel
  | none => fields

/-- `Translate( address, row, col, bank, rank, channel, subarray )`. -/
def translate (address : Nat) : Option Location :=
  (params.translator.translate address).map (migrator.redirect params)

/-- A migration from its start to its end, as in atomic mode. -/
def complete (promotee demotee : Location) : Migrator :=
  ((migrator.startMigration params promotee demotee).setMigrationState params promotee .done).setMigrationState
    params demotee .done

/-! ### Checkpoints -/

/-- The bytes of a `uint64_t`. -/
def bytes64 (value : Nat) : List Nat := (List.range 8).map fun i => value / 256 ^ i % 256

/-- The `uint64_t` of some bytes. -/
def value64 (bytes : List Nat) : Nat := bytes.foldr (fun byte value => byte + 256 * value) 0

/-- `CreateCheckpoint( dir )`: the bytes of the file. -/
def createCheckpoint : List Nat :=
  migrator.migrationMap.entries.flatMap fun entry => bytes64 entry.1 ++ bytes64 entry.2

/-- The loop of `RestoreCheckpoint`; `insert` leaves a key that is there as it is. -/
def readMappings : Nat → List Nat → SortedMap Nat Nat → SortedMap Nat Nat
  | 0, _, map => map
  | mappings + 1, file, map =>
    let address := value64 (file.take 8)
    let newChannel := value64 ((file.drop 8).take 8)
    readMappings mappings (file.drop 16) (if (map.find? address).isSome then map else map.insert address newChannel)

/-- `RestoreCheckpoint( dir )`. -/
def restoreCheckpoint (file : List Nat) : Migrator :=
  { migrator with migrationMap := readMappings (file.length / 16) file migrator.migrationMap }

theorem restored_moved (file : List Nat) (key : Nat) : (create.restoreCheckpoint file).moved key = none := by
  unfold moved
  split
  · exact if_neg nofun
  · rfl

theorem redirect_eq_self_iff (fields : Location) : migrator.redirect params fields = fields ↔
    ∀ newChannel, migrator.moved (params.getAddressKey fields) = some newChannel → newChannel = fields channel := by
  unfold redirect
  cases move : migrator.moved (params.getAddressKey fields) with
  | none => exact ⟨fun _ => nofun, fun _ => rfl⟩
  | some newChannel =>
    constructor
    · intro same other found
      have here : Function.update fields channel newChannel channel = fields channel :=
        congrFun same channel
      rw [Function.update_self] at here
      rw [← Option.some.inj found, here]
    · intro own
      rw [own newChannel rfl]
      exact Function.update_eq_self channel fields

end Migrator

/-- **A checkpoint keeps the decoding exactly if no page has moved.** For every state of the migrator, the
one restored from its checkpoint decodes every address alike if and only if no address is of a page that
was migrated to another channel. -/
theorem restored_translates_iff (params : MigratorParams) (migrator : Migrator) :
    (∀ address, (Migrator.create.restoreCheckpoint migrator.createCheckpoint).translate params address =
        migrator.translate params address) ↔ ∀ address fields, params.translator.translate address = some fields →
        ∀ newChannel, migrator.moved (params.getAddressKey fields) = some newChannel → newChannel = fields channel := by
  have plain : ∀ address, (Migrator.create.restoreCheckpoint migrator.createCheckpoint).translate params
      address = params.translator.translate address := by
    intro address
    unfold Migrator.translate
    cases params.translator.translate address with
    | none => rfl
    | some fields =>
      rw [Option.map_some, (Migrator.redirect_eq_self_iff params _ fields).mpr]
      intro newChannel found
      rw [Migrator.restored_moved] at found
      cases found
  constructor
  · intro same address fields decoded
    have here := same address
    rw [plain, Migrator.translate, decoded, Option.map_some] at here
    exact (Migrator.redirect_eq_self_iff params migrator fields).mp (Option.some.inj here.symm)
  · intro own address
    rw [plain, Migrator.translate]
    cases decoded : params.translator.translate address with
    | none => rfl
    | some fields =>
      rw [Option.map_some, (Migrator.redirect_eq_self_iff params migrator fields).mpr (own address fields decoded)]

/-- A memory of two channels, with two banks of four rows each. -/
def smallMigrator : MigratorParams where
  translator :=
    { method :=
        { bitWidths := fun
            | row => 2
            | col | bank | channel => 1
            | rank | subarray => 0
          count := fun
            | row => 4
            | col | bank | channel => 2
            | rank | subarray => 1
          order := fun
            | row => 5
            | subarray => 4
            | rank => 3
            | bank => 2
            | channel => 1
            | col => 0 }
      busWidth := 64
      burstLength := 8 }
  numChannels := 2
  numBanks := 2
  numRanks := 1
  numSubarrays := 1

def pageAt (pageRow pageChannel : Nat) : Location
  | row => pageRow
  | channel => pageChannel
  | _ => 0

/-- **A page that is back in its old channel.** Row 1 of channel 1 was migrated to channel 0; the restored
migrator decodes its first address to channel 1. -/
theorem restored_forgets :
    (Migrator.create.complete smallMigrator (pageAt 1 1) (pageAt 0 0)).migrating = false ∧
    ((Migrator.create.complete smallMigrator (pageAt 1 1) (pageAt 0 0)).translate smallMigrator
      (smallMigrator.translator.reverseTranslate (pageAt 1 1))).map (· channel) = some 0 ∧
    ((Migrator.create.restoreCheckpoint
      (Migrator.create.complete smallMigrator (pageAt 1 1) (pageAt 0 0)).createCheckpoint).translate
      smallMigrator (smallMigrator.translator.reverseTranslate (pageAt 1 1))).map (· channel) = some 1 := by
  refine ⟨by decide, by decide +kernel, by decide +kernel⟩

end Emas.Nvmain

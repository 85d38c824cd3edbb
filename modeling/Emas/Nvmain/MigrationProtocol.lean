/-
**The migration protocol.**

What holds in every run of `CoinMigrator`: for every order in which the migration reads and writes and the
other requests complete, and every answer of the controllers to the writes.
-/

import Emas.Nvmain.CoinMigrator
import Mathlib.Data.List.Infix

namespace Emas.Nvmain

open MemoryPartition MixedRadix

/-! ### The statements -/

/-- The moves of a page in a migration. The read that comes last may be buffered and the write queued at
once. -/
inductive Advances : MigratorState → MigratorState → Prop where
  | buffer : Advances .reading .buffered
  | bufferWrite : Advances .reading .writing
  | write : Advances .buffered .writing
  | finish : Advances .buffered .done
  | finishWrite : Advances .writing .done

/-- One event: a page keeps its state, moves on, or is one of a new migration; and a migration starts only if
there was none, or both pages of the last one are done. -/
structure OrderlyStep (before after : CoinMigrator) : Prop where
  started : after.started = before.started ∨ after.started = before.started + 1
  moves : after.started = before.started →
    after.migrator.inputPage = before.migrator.inputPage ∧
    after.migrator.outputPage = before.migrator.outputPage ∧
    ∀ page, after.migrator.stateOf page = before.migrator.stateOf page ∨
      Advances (before.migrator.stateOf page) (after.migrator.stateOf page)
  starts : after.started = before.started + 1 →
    after.migrator.stateOf after.migrator.inputPage = .reading ∧
    after.migrator.stateOf after.migrator.outputPage = .reading ∧
    (before.started = 0 ∨ before.migrator.stateOf before.migrator.inputPage = .done ∧
      before.migrator.stateOf before.migrator.outputPage = .done)

/-- No assertion of the migrator has failed; a page has one accepted write at most, and one if it is done. -/
structure SoundMigration (coin : CoinMigrator) : Prop where
  asserts : coin.migrator.failedAsserts = []
  once : coin.accepted.Nodup
  pages : ∀ page ∈ coin.accepted, page = coin.migrator.inputPage ∨ page = coin.migrator.outputPage
  input : coin.migrator.stateOf coin.migrator.inputPage = .done → coin.migrator.inputPage ∈ coin.accepted
  output : coin.migrator.stateOf coin.migrator.outputPage = .done → coin.migrator.outputPage ∈ coin.accepted

/-- A page is done only if the write that carries the other page's address has completed. -/
def DoneAfterOther (coin : CoinMigrator) : Prop :=
  (coin.migrator.stateOf coin.migrator.inputPage = .done → coin.migrator.outputPage ∈ coin.completed) ∧
  (coin.migrator.stateOf coin.migrator.outputPage = .done → coin.migrator.inputPage ∈ coin.completed)

/-! ### The migrator -/

section Migrator

variable {params : MigratorParams} {migrator : Migrator} {address : Location} {newState : MigratorState}

@[simp] theorem setMigrationState_inputPage :
    (migrator.setMigrationState params address newState).inputPage = migrator.inputPage := by
  unfold Migrator.setMigrationState Migrator.check
  grind

@[simp] theorem setMigrationState_outputPage :
    (migrator.setMigrationState params address newState).outputPage = migrator.outputPage := by
  unfold Migrator.setMigrationState Migrator.check
  grind

theorem stateOf_setMigrationState (page : Nat) :
    (migrator.setMigrationState params address newState).stateOf page =
      if page = params.getAddressKey address then newState else migrator.stateOf page := by
  unfold Migrator.stateOf
  rw [setMigrationState_migrationState, SortedMap.find?_insert]
  split <;> rfl

theorem stateOf_startMigration (promotee demotee : Location) (page : Nat) :
    (migrator.startMigration params promotee demotee).stateOf page =
      if page = params.getAddressKey demotee ∨ page = params.getAddressKey promotee then .reading
      else migrator.stateOf page := by
  unfold Migrator.stateOf Migrator.startMigration
  simp only [check_migrationState, SortedMap.find?_insert]
  grind

theorem setMigrationState_migrating :
    (migrator.setMigrationState params address newState).migrating =
      if (migrator.setMigrationState params address newState).stateOf migrator.inputPage = .done ∧
        (migrator.setMigrationState params address newState).stateOf migrator.outputPage = .done
      then false else migrator.migrating := by
  unfold Migrator.setMigrationState Migrator.check Migrator.stateOf
  grind

theorem setMigrationState_failedAsserts (known : migrator.stateOf (params.getAddressKey address) ≠ .unknown)
    (new : migrator.stateOf (params.getAddressKey address) ≠ newState) :
    (migrator.setMigrationState params address newState).failedAsserts = migrator.failedAsserts := by
  have found : (migrator.migrationState.find? (params.getAddressKey address)).isSome := by
    rw [Option.isSome_iff_ne_none]
    intro none
    rw [Migrator.stateOf, none] at known
    exact known rfl
  unfold Migrator.setMigrationState Migrator.check
  grind

end Migrator

/-! ### The phases -/

/-- How far the write of a page's address has come. -/
inductive WriteStage where
  | waiting
  | queued
  | done
  deriving DecidableEq

/-- The states of the page. -/
def WriteStage.Fits : WriteStage → MigratorState → Prop
  | .waiting, state => state = .buffered
  | .queued, state => state = .buffered ∨ state = .writing
  | .done, state => state = .done

/-- The migrator while two pages change places, until both are done. -/
structure Exchanging (migrator : Migrator) (input output : Nat) : Prop where
  migrating : migrator.migrating = !decide (migrator.stateOf input = .done ∧ migrator.stateOf output = .done)
  inputPage : migrator.inputPage = input
  outputPage : migrator.outputPage = output
  apart : input ≠ output
  inputMapped : (migrator.migrationMap.find? input).isSome
  outputMapped : (migrator.migrationMap.find? output).isSome
  asserts : migrator.failedAsserts = []

/-- A migration has been started, between the pages of these two requests. -/
structure Engaged (coin : CoinMigrator) (promo demo : MigrationRequest) (input output : Nat) : Prop
    extends Exchanging coin.migrator input output where
  started : 0 < coin.started
  promoRequest : coin.promoRequest = some promo
  demoRequest : coin.demoRequest = some demo
  promoId : promo.id < coin.created
  demoId : demo.id < coin.created
  ids : promo.id ≠ demo.id

/-- The pages are read; the flags say which reads have completed. -/
structure Reading (params : MigratorParams) (coin : CoinMigrator) (promo demo : MigrationRequest)
    (input output : Nat) (promoRead demoRead : Bool) : Prop extends Engaged coin promo demo input output where
  promoTag : promo.tag = .read
  demoTag : demo.tag = .read
  promoKey : params.getAddressKey promo.address = input
  demoKey : params.getAddressKey demo.address = output
  promotee : params.getAddressKey coin.promotee = input
  demotee : params.getAddressKey coin.demotee = output
  promoBuffered : coin.promoBuffered = false
  demoBuffered : coin.demoBuffered = false
  inputState : coin.migrator.stateOf input = if promoRead then .buffered else .reading
  outputState : coin.migrator.stateOf output = if demoRead then .buffered else .reading
  outstanding : ∀ request, request ∈ coin.outstanding ↔
    promoRead = false ∧ request = promo ∨ demoRead = false ∧ request = demo
  accepted : coin.accepted = []
  completed : coin.completed = []

/-- The pages are written: the promotee's address by the request of the demotee, and conversely. -/
structure Writing (params : MigratorParams) (coin : CoinMigrator) (promo demo : MigrationRequest)
    (input output : Nat) (inputStage outputStage : WriteStage) : Prop
    extends Engaged coin promo demo input output where
  promoTag : promo.tag = .write
  demoTag : demo.tag = .write
  promoKey : params.getAddressKey promo.address = output
  demoKey : params.getAddressKey demo.address = input
  promoBuffered : coin.promoBuffered = decide (outputStage = .waiting)
  demoBuffered : coin.demoBuffered = decide (inputStage = .waiting)
  inputState : inputStage.Fits (coin.migrator.stateOf input)
  outputState : outputStage.Fits (coin.migrator.stateOf output)
  outstanding : ∀ request, request ∈ coin.outstanding ↔
    inputStage = .queued ∧ request = demo ∨ outputStage = .queued ∧ request = promo
  once : coin.accepted.Nodup
  accepted : ∀ page, page ∈ coin.accepted ↔
    page = input ∧ inputStage ≠ .waiting ∨ page = output ∧ outputStage ≠ .waiting
  completed : ∀ page, page ∈ coin.completed ↔ page = input ∧ inputStage = .done ∨ page = output ∧ outputStage = .done

/-- No migration is in progress: there was none, or both pages of the last one are done. -/
structure Settled (coin : CoinMigrator) : Prop where
  migrating : coin.migrator.migrating = false
  asserts : coin.migrator.failedAsserts = []
  promoBuffered : coin.promoBuffered = false
  demoBuffered : coin.demoBuffered = false
  outstanding : coin.outstanding = []
  once : coin.accepted.Nodup
  pages : coin.started = 0 ∧ coin.migrator = .create ∧ coin.accepted = [] ∨
    0 < coin.started ∧
    coin.migrator.stateOf coin.migrator.inputPage = .done ∧
    coin.migrator.stateOf coin.migrator.outputPage = .done ∧
    (∀ page, page ∈ coin.accepted ↔ page = coin.migrator.inputPage ∨ page = coin.migrator.outputPage) ∧
    ∀ page, page ∈ coin.completed ↔ page = coin.migrator.inputPage ∨ page = coin.migrator.outputPage

/-- **The phases of a migration.** -/
inductive Phase (params : MigratorParams) (coin : CoinMigrator) : Prop where
  | resting (rest : Settled coin)
  | reading {promo demo : MigrationRequest} {input output : Nat} {promoRead demoRead : Bool}
      (reading : Reading params coin promo demo input output promoRead demoRead)
      (unread : promoRead = false ∨ demoRead = false)
  | writing {promo demo : MigrationRequest} {input output : Nat} {inputStage outputStage : WriteStage}
      (writing : Writing params coin promo demo input output inputStage outputStage)
      (unwritten : inputStage ≠ .done ∨ outputStage ≠ .done)

theorem Phase.create (params : MigratorParams) : Phase params .create :=
  .resting ⟨rfl, rfl, rfl, rfl, rfl, List.nodup_nil, .inl ⟨rfl, rfl, rfl⟩⟩

/-- **Every phase is sound.** -/
theorem Phase.sound {params : MigratorParams} {coin : CoinMigrator} (phase : Phase params coin) :
    SoundMigration coin := by
  cases phase with
  | resting rest =>
    rcases rest.pages with ⟨-, fresh, none⟩ | ⟨-, -, -, accepted, -⟩
    · refine ⟨rest.asserts, rest.once, ?_, ?_, ?_⟩
      · rw [none]
        nofun
      · rw [fresh]
        nofun
      · rw [fresh]
        nofun
    · exact ⟨rest.asserts, rest.once, fun page => (accepted page).mp,
        fun _ => (accepted _).mpr (.inl rfl), fun _ => (accepted _).mpr (.inr rfl)⟩
  | @reading promo demo input output promoRead demoRead reading _ =>
    refine ⟨reading.asserts, ?_, ?_, ?_, ?_⟩
    · rw [reading.accepted]
      exact List.nodup_nil
    · rw [reading.accepted]
      nofun
    · rw [reading.inputPage, reading.inputState]
      cases promoRead <;> nofun
    · rw [reading.outputPage, reading.outputState]
      cases demoRead <;> nofun
  | @writing promo demo input output inputStage outputStage writing _ =>
    refine ⟨writing.asserts, writing.once, fun page member => ?_, fun finished => ?_, fun finished => ?_⟩
    · rw [writing.inputPage, writing.outputPage]
      exact ((writing.accepted page).mp member).imp And.left And.left
    · rw [writing.inputPage] at finished ⊢
      refine (writing.accepted input).mpr (.inl ⟨rfl, fun waits => ?_⟩)
      have state := writing.inputState
      rw [waits, WriteStage.Fits, finished] at state
      cases state
    · rw [writing.outputPage] at finished ⊢
      refine (writing.accepted output).mpr (.inr ⟨rfl, fun waits => ?_⟩)
      have state := writing.outputState
      rw [waits, WriteStage.Fits, finished] at state
      cases state

theorem OrderlyStep.within {before after : CoinMigrator} (started : after.started = before.started)
    (inputPage : after.migrator.inputPage = before.migrator.inputPage)
    (outputPage : after.migrator.outputPage = before.migrator.outputPage)
    (moves : ∀ page, after.migrator.stateOf page = before.migrator.stateOf page ∨
      Advances (before.migrator.stateOf page) (after.migrator.stateOf page)) : OrderlyStep before after :=
  ⟨.inl started, fun _ => ⟨inputPage, outputPage, moves⟩, fun more => by omega⟩

/-! ### Reads that complete -/

variable {address : Location}

variable {request : MigrationRequest}

section Reads

variable {params : MigratorParams} {migrator : Migrator} {coin : CoinMigrator} {first second : MigrationRequest}
  {input output : Nat} {promoRead demoRead : Bool}

theorem Exchanging.set (exchanging : Exchanging migrator input output)
    {newState : MigratorState} (known : migrator.stateOf (params.getAddressKey address) ≠ .unknown)
    (new : migrator.stateOf (params.getAddressKey address) ≠ newState)
    (unfinished : ¬(migrator.stateOf input = .done ∧ migrator.stateOf output = .done)) :
    Exchanging (migrator.setMigrationState params address newState) input output where
  migrating := by
    rw [setMigrationState_migrating, exchanging.inputPage, exchanging.outputPage, exchanging.migrating,
      decide_eq_false unfinished]
    split
    · rename_i both
      rw [decide_eq_true both]
      rfl
    · rename_i either
      rw [decide_eq_false either]
  inputPage := setMigrationState_inputPage.trans exchanging.inputPage
  outputPage := setMigrationState_outputPage.trans exchanging.outputPage
  apart := exchanging.apart
  inputMapped := by
    rw [setMigrationState_migrationMap]
    exact exchanging.inputMapped
  outputMapped := by
    rw [setMigrationState_migrationMap]
    exact exchanging.outputMapped
  asserts := (setMigrationState_failedAsserts known new).trans exchanging.asserts

/-- **One of the two pages moves on**, in order. -/
theorem Exchanging.advance (exchanging : Exchanging migrator input output) {page : Nat}
    {newState : MigratorState} (key : params.getAddressKey address = page) (one : page = input ∨ page = output)
    (moves : Advances (migrator.stateOf page) newState) :
    Exchanging (migrator.setMigrationState params address newState) input output ∧
    (∀ other, (migrator.setMigrationState params address newState).stateOf other =
      if other = page then newState else migrator.stateOf other) ∧
    ∀ other, (migrator.setMigrationState params address newState).stateOf other = migrator.stateOf other ∨
      Advances (migrator.stateOf other) ((migrator.setMigrationState params address newState).stateOf other) := by
  have unfinished : migrator.stateOf page ≠ .done := fun finished => by
    rw [finished] at moves
    cases moves
  have states : ∀ other, (migrator.setMigrationState params address newState).stateOf other =
      if other = page then newState else migrator.stateOf other := fun other => by
    rw [stateOf_setMigrationState, key]
  refine ⟨exchanging.set ?_ ?_ ?_, states, fun other => ?_⟩
  · intro unknown
    rw [key] at unknown
    rw [unknown] at moves
    cases moves
  · intro same
    rw [key] at same
    rw [same] at moves
    cases moves
  · rintro ⟨inputDone, outputDone⟩
    rcases one with rfl | rfl
    · exact unfinished inputDone
    · exact unfinished outputDone
  · rw [states other]
    split
    · rename_i here
      rw [here]
      exact .inr moves
    · exact .inl rfl

theorem isBuffered_other {address other : Location} {read : Bool}
    (mapped : (migrator.migrationMap.find? (params.getAddressKey other)).isSome)
    (state : migrator.stateOf (params.getAddressKey other) = if read then .buffered else .reading)
    (apart : params.getAddressKey other ≠ params.getAddressKey address) :
    (migrator.setMigrationState params address .buffered).isBuffered params other = read := by
  unfold Migrator.isBuffered
  dsimp only
  rw [setMigrationState_migrationMap, mapped, stateOf_setMigrationState, if_neg apart, state]
  cases read <;> rfl

theorem keepRequest_frame (request : MigrationRequest) :
    (coin.keepRequest request).migrator = coin.migrator ∧ (coin.keepRequest request).started = coin.started := by
  unfold CoinMigrator.keepRequest CoinMigrator.check
  grind

theorem Reading.promoComplete (reading : Reading params coin first second input output false demoRead) :
    Reading params ({ coin.finish params first with
        migrator := coin.migrator.setMigrationState params first.address .buffered }.keepRequest first)
      { first with id := coin.created } second input output true demoRead := by
  have own : CoinMigrator.isRequest first coin.promoRequest = true := by
    simp [CoinMigrator.isRequest, reading.promoRequest]
  have kept : ({ coin.finish params first with
      migrator := coin.migrator.setMigrationState params first.address .buffered }.keepRequest first) =
    { coin.finish params first with
      migrator := coin.migrator.setMigrationState params first.address .buffered
      promoRequest := some { first with id := coin.created }
      created := coin.created + 1 } := by
    simp [CoinMigrator.keepRequest, CoinMigrator.finish, own]
  have moves : Advances (coin.migrator.stateOf input) .buffered := by
    rw [reading.inputState]
    exact .buffer
  obtain ⟨moved, states, -⟩ := reading.toExchanging.advance reading.promoKey (.inl rfl) moves
  rw [kept]
  generalize coin.migrator.setMigrationState params first.address .buffered = migrator at moved states ⊢
  exact
    { moved, reading with
      promoRequest := rfl
      promoId := Nat.lt_succ_self _
      demoId := reading.demoId.trans (Nat.lt_succ_self _)
      ids := reading.demoId.ne'
      inputState := by
        rw [states, if_pos rfl]
        rfl
      outputState := by
        rw [states, if_neg reading.apart.symm]
        exact reading.outputState
      outstanding := fun request => by
        have members := reading.outstanding request
        have ids := reading.ids
        simp [CoinMigrator.finish]
        grind
      completed := by
        simp [CoinMigrator.finish, reading.promoTag, reading.completed] }

theorem Reading.demoComplete (reading : Reading params coin first second input output promoRead false) :
    Reading params ({ coin.finish params second with
        migrator := coin.migrator.setMigrationState params second.address .buffered }.keepRequest second)
      first { second with id := coin.created } input output promoRead true := by
  have other : CoinMigrator.isRequest second coin.promoRequest = false := by
    simp [CoinMigrator.isRequest, reading.promoRequest, reading.ids]
  have own : CoinMigrator.isRequest second coin.demoRequest = true := by
    simp [CoinMigrator.isRequest, reading.demoRequest]
  have kept : ({ coin.finish params second with
      migrator := coin.migrator.setMigrationState params second.address .buffered }.keepRequest second) =
    { coin.finish params second with
      migrator := coin.migrator.setMigrationState params second.address .buffered
      demoRequest := some { second with id := coin.created }
      created := coin.created + 1 } := by
    simp [CoinMigrator.keepRequest, CoinMigrator.finish, other, own]
  have moves : Advances (coin.migrator.stateOf output) .buffered := by
    rw [reading.outputState]
    exact .buffer
  obtain ⟨moved, states, -⟩ := reading.toExchanging.advance reading.demoKey (.inr rfl) moves
  rw [kept]
  generalize coin.migrator.setMigrationState params second.address .buffered = migrator at moved states ⊢
  exact
    { moved, reading with
      demoRequest := rfl
      demoId := Nat.lt_succ_self _
      promoId := reading.promoId.trans (Nat.lt_succ_self _)
      ids := reading.promoId.ne
      inputState := by
        rw [states, if_neg reading.apart]
        exact reading.inputState
      outputState := by
        rw [states, if_pos rfl]
        rfl
      outstanding := fun request => by
        have members := reading.outstanding request
        have ids := reading.ids
        simp [CoinMigrator.finish]
        grind
      completed := by
        simp [CoinMigrator.finish, reading.demoTag, reading.completed] }

theorem issueWrite_eq (request : MigrationRequest) (issued : Bool) :
    coin.issueWrite params request issued =
      { coin with
        outstanding := coin.outstanding ++ if issued then [request] else []
        accepted := coin.accepted ++ if issued then [params.getAddressKey request.address] else [] } := by
  cases issued <;> simp [CoinMigrator.issueWrite]

theorem markWriting_eq (request : MigrationRequest) (issued : Bool) :
    coin.markWriting params request issued =
      { coin with migrator :=
          if issued then coin.migrator.setMigrationState params request.address .writing
          else coin.migrator } := by
  cases issued <;> rfl

theorem Exchanging.mark (exchanging : Exchanging migrator input output) {page : Nat}
    (issued : Bool) (key : params.getAddressKey address = page) (one : page = input ∨ page = output)
    (buffered : migrator.stateOf page = .buffered) :
    Exchanging (if issued then migrator.setMigrationState params address .writing else migrator) input output ∧
    ∀ other, (if issued then migrator.setMigrationState params address .writing else migrator).stateOf other =
      if issued ∧ other = page then .writing else migrator.stateOf other := by
  cases issued with
  | false => exact ⟨exchanging, fun other => (if_neg nofun).symm⟩
  | true =>
    have moves : Advances (migrator.stateOf page) .writing := by
      rw [buffered]
      exact .write
    obtain ⟨moved, states, -⟩ := exchanging.advance key one moves
    rw [if_pos rfl]
    refine ⟨moved, fun other => ?_⟩
    simp [states]

/-- **Both pages are buffered**, and written. -/
theorem Reading.swapAndWrite (reading : Reading params coin first second input output true true)
    (demoIssued promoIssued : Bool) :
    Writing params (coin.swapAndWrite params demoIssued promoIssued)
      { first with address := second.address, tag := .write }
      { second with address := first.address, tag := .write } input output
      (if demoIssued then .queued else .waiting) (if promoIssued then .queued else .waiting) ∧
    (coin.swapAndWrite params demoIssued promoIssued).started = coin.started ∧
    ∀ page, (coin.swapAndWrite params demoIssued promoIssued).migrator.stateOf page = coin.migrator.stateOf page ∨
      coin.migrator.stateOf page = .buffered ∧
        (coin.swapAndWrite params demoIssued promoIssued).migrator.stateOf page = .writing := by
  have inputState : coin.migrator.stateOf input = .buffered := reading.inputState
  have outputState : coin.migrator.stateOf output = .buffered := reading.outputState
  have none : coin.outstanding = [] := List.eq_nil_iff_forall_not_mem.mpr fun request member => by
    simpa using (reading.outstanding request).mp member
  obtain ⟨marked, states⟩ := reading.toExchanging.mark demoIssued reading.promoKey (.inl rfl) inputState
  obtain ⟨marked', states'⟩ := marked.mark promoIssued reading.demoKey (.inr rfl)
    (by rw [states, if_neg fun h => reading.apart h.2.symm, outputState])
  simp only [states] at states'
  unfold CoinMigrator.swapAndWrite
  rw [reading.promoRequest, reading.demoRequest]
  simp only [issueWrite_eq, markWriting_eq, none, reading.accepted, reading.promoKey, reading.demoKey]
  generalize (if promoIssued = true then _ else _ : Migrator) = final at marked' states' ⊢
  refine ⟨?_, trivial, fun page => ?_⟩
  · exact
      { marked', reading with
        promoRequest := rfl
        demoRequest := rfl
        promoTag := rfl
        demoTag := rfl
        promoKey := reading.demoKey
        demoKey := reading.promoKey
        promoBuffered := by cases promoIssued <;> rfl
        demoBuffered := by cases demoIssued <;> rfl
        inputState := by
          rw [states', inputState]
          cases demoIssued <;> simp [WriteStage.Fits, reading.apart]
        outputState := by
          rw [states', outputState]
          cases promoIssued <;> simp [WriteStage.Fits, reading.apart.symm]
        outstanding := fun request => by
          cases demoIssued <;> cases promoIssued <;> simp
        once := by
          cases demoIssued <;> cases promoIssued <;> simp [reading.apart]
        accepted := fun page => by
          cases demoIssued <;> cases promoIssued <;> simp
        completed := fun page => by
          rw [reading.completed]
          cases demoIssued <;> cases promoIssued <;> simp }
  · rw [states' page]
    grind

theorem Reading.conclude (reading : Reading params coin first second input output promoRead demoRead)
    (before : CoinMigrator) (started : coin.started = before.started)
    (inputPage : before.migrator.inputPage = input) (outputPage : before.migrator.outputPage = output)
    (states : ∀ page, coin.migrator.stateOf page = before.migrator.stateOf page ∨
      before.migrator.stateOf page = .reading ∧ coin.migrator.stateOf page = .buffered)
    (demoIssued promoIssued : Bool) {after : CoinMigrator}
    (next : after = if promoRead && demoRead then coin.swapAndWrite params demoIssued promoIssued else coin) :
    Phase params after ∧ OrderlyStep before after := by
  by_cases both : promoRead = true ∧ demoRead = true
  · obtain ⟨rfl, rfl⟩ := both
    obtain ⟨writing, same, marks⟩ := reading.swapAndWrite demoIssued promoIssued
    rw [Bool.and_self, if_pos rfl] at next
    obtain rfl := next
    refine ⟨.writing writing (.inl (by split <;> nofun)), .within (same.trans started)
      (writing.inputPage.trans inputPage.symm) (writing.outputPage.trans outputPage.symm) fun page => ?_⟩
    rcases marks page with mark | ⟨buffered, mark⟩
    · rcases states page with same | ⟨read, buffered⟩
      · exact .inl (mark.trans same)
      · rw [read, mark, buffered]
        exact .inr .buffer
    · rcases states page with same | ⟨read, -⟩
      · rw [← same, buffered, mark]
        exact .inr .write
      · rw [read, mark]
        exact .inr .bufferWrite
  · have one : promoRead = false ∨ demoRead = false := by
      cases promoRead <;> cases demoRead <;> simp at both ⊢
    rw [if_neg (by simpa using both)] at next
    obtain rfl := next
    refine ⟨.reading reading one, .within started (reading.inputPage.trans inputPage.symm)
      (reading.outputPage.trans outputPage.symm) fun page => ?_⟩
    rcases states page with same | ⟨read, buffered⟩
    · exact .inl same
    · rw [read, buffered]
      exact .inr .buffer

/-- **A migration read completes.** -/
theorem Reading.complete (reading : Reading params coin first second input output promoRead demoRead)
    (member : request ∈ coin.outstanding) (fast : PromotionParams) (demoIssued promoIssued : Bool) :
    Phase params (coin.act params fast (.complete request demoIssued promoIssued)) ∧
      OrderlyStep coin (coin.act params fast (.complete request demoIssued promoIssued)) := by
  have other : CoinMigrator.isRequest second coin.promoRequest = false ∧
      CoinMigrator.isRequest first coin.demoRequest = false := by
    simp [CoinMigrator.isRequest, reading.promoRequest, reading.demoRequest, reading.ids, reading.ids.symm]
  have own : CoinMigrator.isRequest first coin.promoRequest = true ∧
      CoinMigrator.isRequest second coin.demoRequest = true := by
    simp [CoinMigrator.isRequest, reading.promoRequest, reading.demoRequest]
  rcases (reading.outstanding request).mp member with ⟨rfl, rfl⟩ | ⟨rfl, rfl⟩
  · have buffered : (coin.migrator.setMigrationState params request.address .buffered).isBuffered params
        coin.demotee = demoRead :=
      isBuffered_other (by rw [reading.demotee]; exact reading.outputMapped)
        (by rw [reading.demotee]; exact reading.outputState)
        (by rw [reading.demotee, reading.promoKey]; exact reading.apart.symm)
    refine reading.promoComplete.conclude coin (keepRequest_frame _).2 reading.inputPage reading.outputPage
      (fun page => ?_) demoIssued promoIssued ?_
    · rw [(keepRequest_frame _).1, stateOf_setMigrationState, reading.promoKey]
      split
      · rename_i here
        rw [here, reading.inputState]
        exact .inr ⟨rfl, rfl⟩
      · exact .inl rfl
    · rw [Bool.true_and, CoinMigrator.act, CoinMigrator.requestComplete, reading.promoTag]
      unfold CoinMigrator.readComplete
      simp only [CoinMigrator.finish, own.1, other.2, buffered, Bool.true_and, Bool.false_and, Bool.or_false]
  · have buffered : (coin.migrator.setMigrationState params request.address .buffered).isBuffered params
        coin.promotee = promoRead :=
      isBuffered_other (by rw [reading.promotee]; exact reading.inputMapped)
        (by rw [reading.promotee]; exact reading.inputState)
        (by rw [reading.promotee, reading.demoKey]; exact reading.apart)
    refine reading.demoComplete.conclude coin (keepRequest_frame _).2 reading.inputPage reading.outputPage
      (fun page => ?_) demoIssued promoIssued ?_
    · rw [(keepRequest_frame _).1, stateOf_setMigrationState, reading.demoKey]
      split
      · rename_i here
        rw [here, reading.outputState]
        exact .inr ⟨rfl, rfl⟩
      · exact .inl rfl
    · rw [Bool.and_true, CoinMigrator.act, CoinMigrator.requestComplete, reading.demoTag]
      unfold CoinMigrator.readComplete
      simp only [CoinMigrator.finish, own.2, other.1, buffered, Bool.true_and, Bool.false_and, Bool.false_or]

end Reads

/-! ### Writes that complete -/

section Writes

variable {params : MigratorParams} {coin : CoinMigrator} {first second : MigrationRequest}
  {input output : Nat} {inputStage outputStage : WriteStage}

theorem WriteStage.Fits.done_iff {stage : WriteStage} {state : MigratorState} (fits : stage.Fits state) :
    state = .done ↔ stage = .done := by
  cases stage <;> simp_all [WriteStage.Fits]
  rcases fits with rfl | rfl <;> nofun

theorem WriteStage.Fits.advances {state : MigratorState} (fits : WriteStage.queued.Fits state) :
    Advances state .done := by
  rcases fits with rfl | rfl
  · exact .finish
  · exact .finishWrite

theorem act_write (tag : request.tag = .write) (fast : PromotionParams)
    (demoIssued promoIssued : Bool) : coin.act params fast (.complete request demoIssued promoIssued) =
      { coin with
        outstanding := coin.outstanding.filter (·.id ≠ request.id)
        completed := coin.completed ++ [params.getAddressKey request.address]
        migrator := coin.migrator.setMigrationState params request.address .done
        migrationCount := coin.migrationCount + 1 } := by
  simp only [CoinMigrator.act, CoinMigrator.requestComplete, CoinMigrator.finish, CoinMigrator.writeComplete, tag]

theorem Writing.phase (writing : Writing params coin first second input output inputStage outputStage) :
    Phase params coin := by
  by_cases both : inputStage = .done ∧ outputStage = .done
  · obtain ⟨rfl, rfl⟩ := both
    have finished := writing.inputState
    have finished' := writing.outputState
    unfold WriteStage.Fits at finished finished'
    refine .resting ⟨?_, writing.asserts, writing.promoBuffered, writing.demoBuffered, ?_, writing.once,
      .inr ⟨writing.started, ?_, ?_, fun page => ?_, fun page => ?_⟩⟩
    · rw [writing.migrating, finished, finished']
      rfl
    · refine List.eq_nil_iff_forall_not_mem.mpr fun request member => ?_
      simpa using (writing.outstanding request).mp member
    · rw [writing.inputPage, finished]
    · rw [writing.outputPage, finished']
    · rw [writing.accepted, writing.inputPage, writing.outputPage]
      simp
    · rw [writing.completed, writing.inputPage, writing.outputPage]
      simp
  · exact .writing writing (Decidable.not_and_iff_or_not.mp both)

theorem Writing.demoComplete (writing : Writing params coin first second input output .queued outputStage)
    (fast : PromotionParams) (demoIssued promoIssued : Bool) :
    Writing params (coin.act params fast (.complete second demoIssued promoIssued)) first second input output
        .done outputStage ∧ OrderlyStep coin (coin.act params fast (.complete second demoIssued promoIssued)) := by
  obtain ⟨moved, states, moves⟩ :=
    writing.toExchanging.advance writing.demoKey (.inl rfl) writing.inputState.advances
  rw [act_write writing.demoTag, writing.demoKey]
  refine ⟨?_, .within rfl setMigrationState_inputPage setMigrationState_outputPage moves⟩
  generalize coin.migrator.setMigrationState params second.address .done = migrator at moved states ⊢
  exact
    { moved, writing with
      inputState := by
        rw [states, if_pos rfl]
        rfl
      outputState := by
        rw [states, if_neg writing.apart.symm]
        exact writing.outputState
      outstanding := fun request => by
        have ids := writing.ids
        rw [List.mem_filter, writing.outstanding]
        grind
      accepted := fun page => by
        rw [writing.accepted]
        simp
      completed := fun page => by
        rw [List.mem_append, writing.completed, List.mem_singleton]
        simp [or_comm] }

theorem Writing.promoComplete (writing : Writing params coin first second input output inputStage .queued)
    (fast : PromotionParams) (demoIssued promoIssued : Bool) :
    Writing params (coin.act params fast (.complete first demoIssued promoIssued)) first second input output
        inputStage .done ∧ OrderlyStep coin (coin.act params fast (.complete first demoIssued promoIssued)) := by
  obtain ⟨moved, states, moves⟩ :=
    writing.toExchanging.advance writing.promoKey (.inr rfl) writing.outputState.advances
  rw [act_write writing.promoTag, writing.promoKey]
  refine ⟨?_, .within rfl setMigrationState_inputPage setMigrationState_outputPage moves⟩
  generalize coin.migrator.setMigrationState params first.address .done = migrator at moved states ⊢
  exact
    { moved, writing with
      inputState := by
        rw [states, if_neg writing.apart]
        exact writing.inputState
      outputState := by
        rw [states, if_pos rfl]
        rfl
      outstanding := fun request => by
        have ids := writing.ids
        rw [List.mem_filter, writing.outstanding]
        grind
      accepted := fun page => by
        rw [writing.accepted]
        simp
      completed := fun page => by
        rw [List.mem_append, writing.completed, List.mem_singleton]
        simp }

/-- **A migration write completes.** -/
theorem Writing.complete (writing : Writing params coin first second input output inputStage outputStage)
    (member : request ∈ coin.outstanding) (fast : PromotionParams) (demoIssued promoIssued : Bool) :
    Phase params (coin.act params fast (.complete request demoIssued promoIssued)) ∧
      OrderlyStep coin (coin.act params fast (.complete request demoIssued promoIssued)) := by
  rcases (writing.outstanding request).mp member with ⟨rfl, rfl⟩ | ⟨rfl, rfl⟩
  · obtain ⟨next, orderly⟩ := writing.demoComplete fast demoIssued promoIssued
    exact ⟨next.phase, orderly⟩
  · obtain ⟨next, orderly⟩ := writing.promoComplete fast demoIssued promoIssued
    exact ⟨next.phase, orderly⟩

end Writes

/-! ### Other requests that complete -/

section Others

variable {params : MigratorParams} {coin : CoinMigrator} {first second : MigrationRequest}
  {input output : Nat} {inputStage outputStage : WriteStage}

theorem Writing.retryPromo (writing : Writing params coin first second input output inputStage .waiting)
    (issued : Bool) :
    Writing params { coin.issueWrite params first issued with promoBuffered := !issued } first second
      input output inputStage (if issued then .queued else .waiting) := by
  cases issued with
  | false => exact { writing with promoBuffered := rfl }
  | true =>
    rw [issueWrite_eq, writing.promoKey]
    have fresh : output ∉ coin.accepted := by simp [writing.accepted, writing.apart.symm]
    exact
      { writing with
        promoBuffered := rfl
        outputState := .inl writing.outputState
        outstanding := fun request => by
          rw [List.mem_append, writing.outstanding]
          simp
        once := writing.once.append (List.nodup_singleton _) (List.disjoint_singleton.mpr fresh)
        accepted := fun page => by
          rw [List.mem_append, writing.accepted]
          simp
        completed := fun page => by
          rw [writing.completed]
          simp }

theorem Writing.retryDemo (writing : Writing params coin first second input output .waiting outputStage)
    (issued : Bool) :
    Writing params { coin.issueWrite params second issued with demoBuffered := !issued } first second
      input output (if issued then .queued else .waiting) outputStage := by
  cases issued with
  | false => exact { writing with demoBuffered := rfl }
  | true =>
    rw [issueWrite_eq, writing.demoKey]
    have fresh : input ∉ coin.accepted := by simp [writing.accepted, writing.apart]
    exact
      { writing with
        demoBuffered := rfl
        inputState := .inl writing.inputState
        outstanding := fun request => by
          rw [List.mem_append, writing.outstanding]
          simp [or_comm]
        once := writing.once.append (List.nodup_singleton _) (List.disjoint_singleton.mpr fresh)
        accepted := fun page => by
          rw [List.mem_append, writing.accepted]
          simp [or_comm]
        completed := fun page => by
          rw [writing.completed]
          simp }

/-- The demotee's write, which is issued again after the promotee's. -/
theorem Writing.otherDemo (writing : Writing params coin first second input output inputStage outputStage)
    (demoIssued : Bool) : ∃ after, (match coin.demoBuffered, coin.demoRequest with
      | true, some demoRequest =>
        { coin.issueWrite params demoRequest demoIssued with demoBuffered := !demoIssued }
      | _, _ => coin) = after ∧
    (∃ inputStage', Writing params after first second input output inputStage' outputStage) ∧
    after.migrator = coin.migrator ∧ after.started = coin.started := by
  rw [writing.demoBuffered, writing.demoRequest]
  by_cases waits : inputStage = .waiting
  · subst waits
    exact ⟨_, rfl, ⟨_, writing.retryDemo demoIssued⟩, by cases demoIssued <;> rfl, by cases demoIssued <;> rfl⟩
  · rw [decide_eq_false waits]
    exact ⟨coin, rfl, ⟨_, writing⟩, rfl, rfl⟩

/-- **Some other request completes** while the pages are written. -/
theorem Writing.otherComplete (writing : Writing params coin first second input output inputStage outputStage)
    (promoIssued demoIssued : Bool) :
    (∃ inputStage' outputStage', Writing params (coin.otherComplete params promoIssued demoIssued) first second
      input output inputStage' outputStage') ∧
    (coin.otherComplete params promoIssued demoIssued).migrator = coin.migrator ∧
    (coin.otherComplete params promoIssued demoIssued).started = coin.started := by
  by_cases waits : outputStage = .waiting
  · subst waits
    obtain ⟨after, done, ⟨_, retried⟩, migrator, started⟩ := (writing.retryPromo promoIssued).otherDemo demoIssued
    have issued : coin.otherComplete params promoIssued demoIssued = after := by
      rewrite [← done, CoinMigrator.otherComplete, writing.promoBuffered, writing.promoRequest]
      rfl
    rw [issued, migrator, started]
    exact ⟨⟨_, _, retried⟩, by cases promoIssued <;> rfl, by cases promoIssued <;> rfl⟩
  · obtain ⟨after, done, ⟨_, retried⟩, migrator, started⟩ := writing.otherDemo demoIssued
    have issued : coin.otherComplete params promoIssued demoIssued = after := by
      rewrite [← done, CoinMigrator.otherComplete, writing.promoBuffered, writing.promoRequest, decide_eq_false waits]
      rfl
    rw [issued, migrator, started]
    exact ⟨⟨_, _, retried⟩, rfl, rfl⟩

end Others

/-! ### Requests that are issued -/

section Issues

variable {params : MigratorParams} {fast : PromotionParams} {coin : CoinMigrator}

theorem key_ne_of_channel_ne {first second : Location} (inside : first channel < params.numChannels)
    (inside' : second channel < params.numChannels) (different : first channel ≠ second channel) :
    params.getAddressKey first ≠ params.getAddressKey second := by
  have number : ∀ location : Location, params.getAddressKey location =
      (location row * params.numBanks * params.numRanks * params.numSubarrays +
        location bank * params.numRanks * params.numSubarrays + location rank * params.numSubarrays +
        location subarray) * params.numChannels + location channel :=
    fun location => by
      unfold MigratorParams.getAddressKey
      ring
  intro same
  rw [number, number] at same
  exact different (mul_add_inj inside inside' same).2

/-- **A migration starts.** -/
theorem Settled.startMigration (rest : Settled coin)
    (promotee : params.getAddressKey coin.promotee = params.getAddressKey address)
    (apart : params.getAddressKey address ≠ params.getAddressKey coin.demotee) :
    Reading params (coin.startMigration params address) ⟨coin.created, coin.promotee, .read⟩
      ⟨coin.created + 1, coin.demotee, .read⟩ (params.getAddressKey address)
      (params.getAddressKey coin.demotee) false false := by
  have checked : coin.migrator.check .notMigrating (!coin.migrator.migrating) = coin.migrator := by
    rw [rest.migrating]
    rfl
  have outputState : (coin.startMigration params address).migrator.stateOf
      (params.getAddressKey coin.demotee) = .reading := by
    simp [CoinMigrator.startMigration, Migrator.startMigration, Migrator.stateOf]
  have inputState : (coin.startMigration params address).migrator.stateOf
      (params.getAddressKey address) = .reading := by
    simp [CoinMigrator.startMigration, Migrator.startMigration, Migrator.stateOf, SortedMap.find?_insert, apart]
  exact
    { migrating := by
        rw [decide_eq_false (by simp [inputState])]
        rfl
      inputPage := rfl
      outputPage := rfl
      apart := apart
      inputMapped := by
        simp [CoinMigrator.startMigration, Migrator.startMigration, SortedMap.find?_insert]
        split <;> rfl
      outputMapped := by
        simp [CoinMigrator.startMigration, Migrator.startMigration]
      asserts := by
        simp only [CoinMigrator.startMigration, Migrator.startMigration, checked]
        exact rest.asserts
      started := Nat.succ_pos _
      promoRequest := rfl
      demoRequest := rfl
      promoId := Nat.lt_add_of_pos_right (by decide)
      demoId := Nat.lt_succ_self _
      ids := (Nat.lt_succ_self _).ne
      promoTag := rfl
      demoTag := rfl
      promoKey := promotee
      demoKey := rfl
      promotee := promotee
      demotee := rfl
      promoBuffered := rest.promoBuffered
      demoBuffered := rest.demoBuffered
      inputState := inputState
      outputState := outputState
      outstanding := fun request => by
        simp [CoinMigrator.startMigration, rest.outstanding]
      accepted := rfl
      completed := rfl }

theorem Phase.rest (phase : Phase params coin) (still : coin.migrator.migrating = false) : Settled coin := by
  cases phase with
  | resting rest => exact rest
  | @reading promo demo input output promoRead demoRead reading _ =>
    rw [reading.migrating, reading.inputState] at still
    cases promoRead <;> simp at still
  | @writing promo demo input output inputStage outputStage writing unwritten =>
    rw [writing.migrating] at still
    simp [writing.inputState.done_iff, writing.outputState.done_iff] at still
    exact absurd still.2 (unwritten.resolve_left fun open' => open' still.1)

theorem Settled.check (rest : Settled coin) (assertion : CoinAssert) (condition : Bool) :
    Settled (coin.check assertion condition) := by
  cases condition
  · exact { rest with }
  · exact rest

theorem Phase.buffered (phase : Phase params coin) (reads : Nat) :
    Phase params { coin with bufferedReads := reads } := by
  cases phase with
  | resting rest => exact .resting { rest with }
  | reading reading unread => exact .reading { reading with } unread
  | writing writing unwritten => exact .writing { writing with } unwritten

theorem OrderlyStep.refl (coin : CoinMigrator) : OrderlyStep coin coin :=
  .within rfl rfl rfl fun _ => .inl rfl

theorem Settled.migrate (rest : Settled coin) (inside : fast.promotionChannel < params.numChannels)
    (inside' : address channel < params.numChannels)
    (slow : address channel ≠ fast.promotionChannel) (issuable : Bool) :
    Phase params (coin.migrate params fast address issuable false) ∧
      OrderlyStep coin (coin.migrate params fast address issuable false) := by
  obtain ⟨chosen, resting, started, migrator, promotee, demotee, next⟩ : ∃ chosen, Settled chosen ∧
      chosen.started = coin.started ∧ chosen.migrator = coin.migrator ∧
      chosen.promotee = Function.update address col 0 ∧
      chosen.demotee = fast.chooseVictim coin.currentPromotionPage ∧
      coin.migrate params fast address issuable false =
        if issuable then chosen.startMigration params address
        else { chosen with queueWaits := chosen.queueWaits + 1 } := by
    have start : Settled (coin.chooseVictim fast address) := { rest with }
    refine ⟨_, (start.check _ _).check _ _, ?_, ?_, ?_, ?_, rfl⟩
    all_goals
      unfold CoinMigrator.check
      split <;> split <;> rfl
  have page : params.getAddressKey chosen.promotee = params.getAddressKey address := by
    rw [promotee]
    exact SamePage.key_eq fun part other => Function.update_of_ne other ..
  have apart : params.getAddressKey address ≠ params.getAddressKey chosen.demotee := by
    rw [demotee]
    exact key_ne_of_channel_ne inside' inside slow
  rw [next]
  cases issuable with
  | false =>
    rw [if_neg nofun]
    exact ⟨.resting { resting with }, .within started (congrArg Migrator.inputPage migrator)
      (congrArg Migrator.outputPage migrator) fun page => .inl (congrArg (·.stateOf page) migrator)⟩
  | true =>
    rw [if_pos rfl]
    have reading := resting.startMigration page apart
    refine ⟨.reading reading (.inl rfl), .inr (congrArg (· + 1) started), fun same => ?_, fun _ => ⟨?_, ?_, ?_⟩⟩
    · exact absurd (started.trans same.symm) (Nat.lt_succ_self _).ne
    · exact reading.inputState
    · exact reading.outputState
    · exact rest.pages.imp And.left fun ended => ⟨ended.2.1, ended.2.2.1⟩

/-- **A request is issued.** -/
theorem Phase.issue (phase : Phase params coin) (inside : fast.promotionChannel < params.numChannels)
    (hook : HookType) (inside' : address channel < params.numChannels) (toss issuable : Bool) :
    Phase params (coin.act params fast (.issue hook address toss issuable)) ∧
      OrderlyStep coin (coin.act params fast (.issue hook address toss issuable)) := by
  unfold CoinMigrator.act CoinMigrator.tryMigration
  cases hook with
  | preIssue =>
    dsimp only
    split
    · exact ⟨phase.buffered _, .within rfl rfl rfl fun _ => .inl rfl⟩
    · exact ⟨phase, .refl coin⟩
  | postIssue =>
    dsimp only
    split
    · rename_i possible
      simp only [Bool.and_eq_true, Bool.not_eq_true', bne_iff_ne] at possible
      have rest := phase.rest possible.1.1
      have checked : coin.check .buffersEmpty (!coin.demoBuffered && !coin.promoBuffered) = coin := by
        rw [rest.demoBuffered, rest.promoBuffered]
        rfl
      rw [checked]
      cases toss with
      | false => exact ⟨phase, .refl coin⟩
      | true => exact rest.migrate inside inside' possible.2 issuable
    · exact ⟨phase, .refl coin⟩

end Issues

/-! ### Runs -/

section Runs

variable {params : MigratorParams} {fast : PromotionParams} {coin : CoinMigrator}

theorem otherComplete_eq_self (promoBuffered : coin.promoBuffered = false) (demoBuffered : coin.demoBuffered = false)
    (promoIssued demoIssued : Bool) : coin.otherComplete params promoIssued demoIssued = coin := by
  unfold CoinMigrator.otherComplete
  simp only [promoBuffered, demoBuffered]

variable {event : CoinEvent}

/-- **Every event leads from a phase to a phase**, in order. -/
theorem Phase.act (phase : Phase params coin) (inside : fast.promotionChannel < params.numChannels)
    (allowed : coin.Allowed params event) :
    Phase params (coin.act params fast event) ∧ OrderlyStep coin (coin.act params fast event) := by
  cases event with
  | issue hook address toss issuable => exact phase.issue inside hook allowed toss issuable
  | complete request demoIssued promoIssued =>
    cases phase with
    | resting rest =>
      unfold CoinMigrator.Allowed at allowed
      rw [rest.outstanding] at allowed
      cases allowed
    | reading reading _ => exact reading.complete allowed fast demoIssued promoIssued
    | writing writing _ => exact writing.complete allowed fast demoIssued promoIssued
  | completeOther promoIssued demoIssued =>
    rw [CoinMigrator.act]
    cases phase with
    | resting rest =>
      rw [otherComplete_eq_self rest.promoBuffered rest.demoBuffered]
      exact ⟨.resting rest, .refl coin⟩
    | reading reading unread =>
      rw [otherComplete_eq_self reading.promoBuffered reading.demoBuffered]
      exact ⟨.reading reading unread, .refl coin⟩
    | writing writing _ =>
      obtain ⟨⟨_, _, next⟩, migrator, started⟩ := writing.otherComplete promoIssued demoIssued
      exact ⟨next.phase, .within started (congrArg Migrator.inputPage migrator)
        (congrArg Migrator.outputPage migrator) fun page => .inl (congrArg (·.stateOf page) migrator)⟩

theorem act_not_done (reads : ¬event.WriteCompletes) {page : Nat}
    (unfinished : coin.migrator.stateOf page ≠ .done) : (coin.act params fast event).migrator.stateOf page ≠ .done := by
  cases event with
  | issue hook address toss issuable =>
    unfold CoinMigrator.act CoinMigrator.tryMigration CoinMigrator.migrate CoinMigrator.startMigration
      CoinMigrator.check CoinMigrator.chooseVictim
    grind [stateOf_startMigration]
  | complete request demoIssued promoIssued =>
    have read : request.tag = .read := by
      cases tag : request.tag with
      | read => rfl
      | write => exact absurd tag reads
    have same : (coin.finish params request).migrator = coin.migrator := rfl
    unfold CoinMigrator.act CoinMigrator.requestComplete CoinMigrator.readComplete CoinMigrator.swapAndWrite
    grind [stateOf_setMigrationState, issueWrite_eq, markWriting_eq, keepRequest_frame]
  | completeOther promoIssued demoIssued =>
    unfold CoinMigrator.act CoinMigrator.otherComplete CoinMigrator.issueWrite
    grind

theorem Writing.not_doneAfterOther {first second : MigrationRequest} {input output : Nat}
    {inputStage outputStage : WriteStage}
    (writing : Writing params coin first second input output inputStage outputStage)
    (one : ¬(inputStage = .done ↔ outputStage = .done)) : ¬DoneAfterOther coin := by
  intro order
  unfold DoneAfterOther at order
  rw [writing.inputPage, writing.outputPage, writing.inputState.done_iff, writing.outputState.done_iff,
    writing.completed, writing.completed] at order
  have apart := writing.apart
  grind

theorem Phase.write_completes (phase : Phase params coin) (fast : PromotionParams)
    (allowed : coin.Allowed params event) (write : event.WriteCompletes) :
    ¬(DoneAfterOther coin ∧ DoneAfterOther (coin.act params fast event)) := by
  rintro ⟨order, order'⟩
  cases event with
  | issue _ _ _ _ => exact write
  | completeOther _ _ => exact write
  | complete request demoIssued promoIssued =>
    have allowed : request ∈ coin.outstanding := allowed
    have write : request.tag = .write := write
    cases phase with
    | resting rest =>
      rw [rest.outstanding] at allowed
      cases allowed
    | reading reading _ =>
      rcases (reading.outstanding request).mp allowed with ⟨-, rfl⟩ | ⟨-, rfl⟩
      · rw [reading.promoTag] at write
        cases write
      · rw [reading.demoTag] at write
        cases write
    | @writing promo demo input output inputStage outputStage writing _ =>
      rcases (writing.outstanding request).mp allowed with ⟨rfl, rfl⟩ | ⟨rfl, rfl⟩
      · by_cases other : outputStage = .done
        · exact writing.not_doneAfterOther (by simp [other]) order
        · exact (writing.demoComplete fast demoIssued promoIssued).1.not_doneAfterOther (by simp [other]) order'
      · by_cases other : inputStage = .done
        · exact writing.not_doneAfterOther (by simp [other]) order
        · exact (writing.promoComplete fast demoIssued promoIssued).1.not_doneAfterOther (by simp [other]) order'

end Runs

/-- Row 1 of channel 1 and its victim, row 0 of channel 0, are read; the write with the victim's address is
accepted at once, the other one when some request completes. -/
def firstWrites : List CoinEvent :=
  [.issue .postIssue (pageAt 1 1) true true, .complete ⟨0, Function.update (pageAt 1 1) col 0, .read⟩ false false,
    .complete ⟨1, smallFast.chooseVictim 0, .read⟩ false true, .completeOther false true]

end Emas.Nvmain

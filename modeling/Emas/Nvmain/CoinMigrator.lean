/-
**The coin-tossing migrator.**

`class CoinMigrator`: the hook that starts migrations and carries them through. A migration reads the promoted
page and its victim; when both are buffered the addresses of the two requests are swapped and both are
written. A write that the controller rejects is tried again whenever some other request completes.

`CoinMigrator` here is the hook, the `Migrator` it drives, and the memory below: the migration requests that
were accepted and have not completed (`outstanding`), and for the migration that was started last the pages
whose writes were accepted and completed. Requests are told apart by `id`, as the code does by pointer; the
type of a request goes with its tag, and its owner is always the parent of the hook. Whether the coin, the
queues and the controllers say yes is an input of the events, as is the request that completes.

A failing `assert` is recorded: those of `TryMigration` and `RequestComplete` in `failedAsserts`, those of the
migrator there.
-/

import Emas.Nvmain.MigrationDecoding

namespace Emas.Nvmain

open MemoryPartition

/-- `MIG_READ_TAG` and `MIG_WRITE_TAG`. -/
inductive MigrationTag where
  | read
  | write
  deriving DecidableEq, Repr

/-- An `NVMainRequest` of a migration. -/
structure MigrationRequest where
  id : Nat
  address : Location
  tag : MigrationTag

/-- The `assert`s of the hook. -/
inductive CoinAssert where
  | buffersEmpty
  | demoteeStays
  | promoteeStays
  | ownRead
  deriving DecidableEq, Repr

/-- `NVMHOOK_PREISSUE` and `NVMHOOK_POSTISSUE`. -/
inductive HookType where
  | preIssue
  | postIssue
  deriving DecidableEq, Repr

/-- `class CoinMigrator`, its migrator, and the memory below. -/
structure CoinMigrator where
  migrator : Migrator
  promotee : Location
  demotee : Location
  promoRequest : Option MigrationRequest
  demoRequest : Option MigrationRequest
  promoBuffered : Bool
  demoBuffered : Bool
  currentPromotionPage : Nat
  migrationCount : Nat
  queueWaits : Nat
  bufferedReads : Nat
  failedAsserts : List CoinAssert
  created : Nat
  started : Nat
  outstanding : List MigrationRequest
  accepted : List Nat
  completed : List Nat

namespace CoinMigrator

/-- `CoinMigrator( )`, before any request. -/
def create : CoinMigrator where
  migrator := .create
  promotee := fun _ => 0
  demotee := fun _ => 0
  promoRequest := none
  demoRequest := none
  promoBuffered := false
  demoBuffered := false
  currentPromotionPage := 0
  migrationCount := 0
  queueWaits := 0
  bufferedReads := 0
  failedAsserts := []
  created := 0
  started := 0
  outstanding := []
  accepted := []
  completed := []

variable (params : MigratorParams) (fast : PromotionParams) (coin : CoinMigrator)

/-- `assert( condition )`. -/
def check (assertion : CoinAssert) (condition : Bool) : CoinMigrator :=
  if condition then coin else { coin with failedAsserts := coin.failedAsserts ++ [assertion] }

/-! ### Requests that complete -/

/-- `IssueCommand( request )` on the controller, for a write. -/
def issueWrite (request : MigrationRequest) (issued : Bool) : CoinMigrator :=
  if issued then
    { coin with
      outstanding := coin.outstanding ++ [request]
      accepted := coin.accepted ++ [params.getAddressKey request.address] }
  else coin

/-- `SetMigrationState( request->address, MIGRATION_WRITING )` of a write that was issued. -/
def markWriting (request : MigrationRequest) (issued : Bool) : CoinMigrator :=
  if issued then
    { coin with migrator := coin.migrator.setMigrationState params request.address .writing }
  else coin

/-- `request == pending`. -/
def isRequest (request : MigrationRequest) (pending : Option MigrationRequest) : Bool :=
  pending.map MigrationRequest.id = some request.id

/-- The parent deletes the request: a copy is kept for the write. -/
def keepRequest (request : MigrationRequest) : CoinMigrator :=
  let copy := { request with id := coin.created }
  if isRequest request coin.promoRequest then
    { coin with promoRequest := some copy, created := coin.created + 1 }
  else if isRequest request coin.demoRequest then
    { coin with demoRequest := some copy, created := coin.created + 1 }
  else coin.check .ownRead false

/-- The addresses are swapped, and both pages written. -/
def swapAndWrite (demoIssued promoIssued : Bool) : CoinMigrator :=
  match coin.promoRequest, coin.demoRequest with
  | some promoRequest, some demoRequest =>
    let tempAddress := promoRequest.address
    let promoRequest := { promoRequest with address := demoRequest.address, tag := .write }
    let demoRequest := { demoRequest with address := tempAddress, tag := .write }
    let coin := { coin with promoRequest := some promoRequest, demoRequest := some demoRequest }
    let coin := coin.issueWrite params demoRequest demoIssued
    let coin := coin.issueWrite params promoRequest promoIssued
    let coin := coin.markWriting params demoRequest demoIssued
    let coin := coin.markWriting params promoRequest promoIssued
    { coin with promoBuffered := !promoIssued, demoBuffered := !demoIssued }
  | _, _ => coin

/-- A read of the migration has completed. -/
def readComplete (request : MigrationRequest) (demoIssued promoIssued : Bool) : CoinMigrator :=
  let coin := { coin with migrator := coin.migrator.setMigrationState params request.address .buffered }
  let bufferComplete :=
    isRequest request coin.promoRequest && coin.migrator.isBuffered params coin.demotee ||
    isRequest request coin.demoRequest && coin.migrator.isBuffered params coin.promotee
  let coin := coin.keepRequest request
  if bufferComplete then coin.swapAndWrite params demoIssued promoIssued else coin

/-- A write of the migration has completed. -/
def writeComplete (request : MigrationRequest) : CoinMigrator :=
  { coin with
    migrator := coin.migrator.setMigrationState params request.address .done
    migrationCount := coin.migrationCount + 1 }

/-- Some other request completed: the writes that were rejected are issued again. -/
def otherComplete (promoIssued demoIssued : Bool) : CoinMigrator :=
  let coin :=
    match coin.promoBuffered, coin.promoRequest with
    | true, some promoRequest =>
      { coin.issueWrite params promoRequest promoIssued with promoBuffered := !promoIssued }
    | _, _ => coin
  match coin.demoBuffered, coin.demoRequest with
  | true, some demoRequest =>
    { coin.issueWrite params demoRequest demoIssued with demoBuffered := !demoIssued }
  | _, _ => coin

/-- `RequestComplete( request )` of a migration request. -/
def requestComplete (request : MigrationRequest) (demoIssued promoIssued : Bool) : CoinMigrator :=
  match request.tag with
  | .read => coin.readComplete params request demoIssued promoIssued
  | .write => coin.writeComplete params request

/-! ### Requests that are issued -/

/-- `ChooseVictim( migratorTranslator, promotee, demotee )`, for the page of a request. -/
def chooseVictim (address : Location) : CoinMigrator :=
  { coin with
    promotee := Function.update address col 0
    demotee := fast.chooseVictim coin.currentPromotionPage
    currentPromotionPage := (coin.currentPromotionPage + 1) % fast.totalPromotionPages }

def startMigration (address : Location) : CoinMigrator :=
  let promoRequest := ⟨coin.created, coin.promotee, .read⟩
  let demoRequest := ⟨coin.created + 1, coin.demotee, .read⟩
  { coin with
    migrator := coin.migrator.startMigration params address coin.demotee
    promoRequest := some promoRequest
    demoRequest := some demoRequest
    created := coin.created + 2
    started := coin.started + 1
    outstanding := coin.outstanding ++ [promoRequest, demoRequest]
    accepted := []
    completed := [] }

/-- The coin came up: a victim is chosen, and the migration started if its reads can be queued. -/
def migrate (address : Location) (issuable atomic : Bool) : CoinMigrator :=
  let coin := coin.chooseVictim fast address
  let coin := coin.check .demoteeStays (!coin.migrator.isMigrated params coin.demotee)
  let coin := coin.check .promoteeStays (!coin.migrator.isMigrated params coin.promotee)
  if atomic then
    let migrator := coin.migrator.startMigration params address coin.demotee
    let migrator := migrator.setMigrationState params coin.promotee .done
    { coin with migrator := migrator.setMigrationState params coin.demotee .done }
  else if issuable then coin.startMigration params address
  else { coin with queueWaits := coin.queueWaits + 1 }

/-- `TryMigration( request, atomic )`: what it returns and leaves. `toss` is `coinToss <= probability`,
`issuable` that both reads can be queued. -/
def tryMigration (hook : HookType) (address : Location) (toss issuable atomic : Bool) : Bool × CoinMigrator :=
  match hook with
  | .preIssue =>
    if coin.migrator.isBuffered params address then
      (false, { coin with bufferedReads := coin.bufferedReads + 1 })
    else (true, coin)
  | .postIssue =>
    let migrationPossible := !coin.migrator.migrating && !coin.migrator.isMigrated params address &&
      address channel != fast.promotionChannel
    if migrationPossible then
      let coin := coin.check .buffersEmpty (!coin.demoBuffered && !coin.promoBuffered)
      (true, if toss then coin.migrate params fast address issuable atomic else coin)
    else (true, coin)

end CoinMigrator

/-! ### Runs -/

/-- A request is issued, a migration request completes, or another request does; with the answers of the
controllers. -/
inductive CoinEvent where
  | issue (hook : HookType) (address : Location) (toss issuable : Bool)
  | complete (request : MigrationRequest) (demoIssued promoIssued : Bool)
  | completeOther (promoIssued demoIssued : Bool)

namespace CoinMigrator

variable (params : MigratorParams) (fast : PromotionParams) (coin : CoinMigrator)

/-- The request leaves the memory. -/
def finish (request : MigrationRequest) : CoinMigrator :=
  { coin with
    outstanding := coin.outstanding.filter (·.id ≠ request.id)
    completed := match request.tag with
      | .read => coin.completed
      | .write => coin.completed ++ [params.getAddressKey request.address] }

/-- What an event leaves of the migrator. -/
def act : CoinEvent → CoinMigrator
  | .issue hook address toss issuable => (coin.tryMigration params fast hook address toss issuable false).2
  | .complete request demoIssued promoIssued =>
    (coin.finish params request).requestComplete params request demoIssued promoIssued
  | .completeOther promoIssued demoIssued => coin.otherComplete params promoIssued demoIssued

/-- The requests that are issued have a channel of the memory; those that complete were accepted. -/
def Allowed : CoinEvent → Prop
  | .issue _ address _ _ => address channel < params.numChannels
  | .complete request _ _ => request ∈ coin.outstanding
  | .completeOther _ _ => True

end CoinMigrator

/-- A write of the migration completes. -/
def CoinEvent.WriteCompletes : CoinEvent → Prop
  | .complete request _ _ => request.tag = .write
  | _ => False

end Emas.Nvmain

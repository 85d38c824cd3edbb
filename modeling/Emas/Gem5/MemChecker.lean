/-
**A checker of memory operations.**

`MemChecker` for one byte: it is told when reads and writes start and complete, and says of each completed read
whether what it returned is among the values to be expected. No result stands for an assertion that fails.

* A map from serials lists the transactions by serial. The order of `writes` is that in which they started; an
  unordered map has them in any order.
-/

import Mathlib.Logic.Function.Basic
import Mathlib.Algebra.Group.Nat.Defs

namespace Emas.Gem5

/-! ### Transactions -/

def tickFuture : Nat := 2 ^ 64 - 1

/-- `MemChecker::Transaction`. -/
structure Transaction where
  serial : Nat
  start : Nat
  complete : Nat
  data : UInt8
  deriving DecidableEq

/-- `insert` of a map from serials, which keeps the entry that it has. -/
def insertTransaction (transaction : Transaction) : List Transaction → List Transaction
  | [] => [transaction]
  | first :: rest =>
    if transaction.serial < first.serial then transaction :: first :: rest
    else if transaction.serial = first.serial then first :: rest
    else first :: insertTransaction transaction rest

section LastCompleted

variable {α : Type} (complete : α → Nat) (before : Nat)

/-- The list from `lastCompletedTransaction( l, before )` on. -/
def fromLastCompleted : List α → List α
  | [] => []
  | first :: rest =>
    match fromLastCompleted rest with
    | [] => [first]
    | last :: later => if complete last < before then last :: later else first :: rest

end LastCompleted

/-! ### Write clusters -/

/-- `MemChecker::WriteCluster`. -/
structure WriteCluster where
  start : Nat
  complete : Nat
  writes : List Transaction
  completeMax : Nat
  numIncomplete : Nat

namespace WriteCluster

/-- `WriteCluster()`. -/
def fresh : WriteCluster := ⟨tickFuture, tickFuture, [], 0, 0⟩

variable (cluster : WriteCluster)

def isComplete : Bool := decide (cluster.complete ≠ tickFuture)

/-- `startWrite( serial, _start, data )`. A map keeps the entry that it has under a serial. -/
def startWrite (serial tick : Nat) (data : UInt8) : Option WriteCluster :=
  if cluster.isComplete then none
  else
    let start := if cluster.start = tickFuture then tick else cluster.start
    if ¬ start ≤ tick then none
    else if cluster.complete ≠ tickFuture ∧ ¬ tick < cluster.complete then none
    else some
      { cluster with
        start := start
        complete := tickFuture
        numIncomplete := cluster.numIncomplete + 1
        writes :=
          if cluster.writes.any fun write => decide (write.serial = serial) then cluster.writes
          else cluster.writes ++ [⟨serial, tick, tickFuture, data⟩] }

def completeWrite (serial tick : Nat) : Option WriteCluster :=
  match cluster.writes.find? fun write => decide (write.serial = serial) with
  | none => some cluster
  | some write =>
    if write.complete ≠ tickFuture then none
    else
      let completeMax := if cluster.completeMax < tick then tick else cluster.completeMax
      let numIncomplete := cluster.numIncomplete - 1
      some
        { cluster with
          complete := if numIncomplete = 0 then completeMax else cluster.complete
          writes := cluster.writes.map fun write =>
            if write.serial = serial then { write with complete := tick } else write
          completeMax := completeMax
          numIncomplete := numIncomplete }

def abortWrite (serial : Nat) : WriteCluster :=
  if cluster.writes.any fun write => decide (write.serial = serial) then
    let writes := cluster.writes.filter fun write => decide (write.serial ≠ serial)
    let numIncomplete := cluster.numIncomplete - 1
    { cluster with
      complete := if numIncomplete = 0 ∧ writes ≠ [] then cluster.completeMax else cluster.complete
      writes := writes
      numIncomplete := numIncomplete }
  else cluster

end WriteCluster

/-! ### A byte -/

/-- `MemChecker::ByteTracker`. -/
structure ByteTracker where
  outstandingReads : List Transaction
  readObservations : List Transaction
  writeClusters : List WriteCluster
  lastExpectedData : List UInt8

/-- What the loops of `inExpectedData` know; `found` ends them. -/
structure Scan where
  found : Bool
  wcOverlap : Bool
  lastObsValid : Bool
  expected : List UInt8

namespace Scan

variable (lastObs : Transaction) (start : Nat) (data : UInt8)

/-- The loop over the writes of a cluster. -/
def writes : List Transaction → Scan → Scan
  | [], scan => scan
  | write :: rest, scan =>
    if write.complete < lastObs.start then writes rest scan
    else if write.data = data then { scan with found := true }
    else
      let scan := { scan with expected := scan.expected ++ [write.data] }
      if write.complete > start then writes rest scan
      else
        writes rest
          { scan with
            wcOverlap := false
            lastObsValid := if lastObs.complete < write.start then false else scan.lastObsValid }

/-- The loop over the clusters, from the newest on. -/
def clusters : List WriteCluster → Scan → Scan
  | [], scan => scan
  | cluster :: older, scan =>
    if scan.found || !scan.wcOverlap then scan
    else clusters older (writes lastObs start data cluster.writes scan)

end Scan

namespace ByteTracker

/-- `ByteTracker()`. -/
def fresh : ByteTracker := ⟨[], [⟨0, 0, 0, 0⟩], [], []⟩

variable (tracker : ByteTracker)

def startRead (serial tick : Nat) : ByteTracker :=
  { tracker with outstandingReads := insertTransaction ⟨serial, tick, tickFuture, 0⟩ tracker.outstandingReads }

/-- `inExpectedData( start, complete, data )`, with `_lastExpectedData`. -/
def inExpectedData (start complete : Nat) (data : UInt8) : Option (Bool × List UInt8) :=
  match (fromLastCompleted Transaction.complete start tracker.readObservations).head? with
  | none => none
  | some lastObs =>
    let scan := Scan.clusters lastObs start data tracker.writeClusters.reverse
      ⟨false, true, decide (lastObs.complete ≠ 0), []⟩
    if scan.found then some (true, scan.expected)
    else if scan.lastObsValid then
      if ¬ lastObs.complete ≤ start then none
      else if lastObs.data = data then some (true, scan.expected)
      else some (false, scan.expected ++ [lastObs.data])
    else
      match tracker.writeClusters.head?, tracker.writeClusters.getLast?, scan.wcOverlap with
      | some first, some last, true =>
        if first.start < complete ∧ last.complete > start then some (true, scan.expected) else none
      | _, _, _ =>
        if scan.expected = [] then if lastObs.complete = 0 then some (true, scan.expected) else none
        else some (false, scan.expected)

def pruneTransactions (curTick : Nat) : ByteTracker :=
  let before := match tracker.outstandingReads with
    | [] => curTick
    | first :: _ => first.start
  { tracker with
    readObservations := fromLastCompleted Transaction.complete before tracker.readObservations
    writeClusters := fromLastCompleted WriteCluster.complete before tracker.writeClusters }

def completeRead (serial tick : Nat) (data : UInt8) : Option (Bool × ByteTracker) :=
  match tracker.outstandingReads.find? fun read => decide (read.serial = serial) with
  | none => some (true, tracker)
  | some read =>
    (tracker.inExpectedData read.start tick data).map fun (result, expected) =>
      (result,
        { tracker with
          outstandingReads := tracker.outstandingReads.filter fun read => decide (read.serial ≠ serial)
          readObservations := tracker.readObservations ++ [⟨serial, read.start, tick, data⟩]
          lastExpectedData := expected : ByteTracker }.pruneTransactions tick)

/-- `getIncompleteWriteCluster()`, after the clusters before it. -/
def getIncompleteWriteCluster : List WriteCluster × WriteCluster :=
  match tracker.writeClusters.getLast? with
  | some back =>
    if back.isComplete then (tracker.writeClusters, .fresh) else (tracker.writeClusters.dropLast, back)
  | none => ([], .fresh)

def setIncompleteWriteCluster (cluster : WriteCluster) : ByteTracker :=
  { tracker with writeClusters := tracker.getIncompleteWriteCluster.1 ++ [cluster] }

def startWrite (serial tick : Nat) (data : UInt8) : Option ByteTracker :=
  (tracker.getIncompleteWriteCluster.2.startWrite serial tick data).map tracker.setIncompleteWriteCluster

def completeWrite (serial tick : Nat) : Option ByteTracker :=
  (tracker.getIncompleteWriteCluster.2.completeWrite serial tick).map fun cluster =>
    (tracker.setIncompleteWriteCluster cluster).pruneTransactions tick

def abortWrite (serial : Nat) : ByteTracker :=
  tracker.setIncompleteWriteCluster (tracker.getIncompleteWriteCluster.2.abortWrite serial)

end ByteTracker

end Emas.Gem5

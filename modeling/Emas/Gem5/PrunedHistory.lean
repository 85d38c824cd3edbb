/-
**Pruning is invisible.**

A tracker that prunes against one whose `pruneTransactions` does nothing, for the same calls. What is left of a list
starts with an entry that completed before all reads that are still to be checked (`PrunedOf`), so the last observation
before such a read is the same, and the scan of the clusters gets no further than to that entry: either a write of it
ends the scan, or all of its writes are older than the last observation, and those of earlier clusters are, too.

* `Scan.clusters_pruned`: **the scan does not need what has been pruned**.
* `pruning_invisible`: **the answers are the same**, and what is removed is complete. An assertion that fails in one of
  the two fails in the other.
-/

import Emas.Gem5.WriteClusters
import Emas.Lib.PartialRun
import Mathlib.Data.List.Nodup

namespace Emas.Gem5

/-! ### Calls of a tracker -/

/-- A call on the tracker of a byte. -/
inductive TrackerCall where
  | startRead (tick serial : Nat)
  | completeRead (tick serial : Nat) (data : UInt8)
  | startWrite (tick serial : Nat) (data : UInt8)
  | completeWrite (tick serial : Nat)
  | abortWrite (tick serial : Nat)

namespace TrackerCall

/-- What `curTick()` is. -/
def tick : TrackerCall → Nat
  | .startRead tick _ | .completeRead tick _ _ | .startWrite tick _ _ | .completeWrite tick _ | .abortWrite tick _ => tick

/-- The serial of the read that the call starts. -/
def startedRead : TrackerCall → Option Nat
  | .startRead _ serial => some serial
  | _ => none

end TrackerCall

namespace ByteTracker

variable (tracker : ByteTracker)

/-- A call, with the answer to a read. No result stands for an assertion that fails. -/
def act : TrackerCall → Option (Option Bool × ByteTracker)
  | .startRead tick serial => some (none, tracker.startRead serial tick)
  | .completeRead tick serial data => (tracker.completeRead serial tick data).map fun (result, next) => (some result, next)
  | .startWrite tick serial data => (tracker.startWrite serial tick data).map fun next => (none, next)
  | .completeWrite tick serial => (tracker.completeWrite serial tick).map fun next => (none, next)
  | .abortWrite _ serial => some (none, tracker.abortWrite serial)

/-- `completeRead( serial, complete, data )` without `pruneTransactions`. -/
def completeReadKeeping (serial tick : Nat) (data : UInt8) : Option (Bool × ByteTracker) :=
  match tracker.outstandingReads.find? fun read => decide (read.serial = serial) with
  | none => some (true, tracker)
  | some read =>
    (tracker.inExpectedData read.start tick data).map fun (result, expected) =>
      (result,
        { tracker with
          outstandingReads := tracker.outstandingReads.filter fun read => decide (read.serial ≠ serial)
          readObservations := tracker.readObservations ++ [⟨serial, read.start, tick, data⟩]
          lastExpectedData := expected })

/-- `completeWrite( serial, complete )` without `pruneTransactions`. -/
def completeWriteKeeping (serial tick : Nat) : Option ByteTracker :=
  (tracker.getIncompleteWriteCluster.2.completeWrite serial tick).map tracker.setIncompleteWriteCluster

/-- A call where `pruneTransactions` does nothing. -/
def actKeeping : TrackerCall → Option (Option Bool × ByteTracker)
  | .completeRead tick serial data =>
    (tracker.completeReadKeeping serial tick data).map fun (result, next) => (some result, next)
  | .completeWrite tick serial => (tracker.completeWriteKeeping serial tick).map fun next => (none, next)
  | call => tracker.act call

end ByteTracker

/-- The tracker after the calls, if no assertion failed. -/
def trackerAfter (act : ByteTracker → TrackerCall → Option (Option Bool × ByteTracker)) (tracker : ByteTracker)
    (call : TrackerCall) : Option ByteTracker := (act tracker call).map Prod.snd

/-- The answers to the reads, up to an assertion that fails. -/
def answers (act : ByteTracker → TrackerCall → Option (Option Bool × ByteTracker)) :
    ByteTracker → List TrackerCall → List (Option Bool)
  | _, [] => []
  | tracker, call :: rest =>
    match act tracker call with
    | none => [none]
    | some (answer, next) => answer.toList.map some ++ answers act next rest

/-- Ticks do not decrease, and the serials of reads increase. -/
structure CallsInOrder (calls : List TrackerCall) : Prop where
  ticks : calls.Pairwise fun earlier later => earlier.tick ≤ later.tick
  bounded : ∀ call ∈ calls, call.tick ≤ tickFuture
  reads : (calls.filterMap TrackerCall.startedRead).Pairwise fun earlier later => earlier < later

/-- A write that is aborted is not one that has completed, in the cluster that it is looked for in. -/
def AbortsPending (tracker : ByteTracker) : TrackerCall → Prop
  | .abortWrite _ serial => ∀ write ∈ tracker.getIncompleteWriteCluster.2.writes, write.serial = serial →
    write.complete = tickFuture
  | _ => True

instance AbortsPending.decidable (tracker : ByteTracker) : ∀ call, Decidable (AbortsPending tracker call)
  | .abortWrite _ _ => inferInstanceAs (Decidable (∀ _ ∈ _, _))
  | .startRead _ _ | .completeRead _ _ _ | .startWrite _ _ _ | .completeWrite _ _ => isTrue trivial

/-- The clusters that `pruneTransactions` removes have no incomplete write. -/
def PrunesComplete (tracker : ByteTracker) (tick : Nat) : Prop :=
  ∃ removed, tracker.writeClusters = removed ++ (tracker.pruneTransactions tick).writeClusters ∧
    ∀ cluster ∈ removed, ∀ write ∈ cluster.writes, write.complete ≠ tickFuture

/-- The calls cannot tell whether the tracker prunes, and no incomplete write is lost. -/
structure PruningInvisible (calls : List TrackerCall) : Prop where
  answers_eq : answers ByteTracker.act .fresh calls = answers ByteTracker.actKeeping .fresh calls
  removed : ∀ before call after tracker answer next, calls = before ++ call :: after →
    tryActions (trackerAfter ByteTracker.act) .fresh before = some tracker →
      tracker.actKeeping call = some (answer, next) → PrunesComplete next call.tick

/-! ### What is left of a list -/

section PrunedOf

variable {α : Type} {complete : α → Nat} {before : Nat}

/-- Without some of its oldest entries; the first one that is left is past. -/
def PrunedOf (complete : α → Nat) (past : Nat → Prop) (full kept : List α) : Prop :=
  ∃ older, full = older ++ kept ∧ (older = [] ∨ ∃ first rest, kept = first :: rest ∧ past (complete first))

theorem fromLastCompleted_append {older rest : List α} {first : α} (past : complete first < before) :
    fromLastCompleted complete before (older ++ first :: rest) = fromLastCompleted complete before (first :: rest) := by
  obtain ⟨earlier, last, later, whole, picked, done, -⟩ :=
    fromLastCompleted_spec complete before (List.cons_ne_nil first rest)
  have done : complete last < before := by
    rcases done with done | rfl
    · exact done
    · cases whole
      exact past
  induction older with
  | nil => rfl
  | cons oldest older ih =>
    rw [List.cons_append, fromLastCompleted, ih, picked]
    exact if_pos done

namespace PrunedOf

variable {past past' : Nat → Prop} {full kept : List α}

theorem refl (past : Nat → Prop) (list : List α) : PrunedOf complete past list list := ⟨[], rfl, Or.inl rfl⟩

theorem mono (pruned : PrunedOf complete past full kept) (later : ∀ tick, past tick → past' tick) :
    PrunedOf complete past' full kept := by
  obtain ⟨older, whole, gone⟩ := pruned
  refine ⟨older, whole, gone.imp id ?_⟩
  rintro ⟨first, rest, split, gone⟩
  exact ⟨first, rest, split, later _ gone⟩

theorem append (pruned : PrunedOf complete past full kept) (more : List α) :
    PrunedOf complete past (full ++ more) (kept ++ more) := by
  obtain ⟨older, rfl, gone⟩ := pruned
  refine ⟨older, List.append_assoc .., gone.imp id ?_⟩
  rintro ⟨first, rest, split, gone⟩
  exact ⟨first, rest ++ more, by rw [split]; rfl, gone⟩

theorem picked (pruned : PrunedOf complete past full kept) (early : ∀ tick, past tick → tick < before) :
    fromLastCompleted complete before kept = fromLastCompleted complete before full := by
  obtain ⟨older, rfl, rfl | ⟨first, rest, rfl, gone⟩⟩ := pruned
  · rfl
  · exact (fromLastCompleted_append (early _ gone)).symm

theorem prune (pruned : PrunedOf complete past full kept) (early : ∀ tick, tick < before → past tick) :
    PrunedOf complete past full (fromLastCompleted complete before kept) := by
  obtain ⟨older, rfl, gone⟩ := pruned
  rcases eq_or_ne kept [] with rfl | nonempty
  · exact ⟨older, rfl, gone⟩
  obtain ⟨earlier, last, later, whole, picked, done, -⟩ := fromLastCompleted_spec complete before nonempty
  rw [picked]
  refine ⟨older ++ earlier, by rw [whole, List.append_assoc], ?_⟩
  rcases done with done | rfl
  · exact Or.inr ⟨last, later, rfl, early _ done⟩
  · rw [List.append_nil]
    refine gone.imp id ?_
    rintro ⟨first, rest, split, gone⟩
    exact ⟨first, rest, whole.symm.trans split, gone⟩

end PrunedOf

end PrunedOf

theorem ByteTracker.pruneTransactions_eq (tracker : ByteTracker) (curTick : Nat) : ∃ before,
    tracker.pruneTransactions curTick = { tracker with
      readObservations := fromLastCompleted Transaction.complete before tracker.readObservations
      writeClusters := fromLastCompleted WriteCluster.complete before tracker.writeClusters } ∧
    (tracker.outstandingReads = [] → before = curTick) ∧
    ∀ first rest, tracker.outstandingReads = first :: rest → before = first.start := by
  cases reads : tracker.outstandingReads with
  | nil =>
    refine ⟨curTick, ?_, fun _ => rfl, by rintro _ _ ⟨⟩⟩
    rw [ByteTracker.pruneTransactions, reads]
  | cons first rest =>
    refine ⟨first.start, ?_, by rintro ⟨⟩, ?_⟩
    · rw [ByteTracker.pruneTransactions, reads]
    · rintro _ _ ⟨⟩
      rfl

/-! ### The scan -/

namespace Scan

variable {lastObs : Transaction} {start : Nat} {data : UInt8}

theorem writes_passed {writes : List Transaction} {scan : Scan}
    (found : (Scan.writes lastObs start data writes scan).found = false)
    (overlap : (Scan.writes lastObs start data writes scan).wcOverlap = true) :
    scan.wcOverlap = true ∧ (Scan.writes lastObs start data writes scan).lastObsValid = scan.lastObsValid ∧
      ∀ write ∈ writes, write.complete < lastObs.start ∨ start < write.complete := by
  induction writes generalizing scan with
  | nil => exact ⟨overlap, rfl, nofun⟩
  | cons first rest ih =>
    unfold Scan.writes at found overlap ⊢
    by_cases early : first.complete < lastObs.start
    · rw [if_pos early] at found overlap ⊢
      obtain ⟨overlap', valid, passed⟩ := ih found overlap
      exact ⟨overlap', valid, List.forall_mem_cons.mpr ⟨Or.inl early, passed⟩⟩
    rw [if_neg early] at found overlap ⊢
    by_cases same : first.data = data
    · rw [if_pos same] at found
      cases found
    rw [if_neg same] at found overlap ⊢
    dsimp only at found overlap ⊢
    by_cases late : first.complete > start
    · rw [if_pos late] at found overlap ⊢
      obtain ⟨overlap', valid, passed⟩ := ih found overlap
      exact ⟨overlap', valid, List.forall_mem_cons.mpr ⟨Or.inr late, passed⟩⟩
    · rw [if_neg late] at found overlap
      exact nomatch (ih found overlap).1

theorem clusters_passed {clusters : List WriteCluster} {scan : Scan}
    (found : (Scan.clusters lastObs start data clusters scan).found = false)
    (overlap : (Scan.clusters lastObs start data clusters scan).wcOverlap = true) :
    scan.found = false ∧ scan.wcOverlap = true ∧
      (Scan.clusters lastObs start data clusters scan).lastObsValid = scan.lastObsValid ∧
      ∀ cluster ∈ clusters, ∀ write ∈ cluster.writes, write.complete < lastObs.start ∨ start < write.complete := by
  induction clusters generalizing scan with
  | nil => exact ⟨found, overlap, rfl, nofun⟩
  | cons cluster older ih =>
    unfold Scan.clusters at found overlap ⊢
    by_cases ends : (scan.found || !scan.wcOverlap) = true
    · rw [if_pos ends] at found overlap
      rw [found, overlap] at ends
      cases ends
    rw [if_neg ends] at found overlap ⊢
    have begins : scan.found = false := by
      cases known : scan.found with
      | true => exact absurd (by rw [known]; rfl) ends
      | false => rfl
    obtain ⟨found', overlap', valid, passed⟩ := ih found overlap
    obtain ⟨overlap'', valid', passed'⟩ := writes_passed found' overlap'
    exact ⟨begins, overlap'', valid.trans valid', List.forall_mem_cons.mpr ⟨passed', passed⟩⟩

theorem writes_of_older {writes : List Transaction} (older : ∀ write ∈ writes, write.complete < lastObs.start)
    (scan : Scan) : Scan.writes lastObs start data writes scan = scan := by
  induction writes with
  | nil => rfl
  | cons first rest ih =>
    obtain ⟨early, others⟩ := List.forall_mem_cons.mp older
    rw [Scan.writes, if_pos early, ih others]

theorem clusters_of_older {clusters : List WriteCluster}
    (older : ∀ cluster ∈ clusters, ∀ write ∈ cluster.writes, write.complete < lastObs.start) (scan : Scan) :
    Scan.clusters lastObs start data clusters scan = scan := by
  induction clusters with
  | nil => rfl
  | cons cluster rest ih =>
    obtain ⟨early, others⟩ := List.forall_mem_cons.mp older
    rw [Scan.clusters, writes_of_older early, ih others, ite_self]

theorem clusters_of_ended {scan : Scan} (ended : (scan.found || !scan.wcOverlap) = true) (clusters : List WriteCluster) :
    Scan.clusters lastObs start data clusters scan = scan := by
  cases clusters with
  | nil => rfl
  | cons cluster older => exact if_pos ended

theorem clusters_append (newer older : List WriteCluster) (scan : Scan) :
    Scan.clusters lastObs start data (newer ++ older) scan =
      Scan.clusters lastObs start data older (Scan.clusters lastObs start data newer scan) := by
  induction newer generalizing scan with
  | nil => rfl
  | cons cluster newer ih =>
    rw [List.cons_append, Scan.clusters, Scan.clusters]
    by_cases ends : (scan.found || !scan.wcOverlap) = true
    · rw [if_pos ends, if_pos ends, clusters_of_ended ends]
    · rw [if_neg ends, if_neg ends, ih]

/-- **The scan does not need clusters** that are older than one that was complete before the read. -/
theorem clusters_pruned {newer older : List WriteCluster} {first : WriteCluster} {scan : Scan}
    (nonempty : first.writes ≠ []) (complete : ∀ write ∈ first.writes, write.complete ≤ start)
    (order : ∀ cluster ∈ older, ∀ write ∈ cluster.writes, ∀ write' ∈ first.writes, write.complete ≤ write'.complete) :
    Scan.clusters lastObs start data (newer ++ first :: older) scan =
      Scan.clusters lastObs start data (newer ++ [first]) scan := by
  rw [← List.singleton_append, ← List.append_assoc, clusters_append]
  generalize result : Scan.clusters lastObs start data (newer ++ [first]) scan = there
  by_cases ends : (there.found || !there.wcOverlap) = true
  · exact clusters_of_ended ends older
  -- All writes of the first cluster are older than the last observation, so earlier ones are.
  obtain ⟨found, overlap⟩ : there.found = false ∧ there.wcOverlap = true := by simpa using ends
  rw [← result] at found overlap
  obtain ⟨-, -, -, passed⟩ := clusters_passed found overlap
  obtain ⟨write', member'⟩ := List.exists_mem_of_ne_nil _ nonempty
  refine clusters_of_older (fun cluster inside write member => ?_) there
  have early := (passed first (List.mem_append_right _ (List.mem_singleton_self _)) write' member').resolve_right
    (Nat.not_lt.mpr (complete write' member'))
  exact (order cluster inside write member write' member').trans_lt early

end Scan

/-! ### Histories -/

/-- A transaction that completed at `tick` is past for every read that is outstanding or still to come. -/
def Over (now : Nat) (reads : List Transaction) (tick : Nat) : Prop :=
  tick < now ∧ ∀ read ∈ reads, tick < read.start

theorem Over.mono {now now' tick : Nat} {reads reads' : List Transaction} (over' : Over now reads tick)
    (later : now ≤ now') (only : ∀ read ∈ reads', read ∈ reads ∨ now ≤ read.start) : Over now' reads' tick := by
  refine ⟨over'.1.trans_le later, fun read member => ?_⟩
  rcases only read member with old | new
  · exact over'.2 read old
  · exact over'.1.trans_le new

/-- The writes of the cluster have started, and they have serials of their own. -/
structure WriteCluster.Timed (now : Nat) (cluster : WriteCluster) : Prop where
  start : ∀ write ∈ cluster.writes, write.start ≤ now ∧ write.start ≤ write.complete
  serials : (cluster.writes.map Transaction.serial).Nodup

/-- What holds of a tracker that keeps everything. -/
structure History (now : Nat) (tracker : ByteTracker) : Prop where
  time : now ≤ tickFuture
  reads : tracker.outstandingReads.Pairwise fun earlier later => earlier.start ≤ later.start
  started : ∀ read ∈ tracker.outstandingReads, read.start ≤ now
  observations : ∀ obs ∈ tracker.readObservations, obs.start ≤ obs.complete
  clusters : Clusters now (fun _ => 0) tracker.writeClusters
  timed : ∀ cluster ∈ tracker.writeClusters, cluster.Timed now
  order : tracker.writeClusters.Pairwise fun earlier later => ∀ write ∈ later.writes, earlier.complete ≤ write.start

namespace History

variable {tracker : ByteTracker} {now : Nat}

theorem mono (history : History now tracker) {tick : Nat} (later : now ≤ tick) (time : tick ≤ tickFuture) :
    History tick tracker where
  time := time
  reads := history.reads
  started read member := (history.started read member).trans later
  observations := history.observations
  clusters := history.clusters.mono later
  timed cluster member :=
    ⟨fun write inside => ((history.timed cluster member).start write inside).imp_left fun before => before.trans later,
      (history.timed cluster member).serials⟩
  order := history.order

protected theorem fresh : History 0 .fresh where
  time := Nat.zero_le _
  reads := List.Pairwise.nil
  started := nofun
  observations obs member := by
    rw [List.mem_singleton.mp member]
  clusters := ⟨nofun, List.Pairwise.nil, List.Pairwise.nil⟩
  timed := nofun
  order := List.Pairwise.nil

theorem incomplete (history : History now tracker) :
    tracker.getIncompleteWriteCluster.2.Timed now ∧
      ∀ earlier ∈ tracker.getIncompleteWriteCluster.1, ∀ write ∈ tracker.getIncompleteWriteCluster.2.writes,
        earlier.complete ≤ write.start := by
  rcases incomplete_spec tracker with ⟨whole, -⟩ | ⟨-, fresh, -⟩
  · have timed := history.timed
    have order := history.order
    rw [whole] at timed order
    refine ⟨timed _ (List.mem_append_right _ (List.mem_singleton_self _)), fun earlier member => ?_⟩
    exact (List.pairwise_append.mp order).2.2 earlier member _ (List.mem_singleton_self _)
  · rw [fresh]
    exact ⟨⟨nofun, List.nodup_nil⟩, fun _ _ => nofun⟩

theorem earlier (history : History now tracker) :
    (∀ cluster ∈ tracker.getIncompleteWriteCluster.1, cluster.Timed now) ∧
      tracker.getIncompleteWriteCluster.1.Pairwise fun earlier later => ∀ write ∈ later.writes,
        earlier.complete ≤ write.start := by
  rcases incomplete_spec tracker with ⟨whole, -⟩ | ⟨whole, -, -⟩
  · have timed := history.timed
    have order := history.order
    rw [whole] at timed order
    exact ⟨fun cluster member => timed cluster (List.mem_append_left _ member), (List.pairwise_append.mp order).1⟩
  · rw [← whole]
    exact ⟨history.timed, history.order⟩

theorem setIncomplete (history : History now tracker) {cluster : WriteCluster} (shape : cluster.Shape now)
    (timed : cluster.Timed now) (only : ∀ write' ∈ cluster.writes, write'.start = now ∨
      ∃ write ∈ tracker.getIncompleteWriteCluster.2.writes, write.start = write'.start) :
    History now (tracker.setIncompleteWriteCluster cluster) := by
  obtain ⟨-, -, whole, closed⟩ := history.clusters.incomplete
  refine ⟨history.time, history.reads, history.started, history.observations,
    history.clusters.setIncomplete shape fun _ _ => Or.inl rfl, fun other member => ?_,
    List.pairwise_append.mpr ⟨history.earlier.2, List.pairwise_singleton .., fun other member back last => ?_⟩⟩
  · rcases List.mem_append.mp member with old | new
    · exact history.earlier.1 other old
    · rw [List.mem_singleton.mp new]
      exact timed
  · rw [List.mem_singleton.mp last]
    intro write' there
    rcases only write' there with new | ⟨write, was, same⟩
    · rw [new]
      exact ((whole.shape other (List.mem_append_left _ member)).complete (closed other member)).2.1
    · rw [← same]
      exact history.incomplete.2 other member write was

theorem closed (history : History now tracker) {older newer : List WriteCluster} {first : WriteCluster}
    (whole : tracker.writeClusters = older ++ first :: newer) (before : first.complete < now) :
    (first.writes ≠ [] ∧ ∀ write ∈ first.writes, write.complete ≤ first.complete) ∧
      ∀ cluster ∈ older, ∀ write ∈ cluster.writes, ∀ write' ∈ first.writes, write.complete ≤ write'.complete := by
  have member : first ∈ tracker.writeClusters := by
    rw [whole]
    exact List.mem_append_right _ (List.mem_cons_self ..)
  obtain ⟨nonempty, -, each⟩ := (history.clusters.shape first member).complete (before.trans_le history.time).ne
  refine ⟨⟨nonempty, each⟩, fun cluster inside write there write' there' => ?_⟩
  have closed := history.clusters.closed
  have order := history.order
  rw [whole] at closed order
  have early := (List.pairwise_append.mp closed).2.2 cluster inside first (List.mem_cons_self ..)
  have behind := (List.pairwise_append.mp order).2.2 cluster inside first (List.mem_cons_self ..) write' there'
  have shape := history.clusters.shape cluster (by rw [whole]; exact List.mem_append_left _ inside)
  exact (((shape.complete early).2.2 write there).trans behind).trans ((history.timed first member).start write' there').2

end History

theorem WriteCluster.pending_of_completeWrite {cluster cluster' : WriteCluster} {serial tick : Nat}
    (serials : (cluster.writes.map Transaction.serial).Nodup)
    (completed : cluster.completeWrite serial tick = some cluster') :
    ∀ write ∈ cluster.writes, write.serial = serial → write.complete = tickFuture := by
  intro write member same
  unfold completeWrite at completed
  cases found : cluster.writes.find? fun write => decide (write.serial = serial) with
  | none => exact absurd (decide_eq_true same) (List.find?_eq_none.mp found write member)
  | some first =>
    rw [found] at completed
    dsimp only at completed
    have same' : first.serial = serial := by simpa using List.find?_some found
    obtain rfl := List.inj_on_of_nodup_map serials member (List.mem_of_find?_eq_some found) (same.trans same'.symm)
    by_contra done
    rw [if_pos done] at completed
    cases completed

/-! ### Two trackers -/

/-- What the tracker that prunes has kept of the other one. -/
structure Keeps (now : Nat) (pruning keeping : ByteTracker) : Prop where
  history : History now keeping
  reads : pruning.outstandingReads = keeping.outstandingReads
  observations : PrunedOf Transaction.complete (Over now keeping.outstandingReads) keeping.readObservations
    pruning.readObservations
  clusters : PrunedOf WriteCluster.complete (Over now keeping.outstandingReads) keeping.writeClusters
    pruning.writeClusters

namespace Keeps

variable {pruning keeping : ByteTracker} {now : Nat}

/-- What is expected is the same. -/
theorem inExpectedData (keeps : Keeps now pruning keeping) {read : Transaction}
    (member : read ∈ keeping.outstandingReads) (complete : Nat) (data : UInt8) :
    pruning.inExpectedData read.start complete data = keeping.inExpectedData read.start complete data := by
  obtain ⟨older, whole, rfl | ⟨first, newer, left, before, early⟩⟩ := keeps.clusters
  · unfold ByteTracker.inExpectedData
    rw [keeps.observations.picked fun tick over' => over'.2 read member, show keeping.writeClusters = _ from whole]
    rfl
  unfold ByteTracker.inExpectedData
  rw [keeps.observations.picked fun tick over' => over'.2 read member]
  cases picked : (fromLastCompleted Transaction.complete read.start keeping.readObservations).head? with
  | none => rfl
  | some lastObs =>
    dsimp only
    rw [left] at whole
    obtain ⟨⟨nonempty, each⟩, order⟩ := keeps.history.closed whole before
    have observed : lastObs.start ≤ lastObs.complete := by
      refine keeps.history.observations lastObs ((fromLastCompleted_suffix Transaction.complete read.start _).subset ?_)
      exact List.mem_of_mem_head? picked
    have done : ∀ write ∈ first.writes, write.complete ≤ read.start := fun write there =>
      (each write there).trans (early read member).le
    have same := @Scan.clusters_pruned lastObs read.start data newer.reverse older.reverse first
      ⟨false, true, decide (lastObs.complete ≠ 0), []⟩ nonempty done fun cluster inside =>
        order cluster (List.mem_reverse.mp inside)
    rw [whole, left, List.reverse_append, List.reverse_cons, List.append_assoc, List.singleton_append, same]
    -- The scan does not run past the first cluster and give up the last observation.
    have valid := @Scan.clusters_passed lastObs read.start data (newer.reverse ++ [first])
      ⟨false, true, decide (lastObs.complete ≠ 0), []⟩
    generalize Scan.clusters lastObs read.start data (newer.reverse ++ [first])
      ⟨false, true, decide (lastObs.complete ≠ 0), []⟩ = scan at valid ⊢
    cases found : scan.found with
    | true => rfl
    | false =>
      cases still : scan.lastObsValid with
      | true => rfl
      | false =>
        cases overlap : scan.wcOverlap with
        | false => cases older <;> rfl
        | true =>
          obtain ⟨-, -, kept, passed⟩ := valid found overlap
          obtain ⟨write, there⟩ := List.exists_mem_of_ne_nil _ nonempty
          have old := (passed first (List.mem_append_right _ (List.mem_singleton_self _)) write there).resolve_right
            (Nat.not_lt.mpr (done write there))
          rw [still] at kept
          exact absurd (of_decide_eq_false kept.symm) (by omega)

theorem mono (keeps : Keeps now pruning keeping) {tick : Nat} (later : now ≤ tick) (time : tick ≤ tickFuture) :
    Keeps tick pruning keeping where
  history := keeps.history.mono later time
  reads := keeps.reads
  observations := keeps.observations.mono fun _ over' => over'.mono later fun _ member => Or.inl member
  clusters := keeps.clusters.mono fun _ over' => over'.mono later fun _ member => Or.inl member

theorem prune (keeps : Keeps now pruning keeping) : Keeps now (pruning.pruneTransactions now) keeping := by
  obtain ⟨bound, pruned, none, some⟩ := pruning.pruneTransactions_eq now
  have early : ∀ tick, tick < bound → Over now keeping.outstandingReads tick := by
    intro tick before
    have sorted := keeps.history.reads
    have started := keeps.history.started
    rw [keeps.reads] at none some
    cases reads : keeping.outstandingReads with
    | nil =>
      rw [none reads] at before
      exact ⟨before, List.forall_mem_nil _⟩
    | cons first rest =>
      rw [some first rest reads] at before
      rw [reads] at sorted started
      exact ⟨before.trans_le (started first (List.mem_cons_self ..)), List.forall_mem_cons.mpr
        ⟨before, fun read member => before.trans_le ((List.pairwise_cons.mp sorted).1 read member)⟩⟩
  rw [pruned]
  exact ⟨keeps.history, keeps.reads, keeps.observations.prune early, keeps.clusters.prune early⟩

theorem prunesComplete (keeps : Keeps now pruning keeping) (tick : Nat) : PrunesComplete pruning tick := by
  obtain ⟨bound, pruned, -⟩ := pruning.pruneTransactions_eq tick
  obtain ⟨older, whole, -⟩ := keeps.clusters
  have all := keeps.history.clusters
  rw [whole] at all
  have all := all.suffix
  rcases eq_or_ne pruning.writeClusters [] with none' | nonempty
  · refine ⟨[], ?_, List.forall_mem_nil _⟩
    rw [pruned, none']
    rfl
  · obtain ⟨removed, last, later, split, picked, -⟩ := fromLastCompleted_spec WriteCluster.complete bound nonempty
    refine ⟨removed, split.trans (by rw [pruned]; exact congrArg _ picked.symm), fun cluster member write inside => ?_⟩
    rw [split] at all
    have closed := (List.pairwise_append.mp all.closed).2.2 cluster member last (List.mem_cons_self ..)
    obtain ⟨-, before, each⟩ := (all.shape cluster (List.mem_append_left _ member)).complete closed
    have done := (each write inside).trans before
    have time := keeps.history.time
    have early := each write inside
    omega

theorem incomplete (keeps : Keeps now pruning keeping) :
    pruning.getIncompleteWriteCluster.2 = keeping.getIncompleteWriteCluster.2 ∧
      PrunedOf WriteCluster.complete (Over now keeping.outstandingReads) keeping.getIncompleteWriteCluster.1
        pruning.getIncompleteWriteCluster.1 := by
  obtain ⟨older, whole, rfl | ⟨first, newer, left, gone⟩⟩ := keeps.clusters
  · unfold ByteTracker.getIncompleteWriteCluster
    rw [show keeping.writeClusters = _ from whole]
    exact ⟨rfl, PrunedOf.refl ..⟩
  · have closed : first.isComplete = true := decide_eq_true (gone.1.trans_le keeps.history.time).ne
    unfold ByteTracker.getIncompleteWriteCluster
    rw [whole, left, List.getLast?_append_of_ne_nil _ (List.cons_ne_nil first newer),
      List.dropLast_append_of_ne_nil (List.cons_ne_nil first newer)]
    cases newer with
    | nil =>
      simp only [List.getLast?_singleton, closed, if_true, true_and]
      exact ⟨older, rfl, Or.inr ⟨first, [], rfl, gone⟩⟩
    | cons second rest =>
      rw [List.getLast?_eq_some_getLast (List.cons_ne_nil first (second :: rest))]
      dsimp only
      split
      · exact ⟨rfl, older, rfl, Or.inr ⟨first, second :: rest, rfl, gone⟩⟩
      · exact ⟨rfl, older, rfl, Or.inr ⟨first, (second :: rest).dropLast, rfl, gone⟩⟩

theorem setIncomplete (keeps : Keeps now pruning keeping) {cluster : WriteCluster}
    (history : History now (keeping.setIncompleteWriteCluster cluster)) :
    Keeps now (pruning.setIncompleteWriteCluster cluster) (keeping.setIncompleteWriteCluster cluster) where
  history := history
  reads := keeps.reads
  observations := keeps.observations
  clusters := keeps.incomplete.2.append [cluster]

/-! ### Calls of both -/

theorem startRead (keeps : Keeps now pruning keeping) {serial : Nat}
    (fresh : ∀ read ∈ keeping.outstandingReads, read.serial < serial) :
    Keeps now (pruning.startRead serial now) (keeping.startRead serial now) := by
  have appended := @insertTransaction_eq_append ⟨serial, now, tickFuture, 0⟩ _ fresh
  unfold ByteTracker.startRead
  rw [keeps.reads, appended]
  have only : ∀ read ∈ keeping.outstandingReads ++ [⟨serial, now, tickFuture, 0⟩],
      read ∈ keeping.outstandingReads ∨ now ≤ read.start := by
    intro read member
    refine (List.mem_append.mp member).imp id fun new => ?_
    rw [List.mem_singleton.mp new]
  have history := keeps.history
  refine ⟨⟨history.time, ?_, fun read member => ?_, history.observations, history.clusters, history.timed,
    history.order⟩, rfl, keeps.observations.mono fun _ over' => over'.mono (Nat.le_refl _) only,
    keeps.clusters.mono fun _ over' => over'.mono (Nat.le_refl _) only⟩
  · refine List.pairwise_append.mpr ⟨history.reads, List.pairwise_singleton .., fun read member new last => ?_⟩
    rw [List.mem_singleton.mp last]
    exact history.started read member
  · rcases List.mem_append.mp member with old | new
    · exact history.started read old
    · rw [List.mem_singleton.mp new]

theorem completeRead (keeps : Keeps now pruning keeping) (serial : Nat) (data : UInt8) :
    Option.Rel (fun one other => one.1 = other.1 ∧ Keeps now one.2 other.2)
      (pruning.completeReadKeeping serial now data) (keeping.completeReadKeeping serial now data) := by
  unfold ByteTracker.completeReadKeeping
  rw [keeps.reads]
  cases found : keeping.outstandingReads.find? fun read => decide (read.serial = serial) with
  | none => exact .some ⟨rfl, keeps⟩
  | some read =>
    have member := List.mem_of_find?_eq_some found
    dsimp only
    rw [keeps.inExpectedData member]
    cases keeping.inExpectedData read.start now data with
    | none => exact .none
    | some result =>
      have history := keeps.history
      have only : ∀ other ∈ keeping.outstandingReads.filter fun other => decide (other.serial ≠ serial),
          other ∈ keeping.outstandingReads ∨ now ≤ other.start :=
        fun other there => Or.inl (List.mem_filter.mp there).1
      refine .some ⟨rfl, ⟨⟨history.time, history.reads.filter _, fun other there =>
        history.started other (List.mem_filter.mp there).1, fun obs there => ?_, history.clusters, history.timed,
        history.order⟩, rfl, (keeps.observations.append _).mono fun _ over' => over'.mono (Nat.le_refl _) only,
        keeps.clusters.mono fun _ over' => over'.mono (Nat.le_refl _) only⟩⟩
      rcases List.mem_append.mp there with old | new
      · exact history.observations obs old
      · rw [List.mem_singleton.mp new]
        exact history.started read member

theorem startWrite (keeps : Keeps now pruning keeping) (serial : Nat) (data : UInt8) :
    Option.Rel (Keeps now) (pruning.startWrite serial now data) (keeping.startWrite serial now data) := by
  obtain ⟨shape, open', -⟩ := keeps.history.clusters.incomplete
  obtain ⟨⟨start, serials⟩, -⟩ := keeps.history.incomplete
  obtain ⟨cluster, started, shape', writes⟩ := WriteCluster.startWrite_spec shape open' (Nat.le_refl _) serial data
  unfold ByteTracker.startWrite
  rw [keeps.incomplete.1, started]
  refine .some (keeps.setIncomplete (keeps.history.setIncomplete shape' ⟨?_, ?_⟩ ?_))
  · rw [writes]
    split
    · exact start
    · refine fun write there => (List.mem_append.mp there).elim (start write) fun new => ?_
      rw [List.mem_singleton.mp new]
      exact ⟨Nat.le_refl _, keeps.history.time⟩
  · rw [writes]
    split
    · exact serials
    · rename_i absent
      rw [List.map_append]
      refine List.Nodup.append serials (List.nodup_singleton _) (List.disjoint_singleton.mpr fun there => absent ?_)
      obtain ⟨write, member, same⟩ := List.mem_map.mp there
      exact List.any_eq_true.mpr ⟨write, member, decide_eq_true same⟩
  · rw [writes]
    split
    · exact fun write there => Or.inr ⟨write, there, rfl⟩
    · refine fun write there => (List.mem_append.mp there).elim (fun old => Or.inr ⟨write, old, rfl⟩) fun new => ?_
      rw [List.mem_singleton.mp new]
      exact Or.inl rfl

theorem completeWrite (keeps : Keeps now pruning keeping) (serial : Nat) :
    Option.Rel (Keeps now) (pruning.completeWriteKeeping serial now) (keeping.completeWriteKeeping serial now) := by
  obtain ⟨shape, open', -⟩ := keeps.history.clusters.incomplete
  obtain ⟨⟨start, serials⟩, -⟩ := keeps.history.incomplete
  unfold ByteTracker.completeWriteKeeping
  rw [keeps.incomplete.1]
  cases completed : keeping.getIncompleteWriteCluster.2.completeWrite serial now with
  | none => exact .none
  | some cluster =>
    obtain ⟨cluster', completed', shape', writes⟩ := WriteCluster.completeWrite_spec shape open' (Nat.le_refl _)
      keeps.history.time (WriteCluster.pending_of_completeWrite serials completed)
    obtain rfl : cluster = cluster' := Option.some.inj (completed.symm.trans completed')
    refine .some (keeps.setIncomplete (keeps.history.setIncomplete shape' ⟨?_, ?_⟩ ?_))
    · rw [writes]
      refine List.forall_mem_map.mpr fun write there => ?_
      split
      · exact ⟨(start write there).1, (start write there).1⟩
      · exact start write there
    · rw [writes, List.map_map]
      refine (List.map_congr_left fun write _ => ?_).symm ▸ serials
      show Transaction.serial (if write.serial = serial then _ else write) = write.serial
      split <;> rfl
    · rw [writes]
      refine List.forall_mem_map.mpr fun write there => Or.inr ⟨write, there, ?_⟩
      split <;> rfl

theorem abortWrite (keeps : Keeps now pruning keeping) {serial : Nat}
    (pending : AbortsPending keeping (.abortWrite now serial)) :
    Keeps now (pruning.abortWrite serial) (keeping.abortWrite serial) := by
  obtain ⟨shape, open', -⟩ := keeps.history.clusters.incomplete
  obtain ⟨⟨start, serials⟩, -⟩ := keeps.history.incomplete
  obtain ⟨shape', writes⟩ := WriteCluster.abortWrite_spec shape open' pending
  unfold ByteTracker.abortWrite
  rw [keeps.incomplete.1]
  refine keeps.setIncomplete (keeps.history.setIncomplete shape' ⟨?_, ?_⟩ ?_)
  · rw [writes]
    exact fun write there => start write (List.mem_filter.mp there).1
  · rw [writes]
    exact serials.sublist (List.filter_sublist.map _)
  · rw [writes]
    exact fun write there => Or.inr ⟨write, (List.mem_filter.mp there).1, rfl⟩

end Keeps

/-! ### Calls -/

/-- The call prunes. -/
def ByteTracker.prunes (tracker : ByteTracker) : TrackerCall → Bool
  | .completeRead _ serial _ => (tracker.outstandingReads.find? fun read => decide (read.serial = serial)).isSome
  | .completeWrite _ _ => true
  | _ => false

theorem ByteTracker.act_eq (tracker : ByteTracker) (call : TrackerCall) :
    tracker.act call = (tracker.actKeeping call).map fun (answer, next) =>
      (answer, if tracker.prunes call then next.pruneTransactions call.tick else next) := by
  cases call with
  | startRead tick serial => rfl
  | startWrite tick serial data =>
    simp only [act, actKeeping, prunes, Option.map_map, Bool.false_eq_true, if_false]
    rfl
  | abortWrite tick serial => rfl
  | completeWrite tick serial =>
    simp only [act, actKeeping, completeWrite, completeWriteKeeping, prunes, Option.map_map, if_true]
    rfl
  | completeRead tick serial data =>
    cases found : tracker.outstandingReads.find? fun read => decide (read.serial = serial) with
    | none =>
      simp only [act, actKeeping, completeRead, completeReadKeeping, prunes, found]
      rfl
    | some read =>
      simp only [act, actKeeping, completeRead, completeReadKeeping, prunes, found, Option.isSome_some, if_true,
        Option.map_map]
      rfl

theorem Keeps.actKeeping {pruning keeping : ByteTracker} {call : TrackerCall} (keeps : Keeps call.tick pruning keeping)
    (fresh : ∀ serial ∈ call.startedRead, ∀ read ∈ keeping.outstandingReads, read.serial < serial)
    (pending : AbortsPending keeping call) :
    Option.Rel (fun one other => one.1 = other.1 ∧ Keeps call.tick one.2 other.2) (pruning.actKeeping call)
      (keeping.actKeeping call) := by
  cases call with
  | startRead tick serial => exact .some ⟨rfl, keeps.startRead (fresh serial rfl)⟩
  | completeRead tick serial data =>
    exact rel_map (fun _ _ both => ⟨congrArg some both.1, both.2⟩) (keeps.completeRead serial data)
  | startWrite tick serial data => exact rel_map (fun _ _ both => ⟨rfl, both⟩) (keeps.startWrite serial data)
  | completeWrite tick serial => exact rel_map (fun _ _ both => ⟨rfl, both⟩) (keeps.completeWrite serial)
  | abortWrite tick serial => exact .some ⟨rfl, keeps.abortWrite pending⟩

/-- **A call does the same to both.** -/
theorem Keeps.step {pruning keeping : ByteTracker} {call : TrackerCall} (keeps : Keeps call.tick pruning keeping)
    (fresh : ∀ serial ∈ call.startedRead, ∀ read ∈ keeping.outstandingReads, read.serial < serial)
    (pending : AbortsPending keeping call) :
    Option.Rel (fun one other => one.1 = other.1 ∧ Keeps call.tick one.2 other.2) (pruning.act call)
      (keeping.actKeeping call) := by
  rw [pruning.act_eq call]
  have both := keeps.actKeeping fresh pending
  generalize pruning.actKeeping call = one at both ⊢
  generalize keeping.actKeeping call = other at both ⊢
  cases both with
  | none => exact .none
  | some related =>
    refine .some ⟨related.1, ?_⟩
    dsimp only
    split
    · exact related.2.prune
    · exact related.2

theorem ByteTracker.mem_reads_actKeeping {tracker next : ByteTracker} {call : TrackerCall} {answer : Option Bool}
    (acts : tracker.actKeeping call = some (answer, next)) {read : Transaction}
    (member : read ∈ next.outstandingReads) :
    read ∈ tracker.outstandingReads ∨ call.startedRead = some read.serial := by
  cases call with
  | startRead tick serial =>
    cases acts
    refine (mem_insertTransaction member).imp id fun new => ?_
    rw [new]
    rfl
  | completeRead tick serial data =>
    left
    obtain ⟨⟨result, next'⟩, completed, split⟩ := Option.map_eq_some_iff.mp acts
    cases split
    unfold completeReadKeeping at completed
    cases found : tracker.outstandingReads.find? fun read => decide (read.serial = serial) with
    | none =>
      rw [found] at completed
      cases completed
      exact member
    | some first =>
      rw [found] at completed
      obtain ⟨both, -, split⟩ := Option.map_eq_some_iff.mp completed
      cases split
      exact (List.mem_filter.mp member).1
  | startWrite tick serial data =>
    left
    obtain ⟨next', started, split⟩ := Option.map_eq_some_iff.mp acts
    cases split
    obtain ⟨cluster, -, rfl⟩ := Option.map_eq_some_iff.mp started
    exact member
  | completeWrite tick serial =>
    left
    obtain ⟨next', completed, split⟩ := Option.map_eq_some_iff.mp acts
    cases split
    obtain ⟨cluster, -, rfl⟩ := Option.map_eq_some_iff.mp completed
    exact member
  | abortWrite tick serial =>
    cases acts
    exact Or.inl member

theorem Keeps.run {pruning keeping : ByteTracker} {now : Nat} (keeps : Keeps now pruning keeping)
    {calls : List TrackerCall} (ordered : CallsInOrder calls) (later : ∀ call ∈ calls, now ≤ call.tick)
    (fresh : ∀ serial ∈ calls.filterMap TrackerCall.startedRead, ∀ read ∈ keeping.outstandingReads,
      read.serial < serial) (pending : MeetAll (trackerAfter ByteTracker.actKeeping) AbortsPending keeping calls) :
    answers ByteTracker.act pruning calls = answers ByteTracker.actKeeping keeping calls ∧
      ∀ before call after tracker answer next, calls = before ++ call :: after →
        tryActions (trackerAfter ByteTracker.act) pruning before = some tracker →
          tracker.actKeeping call = some (answer, next) → PrunesComplete next call.tick := by
  induction calls generalizing pruning keeping now with
  | nil =>
    refine ⟨rfl, fun before call after tracker answer next split => ?_⟩
    exact absurd split.symm (List.append_ne_nil_of_right_ne_nil _ (List.cons_ne_nil call after))
  | cons call rest ih =>
    obtain ⟨first, pending⟩ := pending
    have now' := keeps.mono (later call (List.mem_cons_self ..)) (ordered.bounded call (List.mem_cons_self ..))
    have begins : ∀ serial ∈ call.startedRead, ∀ read ∈ keeping.outstandingReads, read.serial < serial := by
      intro serial started
      exact fresh serial (List.mem_filterMap.mpr ⟨call, List.mem_cons_self .., started⟩)
    have both := now'.step begins first
    have here : ∀ answer next, pruning.actKeeping call = some (answer, next) → PrunesComplete next call.tick := by
      intro answer next performed
      have kept := now'.actKeeping begins first
      rw [performed] at kept
      generalize keeping.actKeeping call = other at kept
      cases kept with
      | some related => exact related.2.prunesComplete call.tick
    cases does : pruning.act call with
    | none =>
      cases acts : keeping.actKeeping call with
      | some result =>
        rw [does, acts] at both
        cases both
      | none =>
        refine ⟨by rw [answers, answers, does, acts], fun before call' after tracker answer next split runs => ?_⟩
        cases before with
        | nil =>
          cases split
          cases runs
          exact here answer next
        | cons call'' before =>
          cases split
          rw [tryActions, trackerAfter, does] at runs
          cases runs
    | some result =>
      cases acts : keeping.actKeeping call with
      | none =>
        rw [does, acts] at both
        cases both
      | some result' =>
        rw [does, acts] at both
        cases both with
        | some related =>
          obtain ⟨answer, pruning'⟩ := result
          obtain ⟨answer', keeping'⟩ := result'
          obtain ⟨rfl, keeps'⟩ : answer = answer' ∧ Keeps call.tick pruning' keeping' := related
          rw [trackerAfter, acts] at pending
          obtain ⟨ticks, ticks'⟩ := List.pairwise_cons.mp ordered.ticks
          have fresh' : ∀ serial ∈ rest.filterMap TrackerCall.startedRead, ∀ read ∈ keeping'.outstandingReads,
              read.serial < serial := by
            intro serial started read member
            rcases ByteTracker.mem_reads_actKeeping acts member with old | new
            · exact fresh serial (((List.sublist_cons_self ..).filterMap _).subset started) read old
            · have reads := ordered.reads
              rw [List.filterMap_cons_some new] at reads
              exact (List.pairwise_cons.mp reads).1 serial started
          obtain ⟨same, removed⟩ := ih keeps'
            ⟨ticks', fun other member => ordered.bounded other (List.mem_cons_of_mem _ member), ordered.reads.sublist
              ((List.sublist_cons_self ..).filterMap _)⟩ ticks fresh' pending
          constructor
          · rw [answers, answers, does, acts]
            exact congrArg _ same
          intro before call' after tracker answer' next split runs
          cases before with
          | nil =>
            cases split
            cases runs
            exact here answer' next
          | cons call'' before =>
            cases split
            rw [tryActions, trackerAfter, does] at runs
            exact removed before call' after tracker answer' next rfl runs

/-- **Pruning is invisible**, as long as no write is aborted that has completed in the cluster at work. -/
theorem pruning_invisible (calls : List TrackerCall) (ordered : CallsInOrder calls)
    (pending : MeetAll (trackerAfter ByteTracker.actKeeping) AbortsPending .fresh calls) : PruningInvisible calls := by
  have keeps : Keeps 0 .fresh .fresh := ⟨History.fresh, rfl, PrunedOf.refl .., PrunedOf.refl ..⟩
  obtain ⟨same, removed⟩ := keeps.run ordered (fun call _ => Nat.zero_le _) (fun _ _ => nofun) pending
  exact ⟨same, removed⟩

/-- A read that overlaps with writes, and clusters that are pruned before it completes. -/
theorem pruning_invisible_overlap : PruningInvisible
    [.startWrite 1 0 5, .completeWrite 2 0, .startWrite 3 1 6, .startRead 3 2, .completeWrite 4 1, .startWrite 4 3 7,
      .abortWrite 5 3, .completeRead 5 2 5, .startRead 6 4, .completeRead 7 4 5] :=
  pruning_invisible _ ⟨by decide, by decide, by decide⟩ (by decide)

/-- **An incomplete write is lost** where a write was aborted that had completed: its cluster counts as complete. -/
theorem pruning_visible : ¬ ∀ calls, CallsInOrder calls → PruningInvisible calls := by
  intro invisible
  obtain ⟨removed, whole, each⟩ := (invisible
    [.startWrite 1 0 5, .startWrite 1 1 6, .completeWrite 2 0, .abortWrite 2 0, .startWrite 3 2 7, .completeWrite 4 2,
      .startWrite 5 3 8, .completeWrite 6 3] ⟨by decide, by decide, by decide⟩).removed
    [.startWrite 1 0 5, .startWrite 1 1 6, .completeWrite 2 0, .abortWrite 2 0, .startWrite 3 2 7, .completeWrite 4 2,
      .startWrite 5 3 8] (.completeWrite 6 3) [] _ _ _ rfl rfl rfl
  have lost : [(⟨1, 2, [⟨1, 1, tickFuture, 6⟩], 2, 0⟩ : WriteCluster)] = removed := List.append_cancel_right whole
  rw [← lost] at each
  exact each _ (List.mem_singleton_self _) _ (List.mem_singleton_self _) rfl

end Emas.Gem5

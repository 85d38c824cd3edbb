/-
**Clusters of writes.**

`Clusters` says that clusters follow each other: all but the last are complete, and the writes of a later one take
effect after those of an earlier one.

* `WriteCluster.startWrite_spec`, `completeWrite_spec`, `abortWrite_spec`: **what a call leaves of the cluster that
  is not complete**. No assertion fails.
-/

import Emas.Gem5.ExpectedData
import Mathlib.Order.Nat

namespace Emas.Gem5

/-! ### Clusters -/

/-- A cluster by itself: what is complete is so for all of its writes. A write that completes at `tickFuture` never
counts as complete, and keeps its cluster open. -/
structure WriteCluster.Shape (now : Nat) (cluster : WriteCluster) : Prop where
  complete : cluster.complete ≠ tickFuture → cluster.writes ≠ [] ∧ cluster.complete ≤ now ∧
    ∀ write ∈ cluster.writes, write.complete ≤ cluster.complete
  pending : cluster.completeMax ≠ tickFuture →
    cluster.writes.countP (fun write => decide (write.complete = tickFuture)) ≤ cluster.numIncomplete
  start : cluster.start ≠ tickFuture → cluster.start ≤ now
  completeMax : cluster.completeMax ≤ now ∧ ∀ write ∈ cluster.writes, write.complete ≠ tickFuture →
    write.complete ≤ cluster.completeMax

/-- The clusters of a byte. -/
structure Clusters (now : Nat) (of : Nat → Nat) (clusters : List WriteCluster) : Prop where
  shape : ∀ cluster ∈ clusters, cluster.Shape now
  closed : clusters.Pairwise fun earlier _ => earlier.complete ≠ tickFuture
  order : clusters.Pairwise fun earlier later => ∀ write ∈ earlier.writes, ∀ write' ∈ later.writes,
    0 < of write'.serial → of write.serial < of write'.serial

theorem WriteCluster.Shape.mono {now now' : Nat} {cluster : WriteCluster} (shape : cluster.Shape now)
    (later : now ≤ now') : cluster.Shape now' where
  complete done := by
    obtain ⟨nonempty, before, each⟩ := shape.complete done
    exact ⟨nonempty, before.trans later, each⟩
  pending := shape.pending
  start begun := (shape.start begun).trans later
  completeMax := ⟨shape.completeMax.1.trans later, shape.completeMax.2⟩

theorem WriteCluster.shape_fresh (now : Nat) : WriteCluster.fresh.Shape now where
  complete done := absurd rfl done
  pending _ := Nat.le_refl _
  start begun := absurd rfl begun
  completeMax := ⟨Nat.zero_le _, nofun⟩

/-! ### Calls of a cluster -/

theorem countP_lt_of_mem {α : Type} {p q : α → Bool} {list : List α} {entry : α} (member : entry ∈ list)
    (imp : ∀ other ∈ list, p other = true → q other = true) (fails : p entry = false) (holds : q entry = true) :
    list.countP p < list.countP q := by
  obtain ⟨before, after, rfl⟩ := List.append_of_mem member
  have left : before.countP p ≤ before.countP q :=
    List.countP_mono_left fun other there => imp other (List.mem_append_left _ there)
  have right : after.countP p ≤ after.countP q :=
    List.countP_mono_left fun other there => imp other (List.mem_append_right _ (List.mem_cons_of_mem _ there))
  rw [List.countP_append, List.countP_append, List.countP_cons_of_neg (by simp [fails]), List.countP_cons_of_pos holds]
  omega

namespace WriteCluster

variable {cluster : WriteCluster} {now tick serial : Nat}

theorem startWrite_spec (shape : cluster.Shape now) (open' : cluster.complete = tickFuture) (later : now ≤ tick)
    (serial : Nat) (data : UInt8) :
    ∃ cluster', cluster.startWrite serial tick data = some cluster' ∧ cluster'.Shape tick ∧
      cluster'.writes = if cluster.writes.any fun write => decide (write.serial = serial) then cluster.writes
        else cluster.writes ++ [⟨serial, tick, tickFuture, data⟩] := by
  have begins : (if cluster.start = tickFuture then tick else cluster.start) ≤ tick := by
    split
    · exact Nat.le_refl _
    · rename_i begun
      exact (shape.start begun).trans later
  unfold startWrite
  rw [if_neg (by simp [isComplete, open'])]
  dsimp only
  rw [if_neg (not_not.mpr begins), if_neg (fun closed => closed.1 open')]
  refine ⟨_, rfl, ⟨fun closed => absurd rfl closed, fun most => ?_, fun _ => begins, shape.completeMax.1.trans later,
    ?_⟩, rfl⟩
  · have before := shape.pending most
    dsimp only
    split
    · exact before.trans (Nat.le_succ _)
    · rw [List.countP_append]
      exact Nat.add_le_add before (List.countP_le_length ..)
  · intro write member done
    dsimp only at member
    split at member
    · exact shape.completeMax.2 write member done
    · rcases List.mem_append.mp member with old | new
      · exact shape.completeMax.2 write old done
      · rw [List.mem_singleton.mp new] at done
        exact absurd rfl done

theorem completeWrite_spec (shape : cluster.Shape now) (open' : cluster.complete = tickFuture) (later : now ≤ tick)
    (tick_le : tick ≤ tickFuture)
    (pending : ∀ write ∈ cluster.writes, write.serial = serial → write.complete = tickFuture) :
    ∃ cluster', cluster.completeWrite serial tick = some cluster' ∧ cluster'.Shape tick ∧
      cluster'.writes = cluster.writes.map fun write =>
        if write.serial = serial then { write with complete := tick } else write := by
  unfold completeWrite
  cases found : cluster.writes.find? fun write => decide (write.serial = serial) with
  | none =>
    refine ⟨cluster, rfl, shape.mono later, ?_⟩
    have others := List.find?_eq_none.mp found
    conv_lhs => rw [← List.map_id cluster.writes]
    refine List.map_congr_left fun write member => (if_neg fun same => ?_).symm
    exact others write member (decide_eq_true same)
  | some write =>
    have member := List.mem_of_find?_eq_some found
    have same : write.serial = serial := by simpa using List.find?_some found
    have here := pending write member same
    have before := shape.completeMax.1
    dsimp only
    rw [if_neg (not_not.mpr here),
      show (if cluster.completeMax < tick then tick else cluster.completeMax) = tick by split <;> omega]
    have fewer (earlier : tick ≠ tickFuture) :
        (cluster.writes.map fun write =>
          if write.serial = serial then { write with complete := tick } else write).countP
            (fun write => decide (write.complete = tickFuture)) < cluster.numIncomplete := by
      rw [List.countP_map]
      refine (countP_lt_of_mem member (fun other _ future => ?_) ?_ (decide_eq_true here)).trans_le
        (shape.pending (by omega))
      · by_cases this : other.serial = serial
        · simp [this, earlier] at future
        · simpa [this] using future
      · simp [same, earlier]
    have most : ∀ write' ∈ cluster.writes.map fun write =>
        if write.serial = serial then { write with complete := tick } else write, write'.complete ≠ tickFuture →
          write'.complete ≤ tick := by
      intro write' there done
      obtain ⟨other, was, rfl⟩ := List.mem_map.mp there
      by_cases this : other.serial = serial
      · rw [if_pos this]
      · rw [if_neg this] at done ⊢
        exact (shape.completeMax.2 other was done).trans (before.trans later)
    refine ⟨_, rfl, ⟨fun closed => ?_, fun early => ?_, fun begun => (shape.start begun).trans later, Nat.le_refl _,
      most⟩, rfl⟩
    · dsimp only at closed ⊢
      by_cases last : cluster.numIncomplete - 1 = 0
      · rw [if_pos last] at closed ⊢
        refine ⟨List.ne_nil_of_mem (List.mem_map_of_mem member), Nat.le_refl _, fun write' there => most write' there ?_⟩
        have none' : List.countP _ _ = 0 := Nat.le_zero.mp ((Nat.le_sub_one_of_lt (fewer closed)).trans last.le)
        simpa using List.countP_eq_zero.mp none' write' there
      · rw [if_neg last] at closed
        exact absurd open' closed
    · exact Nat.le_sub_one_of_lt (fewer early)

theorem abortWrite_spec (shape : cluster.Shape now) (open' : cluster.complete = tickFuture)
    (pending : ∀ write ∈ cluster.writes, write.serial = serial → write.complete = tickFuture) :
    (cluster.abortWrite serial).Shape now ∧
      (cluster.abortWrite serial).writes = cluster.writes.filter fun write => decide (write.serial ≠ serial) := by
  unfold abortWrite
  split
  · rename_i found
    obtain ⟨write, member, same⟩ := List.any_eq_true.mp found
    have fewer (most : cluster.completeMax ≠ tickFuture) : (cluster.writes.filter fun write => decide (write.serial ≠ serial)).countP
        (fun write => decide (write.complete = tickFuture)) < cluster.numIncomplete := by
      rw [List.countP_filter]
      refine (countP_lt_of_mem member (fun other _ both => ?_) ?_ (decide_eq_true
        (pending write member (of_decide_eq_true same)))).trans_le (shape.pending most)
      · exact (Bool.and_eq_true_iff.mp both).1
      · simp [of_decide_eq_true same]
    have most : ∀ write' ∈ cluster.writes.filter fun write => decide (write.serial ≠ serial),
        write'.complete ≠ tickFuture → write'.complete ≤ cluster.completeMax :=
      fun write' there done => shape.completeMax.2 write' (List.mem_filter.mp there).1 done
    refine ⟨⟨fun closed => ?_, fun early => Nat.le_sub_one_of_lt (fewer early), shape.start, shape.completeMax.1, most⟩,
      rfl⟩
    dsimp only at closed ⊢
    by_cases last : cluster.numIncomplete - 1 = 0 ∧
        (cluster.writes.filter fun write => decide (write.serial ≠ serial)) ≠ []
    · rw [if_pos last] at closed ⊢
      refine ⟨last.2, shape.completeMax.1, fun write' there => most write' there ?_⟩
      have none' : List.countP _ _ = 0 := Nat.le_zero.mp ((Nat.le_sub_one_of_lt (fewer closed)).trans last.1.le)
      simpa using List.countP_eq_zero.mp none' write' there
    · rw [if_neg last] at closed
      exact absurd open' closed
  · rename_i absent
    refine ⟨shape, (List.filter_eq_self.mpr fun write member => ?_).symm⟩
    have other : write.serial ≠ serial := fun same =>
      absent (List.any_eq_true.mpr ⟨write, member, decide_eq_true same⟩)
    exact decide_eq_true other

end WriteCluster

/-! ### All clusters -/

namespace Clusters

variable {now : Nat} {of : Nat → Nat} {clusters : List WriteCluster}

theorem mono (all : Clusters now of clusters) {now' : Nat} (later : now ≤ now') : Clusters now' of clusters where
  shape cluster member := (all.shape cluster member).mono later
  closed := all.closed
  order := all.order

theorem suffix {earlier : List WriteCluster} (all : Clusters now of (earlier ++ clusters)) :
    Clusters now of clusters where
  shape cluster member := all.shape cluster (List.mem_append_right _ member)
  closed := (List.pairwise_append.mp all.closed).2.1
  order := (List.pairwise_append.mp all.order).2.1

end Clusters

theorem incomplete_spec (tracker : ByteTracker) :
    (tracker.writeClusters = tracker.getIncompleteWriteCluster.1 ++ [tracker.getIncompleteWriteCluster.2] ∧
        tracker.getIncompleteWriteCluster.2.complete = tickFuture) ∨
      (tracker.writeClusters = tracker.getIncompleteWriteCluster.1 ∧ tracker.getIncompleteWriteCluster.2 = .fresh ∧
        ∀ back ∈ tracker.writeClusters.getLast?, back.complete ≠ tickFuture) := by
  unfold ByteTracker.getIncompleteWriteCluster
  cases last : tracker.writeClusters.getLast? with
  | none => exact Or.inr ⟨List.getLast?_eq_none_iff.mp last, rfl, nofun⟩
  | some back =>
    dsimp only
    obtain ⟨before, whole⟩ := List.getLast?_eq_some_iff.mp last
    by_cases complete : back.complete = tickFuture
    · rw [if_neg (by simp [WriteCluster.isComplete, complete])]
      refine Or.inl ⟨?_, complete⟩
      rw [whole, List.dropLast_concat]
    · rw [if_pos (by simp [WriteCluster.isComplete, complete])]
      refine Or.inr ⟨rfl, rfl, ?_⟩
      rintro other ⟨⟩
      exact complete

section Incomplete

variable {tracker : ByteTracker} {now : Nat} {of : Nat → Nat} {write : Transaction}

theorem Clusters.incomplete (all : Clusters now of tracker.writeClusters) :
    tracker.getIncompleteWriteCluster.2.Shape now ∧ tracker.getIncompleteWriteCluster.2.complete = tickFuture ∧
      Clusters now of (tracker.getIncompleteWriteCluster.1 ++ [tracker.getIncompleteWriteCluster.2]) ∧
      ∀ cluster ∈ tracker.getIncompleteWriteCluster.1, cluster.complete ≠ tickFuture := by
  rcases incomplete_spec tracker with ⟨whole, open'⟩ | ⟨whole, fresh, closed⟩
  · rw [whole] at all
    refine ⟨all.shape _ (List.mem_append_right _ (List.mem_singleton_self _)), open', all, fun cluster member => ?_⟩
    exact (List.pairwise_append.mp all.closed).2.2 cluster member _ (List.mem_singleton_self _)
  · rw [← whole, fresh]
    have each : ∀ cluster ∈ tracker.writeClusters, cluster.complete ≠ tickFuture := by
      intro cluster member
      obtain ⟨before, last, split⟩ := (List.eq_nil_or_concat' tracker.writeClusters).resolve_left
        (List.ne_nil_of_mem member)
      rw [split] at member closed all
      rcases List.mem_append.mp member with earlier | newest
      · exact (List.pairwise_append.mp all.closed).2.2 cluster earlier _ (List.mem_singleton_self _)
      · rw [List.mem_singleton.mp newest]
        exact closed last (List.getLast?_concat ..)
    refine ⟨WriteCluster.shape_fresh now, rfl, ⟨?_, ?_, ?_⟩, each⟩
    · rintro cluster member
      rcases List.mem_append.mp member with old | new
      · exact all.shape cluster old
      · rw [List.mem_singleton.mp new]
        exact WriteCluster.shape_fresh now
    · refine List.pairwise_append.mpr ⟨all.closed, List.pairwise_singleton .., fun cluster member _ _ => ?_⟩
      exact each cluster member
    · refine List.pairwise_append.mpr ⟨all.order, List.pairwise_singleton .., ?_⟩
      intro cluster _ other new write _ write' member
      rw [List.mem_singleton.mp new] at member
      cases member

/-- The clusters with that one put back. -/
theorem Clusters.setIncomplete (all : Clusters now of tracker.writeClusters) {cluster : WriteCluster}
    (shape : cluster.Shape now) (only : ∀ write' ∈ cluster.writes, of write'.serial = 0 ∨
      ∃ write ∈ tracker.getIncompleteWriteCluster.2.writes, write.serial = write'.serial) :
    Clusters now of (tracker.setIncompleteWriteCluster cluster).writeClusters := by
  obtain ⟨-, -, whole, closed⟩ := all.incomplete
  refine ⟨fun other member => ?_, List.pairwise_append.mpr ⟨?_, List.pairwise_singleton .., fun other member _ _ => ?_⟩,
    List.pairwise_append.mpr ⟨?_, List.pairwise_singleton .., fun other member back last => ?_⟩⟩
  · rcases List.mem_append.mp member with old | new
    · exact whole.shape other (List.mem_append_left _ old)
    · rw [List.mem_singleton.mp new]
      exact shape
  · exact (List.pairwise_append.mp whole.closed).1
  · exact closed other member
  · exact (List.pairwise_append.mp whole.order).1
  · rw [List.mem_singleton.mp last]
    intro write there write' there' effected
    rcases only write' there' with zero | ⟨before, was, same⟩
    · exact absurd zero effected.ne'
    · rw [← same] at effected ⊢
      exact (List.pairwise_append.mp whole.order).2.2 other member _ (List.mem_singleton_self _) write there before was
        effected

end Incomplete

end Emas.Gem5

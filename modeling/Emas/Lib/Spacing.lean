/-
**Occurrences that keep their distance.**

A log of timed occurrences of several kinds, oldest first, and for every two kinds the `gap` that an earlier
occurrence of the one asks of a later one of the other (`Respects`). Such gaps are kept with registers: one
that `Guards` a kind is no less than every occurrence of the log with its gap to that kind, so an occurrence
at or after the register is far enough from all of them (`Guards.ready`, `Respects.append`). A register may
grow (`Guards.mono`), and has to where an occurrence is added that asks for a gap (`Guards.append`).
-/

import Mathlib.Data.List.Basic

namespace Emas

/-- Something happens at a cycle. -/
structure Timed (κ : Type) where
  cycle : Nat
  kind : κ
  deriving DecidableEq, Repr

section Spacing

variable {κ : Type} {gap : κ → κ → Nat} {log : List (Timed κ)}

/-- Any two occurrences are as far apart as their gap. -/
def Respects (gap : κ → κ → Nat) (log : List (Timed κ)) : Prop :=
  log.Pairwise fun earlier later => earlier.cycle + gap earlier.kind later.kind ≤ later.cycle

/-- No gap to an occurrence of the kind goes beyond the register. -/
def Guards (gap : κ → κ → Nat) (log : List (Timed κ)) (kind : κ) (register : Nat) : Prop :=
  ∀ earlier ∈ log, gap earlier.kind kind = 0 ∨ earlier.cycle + gap earlier.kind kind ≤ register

theorem respects_nil : Respects gap [] := .nil

variable {kind : κ}

theorem guards_nil {register : Nat} : Guards gap [] kind register := nofun

theorem Guards.mono {register later : Nat} (guards : Guards gap log kind register)
    (grows : register ≤ later) : Guards gap log kind later := fun earlier member =>
  (guards earlier member).imp id fun apart => Nat.le_trans apart grows

theorem Guards.append {register : Nat} (guards : Guards gap log kind register) {occurrence : Timed κ}
    (apart : gap occurrence.kind kind = 0 ∨ occurrence.cycle + gap occurrence.kind kind ≤ register) :
    Guards gap (log ++ [occurrence]) kind register := by
  intro earlier member
  rcases List.mem_append.mp member with old | new
  · exact guards earlier old
  · rw [List.mem_singleton.mp new]
    exact apart

/-- **Behind its register, an occurrence keeps its distance.** -/
theorem Respects.append (respects : Respects gap log) {register now : Nat}
    (guards : Guards gap log kind register) (behind : register ≤ now)
    (past : ∀ earlier ∈ log, earlier.cycle ≤ now) : Respects gap (log ++ [⟨now, kind⟩]) := by
  refine List.pairwise_append.mpr ⟨respects, List.pairwise_singleton .., ?_⟩
  intro earlier member later new
  rw [List.mem_singleton.mp new]
  rcases guards earlier member with none | apart
  · rw [none]
    exact past earlier member
  · exact Nat.le_trans apart behind

end Spacing

end Emas

/-
**Fuel-bounded computations.**

A loop of a program is run with a bound on its iterations. `Outcome φ ρ` says how such a run ends:
`done`, a `fault` the program itself runs into, or `outOfFuel`, where only the bound was reached;
each carries the state the run stopped in. `Approx` orders outcomes by information: an `outOfFuel`
is below everything, any other outcome is below itself only. A computation that grows along
`Approx` with its fuel has at most one `done` result (`Approx.done_eq`), and sequencing keeps the
order (`Approx.bind`).

`Meets post during` is the specification of a run: no fault, `post` of the final state, and `during`
of the state in which the bound was reached. Sequencing composes specifications (`Meets.bind`).
`Returns` is total correctness: with enough fuel the result is always the same. `Settles` allows faults of
a kind that is fine: no run has another one, and with enough fuel every run ends.
-/


namespace Emas

/-- How a fuel-bounded run ends, with the state it ends in. -/
inductive Outcome (φ ρ : Type) where
  | done (run : ρ)
  | fault (cause : φ) (run : ρ)
  | outOfFuel (run : ρ)

namespace Outcome

variable {φ φ' ρ ρ' : Type}

/-- The state the run stopped in. -/
def run : Outcome φ ρ → ρ
  | done run => run
  | fault _ run => run
  | outOfFuel run => run

/-- Continue a finished run; a fault or a spent bound ends the whole computation. -/
def bind : Outcome φ ρ → (ρ → Outcome φ ρ) → Outcome φ ρ
  | done run, next => next run
  | fault cause run, _ => fault cause run
  | outOfFuel run, _ => outOfFuel run

def map (cause : φ → φ') (result : ρ → ρ') : Outcome φ ρ → Outcome φ' ρ'
  | done run => done (result run)
  | fault reason run => fault (cause reason) (result run)
  | outOfFuel run => outOfFuel (result run)

@[simp] theorem bind_done (run : ρ) (next : ρ → Outcome φ ρ) : (done run).bind next = next run := rfl

variable {first : Outcome φ ρ}

theorem bind_eq_done {next : ρ → Outcome φ ρ} {run : ρ}
    (finished : first.bind next = done run) : ∃ middle, first = done middle ∧ next middle = done run := by
  cases first with
  | done middle => exact ⟨middle, rfl, finished⟩
  | fault cause stopped => cases finished
  | outOfFuel stopped => cases finished

theorem map_eq_done {cause : φ → φ'} {result : ρ → ρ'} {run : ρ'}
    (finished : first.map cause result = done run) : ∃ before, first = done before := by
  cases first with
  | done before => exact ⟨before, rfl⟩
  | fault reason stopped => cases finished
  | outOfFuel stopped => cases finished

/-- No fault; `post` when the run is finished, `during` when the bound was reached. -/
def Meets (post during : ρ → Prop) : Outcome φ ρ → Prop
  | done run => post run
  | fault _ _ => False
  | outOfFuel run => during run

variable {outcome : Outcome φ ρ}

namespace Meets

variable {post during : ρ → Prop}

theorem bind {middle : ρ → Prop} {next : ρ → Outcome φ ρ} (before : first.Meets middle during)
    (after : ∀ run, first = done run → middle run → (next run).Meets post during) :
    (first.bind next).Meets post during := by
  cases first with
  | done run => exact after run rfl before
  | fault cause run => exact before
  | outOfFuel run => exact before

theorem imp {post' during' : ρ → Prop} (meets : outcome.Meets post during)
    (after : ∀ run, post run → post' run) (midway : ∀ run, during run → during' run) : outcome.Meets post' during' := by
  cases outcome with
  | done run => exact after run meets
  | fault cause run => exact meets
  | outOfFuel run => exact midway run meets

theorem done_post {run : ρ} (meets : outcome.Meets post during) (finished : outcome = done run) : post run := by
  rw [finished] at meets
  exact meets

end Meets

/-- `first` says no more than `second`. -/
def Approx (first second : Outcome φ ρ) : Prop := first = second ∨ ∃ run, first = outOfFuel run

variable {chain : Nat → Outcome φ ρ}

namespace Approx

theorem refl (outcome : Outcome φ ρ) : Approx outcome outcome := Or.inl rfl

theorem fuel (run : ρ) (outcome : Outcome φ ρ) : Approx (outOfFuel run) outcome :=
  Or.inr ⟨run, rfl⟩

theorem trans {first second third : Outcome φ ρ} (left : Approx first second)
    (right : Approx second third) : Approx first third := by
  rcases left with rfl | ⟨run, rfl⟩
  · exact right
  · exact fuel run third

theorem done_eq {first second : Outcome φ ρ} {run : ρ} (below : Approx first second)
    (finished : first = done run) : second = done run := by
  rcases below with rfl | ⟨stopped, same⟩
  · exact finished
  · rw [finished] at same
    cases same

theorem bind {first second : Outcome φ ρ} {next further : ρ → Outcome φ ρ}
    (below : Approx first second) (each : ∀ run, Approx (next run) (further run)) :
    Approx (first.bind next) (second.bind further) := by
  rcases below with rfl | ⟨stopped, rfl⟩
  · cases first with
    | done run => exact each run
    | fault cause run => exact refl _
    | outOfFuel run => exact refl _
  · exact fuel stopped _

theorem of_le (step : ∀ n, Approx (chain n) (chain (n + 1)))
    {n m : Nat} (ordered : n ≤ m) : Approx (chain n) (chain m) := by
  induction ordered with
  | refl => exact refl _
  | step _ ih => exact ih.trans (step _)

end Approx

/-- The computation returns: with enough fuel, always with this result. -/
def Returns (chain : Nat → Outcome φ ρ) (final : ρ) : Prop :=
  ∃ enough, ∀ fuel, enough ≤ fuel → chain fuel = done final

namespace Returns

theorem of_approx {final : ρ} {fuel : Nat}
    (step : ∀ n, Approx (chain n) (chain (n + 1))) (finished : chain fuel = done final) : Returns chain final :=
  ⟨fuel, fun _ ordered => (Approx.of_le step ordered).done_eq finished⟩

theorem pure (final : ρ) : Returns (fun _ => (done final : Outcome φ ρ)) final :=
  ⟨0, fun _ _ => rfl⟩

theorem bind {next : Nat → ρ → Outcome φ ρ} {middle final : ρ}
    (first : Returns chain middle) (second : Returns (next · middle) final) :
    Returns (fun fuel => (chain fuel).bind (next fuel)) final := by
  obtain ⟨enough, first⟩ := first
  obtain ⟨enough', second⟩ := second
  refine ⟨max enough enough', fun fuel ordered => ?_⟩
  show (chain fuel).bind (next fuel) = done final
  rw [first fuel (Nat.le_trans (Nat.le_max_left ..) ordered), bind_done]
  exact second fuel (Nat.le_trans (Nat.le_max_right ..) ordered)

theorem succ {chain next : Nat → Outcome φ ρ} {final : ρ}
    (step : ∀ fuel, chain (fuel + 1) = next fuel) (returns : Returns next final) : Returns chain final := by
  obtain ⟨enough, returns⟩ := returns
  refine ⟨enough + 1, fun fuel ordered => ?_⟩
  obtain ⟨fuel, rfl⟩ : ∃ less, fuel = less + 1 := ⟨fuel - 1, by omega⟩
  rw [step, returns fuel (by omega)]

theorem map {middle : ρ} (cause : φ → φ') (result : ρ → ρ') (first : Returns chain middle) :
    Returns (fun fuel => (chain fuel).map cause result) (result middle) := by
  obtain ⟨enough, first⟩ := first
  refine ⟨enough, fun fuel ordered => ?_⟩
  show (chain fuel).map cause result = _
  rw [first fuel ordered]
  rfl

end Returns

/-- No fault but a fine one; `spent` if the bound was reached. -/
def Within (fine : φ → Prop) (spent : Prop) : Outcome φ ρ → Prop
  | done _ => True
  | fault cause _ => fine cause
  | outOfFuel _ => spent

/-- The computation ends, in a result or a fine fault, and no bound shows another fault. -/
structure Settles (fine : φ → Prop) (chain : Nat → Outcome φ ρ) : Prop where
  safe : ∀ fuel, (chain fuel).Within fine True
  ends : ∃ enough, ∀ fuel, enough ≤ fuel → (chain fuel).Within fine False

theorem Within.spend {fine : φ → Prop} (within : outcome.Within fine False) : outcome.Within fine True := by
  cases outcome with
  | done run => trivial
  | fault cause run => exact within
  | outOfFuel run => trivial

@[simp] theorem within_map {fine : φ → Prop} {spent : Prop} (result : ρ → ρ') (outcome : Outcome φ ρ) :
    (outcome.map id result).Within fine spent ↔ outcome.Within fine spent := by
  cases outcome <;> rfl

namespace Settles

variable {fine : φ → Prop}

theorem const (within : outcome.Within fine False) : Settles fine fun _ => outcome :=
  ⟨fun _ => within.spend, 0, fun _ _ => within⟩

theorem succ {chain next : Nat → Outcome φ ρ} (start : (chain 0).Within fine True)
    (step : ∀ fuel, chain (fuel + 1) = next fuel) (settles : Settles fine next) : Settles fine chain := by
  obtain ⟨safe, enough, ends⟩ := settles
  refine ⟨fun fuel => ?_, enough + 1, fun fuel ordered => ?_⟩
  · cases fuel with
    | zero => exact start
    | succ fuel => exact step fuel ▸ safe fuel
  · obtain ⟨fuel, rfl⟩ : ∃ less, fuel = less + 1 := ⟨fuel - 1, by omega⟩
    exact step fuel ▸ ends fuel (by omega)

theorem map (result : ρ → ρ') (settles : Settles fine chain) : Settles fine fun fuel => (chain fuel).map id result := by
  obtain ⟨safe, enough, ends⟩ := settles
  exact ⟨fun fuel => (within_map result _).mpr (safe fuel), enough,
    fun fuel ordered => (within_map result _).mpr (ends fuel ordered)⟩

theorem bind {next : Nat → ρ → Outcome φ ρ} (first : Settles fine chain)
    (safe : ∀ fuel run, (next fuel run).Within fine True)
    (ends : ∃ enough, ∀ fuel, enough ≤ fuel → ∀ run, (next fuel run).Within fine False) :
    Settles fine fun fuel => (chain fuel).bind (next fuel) := by
  obtain ⟨safe', enough, ends'⟩ := first
  obtain ⟨enough', ends⟩ := ends
  refine ⟨fun fuel => ?_, max enough enough', fun fuel ordered => ?_⟩
  · have before := safe' fuel
    show ((chain fuel).bind (next fuel)).Within fine True
    generalize chain fuel = outcome at before ⊢
    cases outcome with
    | done run => exact safe fuel run
    | fault cause run => exact before
    | outOfFuel run => trivial
  · have before := ends' fuel (by omega)
    show ((chain fuel).bind (next fuel)).Within fine False
    generalize chain fuel = outcome at before ⊢
    cases outcome with
    | done run => exact ends fuel (by omega) run
    | fault cause run => exact before
    | outOfFuel run => exact before

end Settles

end Outcome

end Emas

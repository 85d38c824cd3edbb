/-
**Runs of an action system.**

`act` is what an action does to a state, `allowed` when it may be taken. `runActions` is the state
after a list of actions, `AllowedRun` says that each of them was allowed where it was taken, `Reaches`
that some allowed run leads from one state to another, `countRun` how many actions of a run count, `sumRun`
what they weigh together. An
invariant that every allowed action keeps holds after every allowed run (`AllowedRun.invariant`); runs
compose (`AllowedRun.append_iff`, `Reaches.trans`).
-/

import Mathlib.Logic.Basic

namespace Emas

section Actions

variable {α σ : Type} (act : σ → α → σ) (allowed : σ → α → Prop)

def runActions (state : σ) (actions : List α) : σ := actions.foldl act state

/-- Each action of the run is allowed in the state that it starts from. -/
def AllowedRun : σ → List α → Prop
  | _, [] => True
  | state, action :: rest => allowed state action ∧ AllowedRun (act state action) rest

instance AllowedRun.decidable [∀ state action, Decidable (allowed state action)] :
    ∀ (state : σ) (actions : List α), Decidable (AllowedRun act allowed state actions)
  | _, [] => isTrue trivial
  | state, action :: rest =>
    have := AllowedRun.decidable (act state action) rest
    inferInstanceAs (Decidable (allowed state action ∧ AllowedRun act allowed (act state action) rest))

variable {act allowed}

variable {state : σ}

theorem runActions_invariant (inv : σ → Prop)
    (step : ∀ state action, inv state → inv (act state action)) (start : inv state)
    (actions : List α) : inv (runActions act state actions) := by
  induction actions generalizing state with
  | nil => exact start
  | cons action rest ih => exact ih (step state action start)

variable {actions : List α}

namespace AllowedRun

/-- **An invariant of the steps is an invariant of the runs.** -/
theorem invariant (inv : σ → Prop) (step : ∀ state action, allowed state action → inv state → inv (act state action))
    (run : AllowedRun act allowed state actions)
    (start : inv state) : inv (runActions act state actions) := by
  induction actions generalizing state with
  | nil => exact start
  | cons action rest ih => exact ih run.2 (step state action run.1 start)

theorem append_iff {first second : List α} : AllowedRun act allowed state (first ++ second) ↔
      AllowedRun act allowed state first ∧ AllowedRun act allowed (runActions act state first) second := by
  induction first generalizing state with
  | nil => exact ⟨fun run => ⟨trivial, run⟩, fun run => run.2⟩
  | cons action rest ih =>
    show allowed state action ∧ AllowedRun act allowed (act state action) (rest ++ second) ↔
      (allowed state action ∧ AllowedRun act allowed (act state action) rest) ∧
        AllowedRun act allowed (runActions act (act state action) rest) second
    rw [ih, and_assoc]

variable {allowed' : σ → α → Prop}

theorem and (run : AllowedRun act allowed state actions) (run' : AllowedRun act allowed' state actions) :
    AllowedRun act (fun state action => allowed state action ∧ allowed' state action) state actions := by
  induction actions generalizing state with
  | nil => trivial
  | cons action rest ih => exact ⟨⟨run.1, run'.1⟩, ih run.2 run'.2⟩

/-- **An invariant may give the actions more than they were allowed for.** -/
theorem mono_invariant (inv : σ → Prop)
    (step : ∀ state action, allowed state action → inv state → inv (act state action))
    (weaker : ∀ state action, allowed state action → inv state → allowed' state action)
    (run : AllowedRun act allowed state actions) (start : inv state) : AllowedRun act allowed' state actions := by
  induction actions generalizing state with
  | nil => trivial
  | cons action rest ih => exact ⟨weaker state action run.1 start, ih run.2 (step state action run.1 start)⟩

theorem mono (weaker : ∀ state action, allowed state action → allowed' state action)
    (run : AllowedRun act allowed state actions) : AllowedRun act allowed' state actions :=
  run.mono_invariant (fun _ => True) (fun _ _ _ _ => trivial) (fun state action fits _ => weaker state action fits)
    trivial

/-- **A condition that decides each step decides the run**: all states that it passes have the property. -/
theorem iff_forall_prefix_of {promised : σ → α → Prop} (inv : σ → Prop)
    (step : ∀ state action, promised state action → inv state → (inv (act state action) ↔ allowed state action))
    (run : AllowedRun act promised state actions) (start : inv state) :
    (∀ passed rest, passed ++ rest = actions → inv (runActions act state passed)) ↔
      AllowedRun act allowed state actions := by
  induction actions generalizing state with
  | nil =>
    refine ⟨fun _ => trivial, fun _ passed rest split => ?_⟩
    obtain ⟨rfl, -⟩ := List.append_eq_nil_iff.mp split
    exact start
  | cons action rest ih =>
    obtain ⟨first, others⟩ := run
    constructor
    · intro all
      have kept : inv (act state action) := all [action] rest rfl
      refine ⟨(step state action first start).mp kept, (ih others kept).mp fun passed after split => ?_⟩
      exact all (action :: passed) after (by rw [← split]; rfl)
    · rintro ⟨fits, onward⟩ passed after split
      cases passed with
      | nil => exact start
      | cons head tail =>
        obtain ⟨rfl, behind⟩ := List.cons.inj split
        exact (ih others ((step state head first start).mpr fits)).mpr onward tail after behind

/-- **A relation of the steps of two systems is one of their runs.** -/
theorem simulation {τ : Type} {act' : τ → α → τ} (related : σ → τ → Prop)
    (step : ∀ state state' action, allowed state action → related state state' →
      related (act state action) (act' state' action))
    {state' : τ} (run : AllowedRun act allowed state actions)
    (start : related state state') : related (runActions act state actions) (runActions act' state' actions) := by
  induction actions generalizing state state' with
  | nil => exact start
  | cons action rest ih => exact ih run.2 (step state state' action run.1 start)

theorem of_forall_mem {fits : α → Prop} (each : ∀ action ∈ actions, fits action)
    (state : σ) : AllowedRun act (fun _ action => fits action) state actions := by
  induction actions generalizing state with
  | nil => trivial
  | cons action rest ih =>
    exact ⟨each action (List.mem_cons_self ..), ih (fun other member => each other (.tail _ member)) _⟩

theorem iff_forall_prefix (inv : σ → Prop)
    (step : ∀ state action, inv state → (inv (act state action) ↔ allowed state action))
    (start : inv state) (actions : List α) :
    (∀ passed rest, passed ++ rest = actions → inv (runActions act state passed)) ↔
      AllowedRun act allowed state actions :=
  iff_forall_prefix_of inv (fun state action _ => step state action)
    (of_forall_mem (fun _ _ => trivial : ∀ action ∈ actions, (fun _ : α => True) action) state) start

/-- **A preorder that each step respects** is respected between any two states of a run, and the other way round. -/
theorem iff_forall_between (related : σ → σ → Prop) (refl : ∀ state, related state state)
    (trans : ∀ {first second third}, related first second → related second third → related first third)
    (state : σ) (actions : List α) :
    AllowedRun act (fun state action => related state (act state action)) state actions ↔
      ∀ before between after, before ++ between ++ after = actions →
        related (runActions act state before) (runActions act state (before ++ between)) := by
  constructor
  · rintro run before between after rfl
    obtain ⟨later, -⟩ := append_iff.mp run
    obtain ⟨-, steps⟩ := append_iff.mp later
    have arrived : runActions act state (before ++ between) = runActions act (runActions act state before) between :=
      List.foldl_append
    rw [arrived]
    exact steps.invariant (related (runActions act state before)) (fun _ _ step sofar => trans sofar step) (refl _)
  · intro between
    induction actions generalizing state with
    | nil => trivial
    | cons action rest ih =>
      refine ⟨between [] [action] rest rfl, ih _ fun before middle after split => ?_⟩
      exact between (action :: before) middle after (by rw [← split]; rfl)

end AllowedRun

variable (act) in
/-- How many actions of a run count, each judged in the state it is taken in. -/
def countRun (counts : σ → α → Bool) : σ → List α → Nat
  | _, [] => 0
  | state, action :: rest => (counts state action).toNat + countRun counts (act state action) rest

theorem countRun_append (counts : σ → α → Bool) (state : σ) (first second : List α) :
    countRun act counts state (first ++ second) =
      countRun act counts state first + countRun act counts (runActions act state first) second := by
  induction first generalizing state with
  | nil => exact (Nat.zero_add _).symm
  | cons action rest ih =>
    show (counts state action).toNat + countRun act counts (act state action) (rest ++ second) =
      (counts state action).toNat + countRun act counts (act state action) rest + _
    rw [ih, Nat.add_assoc]
    rfl

theorem AllowedRun.countRun_eq_zero {counts : σ → α → Bool} (run : AllowedRun act allowed state actions)
    (uncounted : ∀ state action, allowed state action → counts state action = false) :
    countRun act counts state actions = 0 := by
  induction actions generalizing state with
  | nil => rfl
  | cons action rest ih =>
    show (counts state action).toNat + countRun act counts (act state action) rest = 0
    rw [uncounted state action run.1, ih run.2]
    rfl

variable (act) in
/-- The sum of what the actions of a run weigh, each in the state it is taken in. -/
def sumRun (weighs : σ → α → Nat) : σ → List α → Nat
  | _, [] => 0
  | state, action :: rest => weighs state action + sumRun weighs (act state action) rest

/-- **Weights of zero and one** count actions. -/
theorem AllowedRun.sumRun_eq_countRun {weighs : σ → α → Nat} {counts : σ → α → Bool} (inv : σ → Prop)
    (step : ∀ state action, allowed state action → inv state → inv (act state action))
    (weight : ∀ state action, allowed state action → inv state → weighs state action = (counts state action).toNat)
    (run : AllowedRun act allowed state actions) (start : inv state) :
    sumRun act weighs state actions = countRun act counts state actions := by
  induction actions generalizing state with
  | nil => rfl
  | cons action rest ih =>
    show weighs state action + sumRun act weighs (act state action) rest =
      (counts state action).toNat + countRun act counts (act state action) rest
    rw [weight state action run.1 start, ih run.2 (step state action run.1 start)]

variable (act allowed) in
/-- The second state is that of an allowed run from the first. -/
def Reaches (before after : σ) : Prop :=
  ∃ actions, AllowedRun act allowed before actions ∧ runActions act before actions = after

theorem runActions_append (state : σ) (first second : List α) :
    runActions act state (first ++ second) = runActions act (runActions act state first) second :=
  List.foldl_append

namespace Reaches

theorem refl (state : σ) : Reaches act allowed state state := ⟨[], trivial, rfl⟩

theorem single {action : α} (fits : allowed state action) :
    Reaches act allowed state (act state action) := ⟨[action], ⟨fits, trivial⟩, rfl⟩

theorem trans {first second third : σ} (left : Reaches act allowed first second)
    (right : Reaches act allowed second third) : Reaches act allowed first third := by
  obtain ⟨actions, run, rfl⟩ := left
  obtain ⟨further, rest, rfl⟩ := right
  exact ⟨actions ++ further, AllowedRun.append_iff.mpr ⟨run, rest⟩, runActions_append ..⟩

theorem invariant (inv : σ → Prop) (step : ∀ state action, allowed state action → inv state → inv (act state action))
    {before after : σ} (reaches : Reaches act allowed before after) (start : inv before) : inv after := by
  obtain ⟨actions, run, rfl⟩ := reaches
  exact run.invariant inv step start

end Reaches

end Actions

end Emas

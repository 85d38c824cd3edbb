/-
**Runs of actions that can fail.**

`act` gives the state after an action, or nothing where an assertion of the program fails. `tryActions` is the state
after a list of actions that all have a result, `MeetAll` says that every action meets a condition where it is taken.
-/

import Mathlib.Data.List.Infix

namespace Emas

theorem ok_of_toOption {ε α : Type} {call : Except ε α} {result : α} (done : call.toOption = some result) :
    call = .ok result := by
  cases call with
  | error failure => exact nomatch done
  | ok value => exact congrArg _ (Option.some.inj done)

theorem rel_map {α β γ δ : Type} {r : α → β → Prop} {s : γ → δ → Prop} {f : α → γ} {g : β → δ}
    (follows : ∀ a b, r a b → s (f a) (g b)) {a : Option α} {b : Option β} (rel : Option.Rel r a b) :
    Option.Rel s (a.map f) (b.map g) := by
  cases rel with
  | some related => exact .some (follows _ _ related)
  | none => exact .none

section PartialActions

variable {α σ : Type} (act : σ → α → Option σ) (meets : σ → α → Prop)

def tryActions : σ → List α → Option σ
  | state, [] => some state
  | state, action :: rest => (act state action).bind fun next => tryActions next rest

/-- Each action of the run, as far as it gets, meets the condition in the state that it starts from. -/
def MeetAll : σ → List α → Prop
  | _, [] => True
  | state, action :: rest => meets state action ∧ (act state action).elim True fun next => MeetAll next rest

instance MeetAll.decidable [∀ state action, Decidable (meets state action)] :
    ∀ (state : σ) (actions : List α), Decidable (MeetAll act meets state actions)
  | _, [] => isTrue trivial
  | state, action :: rest =>
    have : Decidable ((act state action).elim True fun next => MeetAll act meets next rest) :=
      match act state action with
      | none => isTrue trivial
      | some next => MeetAll.decidable next rest
    inferInstanceAs (Decidable (_ ∧ _))

variable {act meets}

variable {state final : σ}

theorem tryActions_cons {action : α} {rest : List α} (run : tryActions act state (action :: rest) = some final) :
    ∃ next, act state action = some next ∧ tryActions act next rest = some final :=
  Option.bind_eq_some_iff.mp run

theorem tryActions_append (state : σ) (first second : List α) :
    tryActions act state (first ++ second) =
      (tryActions act state first).bind fun middle => tryActions act middle second := by
  induction first generalizing state with
  | nil => rfl
  | cons action rest ih =>
    show (act state action).bind _ = ((act state action).bind _).bind _
    rw [Option.bind_assoc]
    exact congrArg _ (funext fun next => ih next)

variable {actions : List α}

/-- **What every action keeps holds after every run.** -/
theorem tryActions_invariant (inv : σ → Prop)
    (step : ∀ state action next, act state action = some next → inv state → inv next)
    (run : tryActions act state actions = some final) (start : inv state) : inv final := by
  induction actions generalizing state with
  | nil => exact Option.some.inj run ▸ start
  | cons action rest ih =>
    obtain ⟨next, taken, onward⟩ := tryActions_cons run
    exact ih onward (step state action next taken start)

/-- **What each action appends to a log, a run appends in order.** -/
theorem tryActions_appended {β : Type} (log : σ → List β) (adds : α → List β)
    (step : ∀ state action next, act state action = some next → log next = log state ++ adds action)
    (run : tryActions act state actions = some final) : log final = log state ++ actions.flatMap adds := by
  induction actions generalizing state with
  | nil =>
    cases run
    exact (List.append_nil _).symm
  | cons action rest ih =>
    obtain ⟨next, taken, onward⟩ := tryActions_cons run
    rw [ih onward, step state action next taken, List.flatMap_cons, List.append_assoc]

namespace MeetAll

theorem tail {state next : σ} {action : α} {rest : List α} (all : MeetAll act meets state (action :: rest))
    (taken : act state action = some next) : MeetAll act meets next rest := by
  have behind := all.2
  rwa [taken] at behind

variable {state : σ}

theorem of_append {first second : List α} (all : MeetAll act meets state (first ++ second)) :
    MeetAll act meets state first := by
  induction first generalizing state with
  | nil => trivial
  | cons action rest ih =>
    refine ⟨all.1, ?_⟩
    have behind := all.2
    cases taken : act state action with
    | none => trivial
    | some next =>
      rw [taken] at behind
      exact ih behind

theorem behind {state middle : σ} {first second : List α} (all : MeetAll act meets state (first ++ second))
    (run : tryActions act state first = some middle) : MeetAll act meets middle second := by
  induction first generalizing state with
  | nil =>
    cases run
    exact all
  | cons action rest ih =>
    obtain ⟨next, taken, onward⟩ := tryActions_cons run
    exact ih (all.tail taken) onward

theorem and {meets' : σ → α → Prop} (all : MeetAll act meets state actions) (all' : MeetAll act meets' state actions) :
    MeetAll act (fun state action => meets state action ∧ meets' state action) state actions := by
  induction actions generalizing state with
  | nil => trivial
  | cons action rest ih =>
    refine ⟨⟨all.1, all'.1⟩, ?_⟩
    cases taken : act state action with
    | none => trivial
    | some next => exact ih (all.tail taken) (all'.tail taken)

theorem imp {meets' : σ → α → Prop} (weaker : ∀ state action, meets state action → meets' state action)
    (all : MeetAll act meets state actions) : MeetAll act meets' state actions := by
  induction actions generalizing state with
  | nil => trivial
  | cons action rest ih =>
    refine ⟨weaker state action all.1, ?_⟩
    cases taken : act state action with
    | none => trivial
    | some next => exact ih (all.tail taken)

/-- The actions meet it if and only if the next one does wherever a run stops. -/
theorem iff_next : (∀ passed rest final, passed ++ rest = actions → tryActions act state passed = some final →
      ∀ action ∈ rest.head?, meets final action) ↔ MeetAll act meets state actions := by
  induction actions generalizing state with
  | nil =>
    refine ⟨fun _ => trivial, fun _ passed rest final split _ action next => ?_⟩
    rw [(List.append_eq_nil_iff.mp split).2] at next
    cases next
  | cons first actions ih =>
    constructor
    · intro all
      refine ⟨all [] _ state rfl rfl first rfl, ?_⟩
      cases taken : act state first with
      | none => trivial
      | some next =>
        refine ih.mp fun passed rest final split run => ?_
        exact all (first :: passed) rest final (by rw [← split]; rfl) (by rw [tryActions, taken]; exact run)
    · intro all passed rest final split run
      cases passed with
      | nil =>
        cases run
        rw [show rest = first :: actions from split]
        rintro action ⟨⟩
        exact all.1
      | cons action passed =>
        obtain ⟨rfl, behind⟩ := List.cons.inj split
        obtain ⟨next, taken, onward⟩ := tryActions_cons run
        exact ih.mpr (all.tail taken) passed rest final behind onward

theorem of_forall (each : ∀ action ∈ actions, ∀ state, meets state action) (state : σ) :
    MeetAll act meets state actions := by
  induction actions generalizing state with
  | nil => trivial
  | cons action rest ih =>
    refine ⟨each action (List.mem_cons_self ..) state, ?_⟩
    cases act state action with
    | none => trivial
    | some next => exact ih (fun other member => each other (.tail _ member)) next

/-- **An invariant of the actions under a condition is one of the runs under it.** -/
theorem invariant (inv : σ → Prop)
    (step : ∀ state action next, meets state action → act state action = some next → inv state → inv next)
    (all : MeetAll act meets state actions)
    (run : tryActions act state actions = some final) (start : inv state) : inv final := by
  induction actions generalizing state with
  | nil => exact Option.some.inj run ▸ start
  | cons action rest ih =>
    obtain ⟨next, taken, onward⟩ := tryActions_cons run
    exact ih (all.tail taken) onward (step state action next all.1 taken start)

/-- **Under a condition with which every action has a result, every run has one.** -/
theorem progress (inv : σ → Prop)
    (step : ∀ state action, meets state action → inv state → ∃ next, act state action = some next ∧ inv next)
    (all : MeetAll act meets state actions) (start : inv state) :
    ∃ final, tryActions act state actions = some final ∧ inv final := by
  induction actions generalizing state with
  | nil => exact ⟨state, rfl, start⟩
  | cons action rest ih =>
    obtain ⟨next, taken, kept⟩ := step state action all.1 start
    obtain ⟨final, run, reached⟩ := ih (all.tail taken) kept
    exact ⟨final, by rw [tryActions, taken]; exact run, reached⟩

/-- **A simulation of the steps under the condition** is one of the runs under it: both stop, or both lead to related
states. -/
theorem simulates {τ : Type} {act' : τ → α → Option τ} (related : σ → τ → Prop)
    (step : ∀ state state' action, meets state action → related state state' →
      Option.Rel related (act state action) (act' state' action))
    {state' : τ} (all : MeetAll act meets state actions) (start : related state state') :
    Option.Rel related (tryActions act state actions) (tryActions act' state' actions) := by
  induction actions generalizing state state' with
  | nil => exact .some start
  | cons action rest ih =>
    have first := step state state' action all.1 start
    rw [tryActions, tryActions]
    cases taken : act state action with
    | none =>
      rw [taken] at first
      cases taken' : act' state' action with
      | none => exact .none
      | some next' =>
        rw [taken'] at first
        cases first
    | some next =>
      rw [taken] at first
      cases taken' : act' state' action with
      | none =>
        rw [taken'] at first
        cases first
      | some next' =>
        rw [taken', Option.rel_some_some] at first
        exact ih (all.tail taken) first

/-- **A goal that an invariant gives, and that is missed as soon as a step does not meet the condition.** -/
theorem iff_goal (inv goal : σ → Prop) (enough : ∀ state, inv state → goal state)
    (step : ∀ state action next, act state action = some next → inv state → meets state action → inv next)
    (misses : ∀ state action next, act state action = some next → inv state → goal next → meets state action)
    (free : ∀ state action, act state action = none → meets state action)
    (start : inv state) (actions : List α) :
    (∀ passed rest final, passed ++ rest = actions → tryActions act state passed = some final → goal final) ↔
      MeetAll act meets state actions := by
  constructor
  · intro all
    induction actions generalizing state with
    | nil => trivial
    | cons action rest ih =>
      cases taken : act state action with
      | none => exact ⟨free state action taken, by rw [taken]; trivial⟩
      | some next =>
        have reached : goal next := all [action] rest next rfl (by simp [tryActions, taken])
        have meet := misses state action next taken start reached
        refine ⟨meet, ?_⟩
        rw [taken]
        refine ih (step state action next taken start meet) fun passed after final split run => ?_
        exact all (action :: passed) after final (by rw [← split]; rfl) (by simp [tryActions, taken, run])
  · rintro all passed rest final rfl run
    refine enough final (invariant inv (fun state action next meet taken kept => step state action next taken kept meet)
      (?_ : MeetAll act meets state passed) run start)
    exact all.of_append

end MeetAll

end PartialActions

end Emas

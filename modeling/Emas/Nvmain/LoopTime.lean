/-
**`Loop` is additive in time.**

`Loop( a )` followed by `Loop( b )` is `Loop( a + b )`: the same dispatches, in the same order, and the
same final state. `LoopsTo steps run final` and `ProcessesTo run final` say that the `while` loop,
resp. `Process`, returns; more fuel does not change a result (`loopWhile_approx`), so both are
functional, and the three cases of the `while` loop are equations for `LoopsTo`.
-/

import Emas.Nvmain.ProcessRule

namespace Emas.Nvmain

variable {Method Data σ : Type}

/-! ### More fuel does not change a result -/

section Fuel

variable (recipients : Recipients σ Method Data)

theorem processFrom_approx (cycle fuel : Nat) (here : Option (Event Method Data)) (run : Run σ Method Data) :
    Outcome.Approx (processFrom recipients cycle fuel here run) (processFrom recipients cycle (fuel + 1) here run) := by
  induction fuel generalizing here run with
  | zero =>
    cases here with
    | none => exact .refl _
    | some event => exact .fuel _ _
  | succ fuel ih =>
    cases here with
    | none => exact .refl _
    | some event =>
      rw [processFrom, processFrom]
      cases rest? event.id ((dispatch recipients event run).queue.eventList cycle) with
      | none => exact .refl _
      | some rest => exact ih _ _

theorem process_approx (fuel : Nat) (run : Run σ Method Data) :
    Outcome.Approx (process recipients fuel run) (process recipients (fuel + 1) run) := by
  unfold process
  split
  · exact .refl _
  · exact (processFrom_approx ..).bind fun _ => .refl _

theorem loopWhile_approx (fuel steps : Nat) (run : Run σ Method Data) :
    Outcome.Approx (loopWhile recipients fuel steps run) (loopWhile recipients (fuel + 1) steps run) := by
  induction fuel generalizing steps run with
  | zero =>
    cases steps with
    | zero => exact .refl _
    | succ steps => exact .fuel _ _
  | succ fuel ih =>
    cases steps with
    | zero => exact .refl _
    | succ steps =>
      rw [loopWhile, loopWhile]
      dsimp only
      split_ifs
      · exact .refl _
      · exact (process_approx ..).bind fun run => ih _ run

/-- `Process` returns, with this result. -/
def ProcessesTo (run final : Run σ Method Data) : Prop :=
  ∃ fuel, process recipients fuel run = .done final

/-- The `while` loop of `Loop` returns, with this result. -/
def LoopsTo (steps : Nat) (run final : Run σ Method Data) : Prop :=
  ∃ fuel, loopWhile recipients fuel steps run = .done final

end Fuel

variable {recipients : Recipients σ Method Data} {run final : Run σ Method Data} {steps : Nat}

theorem loopsTo_zero : LoopsTo recipients 0 run final ↔ final = run := by
  constructor
  · rintro ⟨fuel, finished⟩
    cases fuel <;> (cases finished; rfl)
  · rintro rfl
    exact ⟨0, rfl⟩

theorem loopsTo_far (positive : 0 < steps) (bounded : run.queue.currentCycle + steps < maxCycle)
    (far : run.queue.currentCycle + steps < run.queue.nextEventCycle) :
    LoopsTo recipients steps run final ↔ final = run.setCycle (run.queue.currentCycle + steps) := by
  obtain ⟨steps, rfl⟩ := Nat.exists_eq_add_one.mpr positive
  have unfolded : ∀ fuel, loopWhile recipients (fuel + 1) (steps + 1) run =
      .done (run.setCycle (run.queue.currentCycle + (steps + 1))) := by
    intro fuel
    rw [loopWhile]
    dsimp only
    rw [addCycles_eq bounded, if_pos far]
  constructor
  · rintro ⟨fuel, finished⟩
    cases fuel with
    | zero => cases finished
    | succ fuel =>
      rw [unfolded] at finished
      cases finished
      rfl
  · rintro rfl
    exact ⟨1, unfolded 0⟩

theorem loopsTo_near (positive : 0 < steps) (bounded : run.queue.currentCycle + steps < maxCycle)
    (after : run.queue.currentCycle ≤ run.queue.nextEventCycle)
    (near : run.queue.nextEventCycle ≤ run.queue.currentCycle + steps) :
    LoopsTo recipients steps run final ↔
      ∃ middle, ProcessesTo recipients (run.setCycle run.queue.nextEventCycle) middle ∧
        LoopsTo recipients (steps - (run.queue.nextEventCycle - run.queue.currentCycle)) middle
          final := by
  obtain ⟨steps, rfl⟩ := Nat.exists_eq_add_one.mpr positive
  have unfolded : ∀ fuel, loopWhile recipients (fuel + 1) (steps + 1) run =
      (process recipients fuel (run.setCycle run.queue.nextEventCycle)).bind
        (loopWhile recipients fuel (steps + 1 - (run.queue.nextEventCycle - run.queue.currentCycle))) := by
    intro fuel
    rw [loopWhile]
    dsimp only
    rw [addCycles_eq bounded, if_neg (by omega), advance_eq after (by omega),
      subCycles_eq after (by omega), subCycles_eq (by omega) (by omega)]
  constructor
  · rintro ⟨fuel, finished⟩
    cases fuel with
    | zero => cases finished
    | succ fuel =>
      rw [unfolded] at finished
      obtain ⟨middle, processed, looped⟩ := Outcome.bind_eq_done finished
      exact ⟨middle, ⟨fuel, processed⟩, fuel, looped⟩
  · rintro ⟨middle, ⟨fuel, processed⟩, fuel', looped⟩
    have processed' := (Outcome.Approx.of_le (process_approx recipients · _)
      (Nat.le_max_left fuel fuel')).done_eq processed
    have looped' := (Outcome.Approx.of_le (loopWhile_approx recipients · _ _)
      (Nat.le_max_right fuel fuel')).done_eq looped
    exact ⟨max fuel fuel' + 1, by rw [unfolded, processed', Outcome.bind_done, looped']⟩

/-! ### The while loop splits at every point of time -/

variable (recipients) in
/-- Looping `a + b` steps is looping `a` steps and then `b` steps. -/
def Additive (a b : Nat) (run : Run σ Method Data) : Prop :=
  ∀ final, LoopsTo recipients (a + b) run final ↔
    ∃ middle, LoopsTo recipients a run middle ∧ LoopsTo recipients b middle final

theorem loopsTo_add_far {a b : Nat} (positive : 0 < a) (bounded : run.queue.currentCycle + (a + b) < maxCycle)
    (far : run.queue.currentCycle + a < run.queue.nextEventCycle) :
    LoopsTo recipients (a + b) run final ↔ LoopsTo recipients b (run.setCycle (run.queue.currentCycle + a)) final := by
  rcases Nat.eq_zero_or_pos b with rfl | more
  · rw [Nat.add_zero, loopsTo_zero, loopsTo_far positive (by omega) far]
  · have clock : (run.setCycle (run.queue.currentCycle + a)).queue.currentCycle
        = run.queue.currentCycle + a := rfl
    have next : (run.setCycle (run.queue.currentCycle + a)).queue.nextEventCycle = run.queue.nextEventCycle := rfl
    by_cases further : run.queue.currentCycle + (a + b) < run.queue.nextEventCycle
    · rw [loopsTo_far (by omega) bounded further, loopsTo_far more (by omega) (by omega), clock, Nat.add_assoc]
      rfl
    · rw [loopsTo_near (by omega) bounded (by omega) (by omega),
        loopsTo_near more (by omega) (by omega) (by omega), clock, next]
      have left : a + b - (run.queue.nextEventCycle - run.queue.currentCycle) =
          b - (run.queue.nextEventCycle - (run.queue.currentCycle + a)) := by omega
      rw [left]
      rfl

theorem additive_step {a b : Nat} (bounded : run.queue.currentCycle + (a + b) < maxCycle)
    (after : run.queue.currentCycle ≤ run.queue.nextEventCycle)
    (next : run.queue.nextEventCycle ≤ run.queue.currentCycle + a → ∀ middle,
      ProcessesTo recipients (run.setCycle run.queue.nextEventCycle) middle →
        Additive recipients (a - (run.queue.nextEventCycle - run.queue.currentCycle)) b middle) :
    Additive recipients a b run := by
  intro final
  rcases Nat.eq_zero_or_pos a with rfl | positive
  · simp [loopsTo_zero]
  by_cases far : run.queue.currentCycle + a < run.queue.nextEventCycle
  · rw [loopsTo_add_far positive bounded far]
    simp [loopsTo_far positive (by omega) far]
  · have left : a + b - (run.queue.nextEventCycle - run.queue.currentCycle) =
        a - (run.queue.nextEventCycle - run.queue.currentCycle) + b := by omega
    rw [loopsTo_near (by omega) bounded after (by omega), left]
    constructor
    · rintro ⟨middle, processed, looped⟩
      obtain ⟨split, first, second⟩ := (next (by omega) middle processed final).mp looped
      exact ⟨split, (loopsTo_near positive (by omega) after (by omega)).mpr ⟨middle, processed, first⟩, second⟩
    · rintro ⟨split, first, second⟩
      obtain ⟨middle, processed, first⟩ :=
        (loopsTo_near positive (by omega) after (by omega)).mp first
      exact ⟨middle, processed, (next (by omega) middle processed final).mpr ⟨split, first, second⟩⟩

section OnlyInserts

variable {behaviour : Behaviour σ Method Data}

theorem wellFormed_loopInvariant (behaviour : Behaviour σ Method Data) :
    LoopInvariant behaviour.recipients (Dispatch.Regular behaviour)
      (fun run => run.queue.WellFormed) (fun cycle todo run => Iterating cycle todo run.queue) where
  wf wf := wf
  tick wf _ before := setCycle_wellFormed wf before
  enter wf due := iterating_start wf due
  iterating iterating := iterating
  step cycle event rest run iterating regular := by
    obtain ⟨rest', running, _⟩ := iterating.dispatch regular
    exact ⟨rest', running.here, running.iterating⟩
  leave bounded iterating := (finishCycle_wellFormed iterating bounded).1

theorem ProcessesTo.settled (processed : ProcessesTo behaviour.recipients run final)
    (inserts : behaviour.OnlyInserts) (wf : run.queue.WellFormed)
    (due : run.queue.nextEventCycle = run.queue.currentCycle) (bounded : run.queue.currentCycle < maxCycle) :
    LoopInvariant.Settled (fun run => run.queue.WellFormed) run.queue.currentCycle final := by
  obtain ⟨fuel, finished⟩ := processed
  exact ((wellFormed_loopInvariant behaviour).process wf due bounded
    fun record _ => inserts.regular record).done_post finished

theorem ProcessesTo.settled_next
    (processed : ProcessesTo behaviour.recipients (run.setCycle run.queue.nextEventCycle) final)
    (inserts : behaviour.OnlyInserts) (wf : run.queue.WellFormed) (bounded : run.queue.nextEventCycle < maxCycle) :
    final.queue.WellFormed ∧ final.queue.currentCycle = run.queue.nextEventCycle ∧
      run.queue.nextEventCycle < final.queue.nextEventCycle :=
  processed.settled inserts (setCycle_wellFormed wf le_rfl) rfl bounded

/-- **Induction along the `while` loop**: a property holds of every number of steps and every run, if
it holds whenever it holds after the next `Process`. The clock advances with every `Process` but
perhaps the first. -/
theorem loopWhile_induction (inserts : behaviour.OnlyInserts) (slack : Nat) {motive : Nat → Run σ Method Data → Prop}
    (step : ∀ steps run, run.queue.WellFormed → run.queue.currentCycle + (steps + slack) < maxCycle →
      (run.queue.nextEventCycle ≤ run.queue.currentCycle + steps → ∀ middle,
        ProcessesTo behaviour.recipients (run.setCycle run.queue.nextEventCycle) middle →
          motive (steps - (run.queue.nextEventCycle - run.queue.currentCycle)) middle) → motive steps run)
    {steps : Nat} (wf : run.queue.WellFormed)
    (bounded : run.queue.currentCycle + (steps + slack) < maxCycle) : motive steps run := by
  have strict : ∀ steps (run : Run σ Method Data), run.queue.WellFormed →
      run.queue.currentCycle < run.queue.nextEventCycle →
      run.queue.currentCycle + (steps + slack) < maxCycle → motive steps run := by
    intro steps
    induction steps using Nat.strong_induction_on with
    | _ steps ih =>
      intro run wf later bounded
      refine step steps run wf bounded fun near middle processed => ?_
      obtain ⟨wf', clock, later'⟩ := processed.settled_next inserts wf (by omega)
      exact ih _ (by omega) middle wf' (by omega) (by omega)
  have := wf.current_le_next
  refine step steps run wf bounded fun near middle processed => ?_
  obtain ⟨wf', clock, later⟩ := processed.settled_next inserts wf (by omega)
  exact strict _ middle wf' (by omega) (by omega)

/-- **The `while` loop is additive.** -/
theorem loopsTo_add (inserts : behaviour.OnlyInserts) {a b : Nat} (wf : run.queue.WellFormed)
    (bounded : run.queue.currentCycle + (a + b) < maxCycle) : Additive behaviour.recipients a b run :=
  loopWhile_induction inserts b (fun _ _ wf bounded next => additive_step bounded wf.current_le_next next) wf bounded

variable (behaviour) in
/-- Every call of `Process` returns. -/
def ProcessReturns : Prop :=
  ∀ run : Run σ Method Data, run.queue.WellFormed →
    run.queue.nextEventCycle = run.queue.currentCycle → run.queue.currentCycle < maxCycle →
      ∃ final, ProcessesTo behaviour.recipients run final

theorem Behaviour.InsertsLater.processReturns (later : behaviour.InsertsLater) : ProcessReturns behaviour := by
  intro run wf due bounded
  obtain ⟨final, finished, _⟩ := process_later later run wf due bounded
  exact ⟨final, _, finished⟩

/-- **The `while` loop terminates** when every `Process` does. -/
theorem loopsTo_total (inserts : behaviour.OnlyInserts) (returns : ProcessReturns behaviour)
    {steps : Nat} (wf : run.queue.WellFormed) (bounded : run.queue.currentCycle + steps < maxCycle) :
    ∃ final, LoopsTo behaviour.recipients steps run final := by
  refine loopWhile_induction
    (motive := fun steps run => ∃ final, LoopsTo behaviour.recipients steps run final) inserts 0
    (fun steps run wf bounded next => ?_) wf bounded
  rcases Nat.eq_zero_or_pos steps with rfl | positive
  · exact ⟨run, loopsTo_zero.mpr rfl⟩
  by_cases far : run.queue.currentCycle + steps < run.queue.nextEventCycle
  · exact ⟨_, (loopsTo_far positive bounded far).mpr rfl⟩
  · obtain ⟨middle, processed⟩ := returns (run.setCycle run.queue.nextEventCycle)
      (setCycle_wellFormed wf le_rfl) rfl (show run.queue.nextEventCycle < maxCycle by omega)
    obtain ⟨final, looped⟩ := next (by omega) middle processed
    exact ⟨final, (loopsTo_near positive bounded wf.current_le_next (by omega)).mpr ⟨middle, processed, looped⟩⟩

/-! ### Loop -/

theorem loop_approx (recipients : Recipients σ Method Data) (steps fuel : Nat) (run : Run σ Method Data) :
    Outcome.Approx (loop recipients fuel steps run) (loop recipients (fuel + 1) steps run) := by
  unfold loop
  split_ifs
  · exact process_approx ..
  · exact loopWhile_approx ..

theorem loop_bind_iff {recipients : Recipients σ Method Data} {a b : Nat} :
    (∃ fuel, (loop recipients fuel a run).bind (loop recipients fuel b) = .done final) ↔
      ∃ middle, (∃ fuel, loop recipients fuel a run = .done middle) ∧
        ∃ fuel, loop recipients fuel b middle = .done final := by
  constructor
  · rintro ⟨fuel, finished⟩
    obtain ⟨middle, first, second⟩ := Outcome.bind_eq_done finished
    exact ⟨middle, ⟨fuel, first⟩, fuel, second⟩
  · rintro ⟨middle, ⟨fuel, first⟩, fuel', second⟩
    have first' := (Outcome.Approx.of_le (loop_approx recipients a · run) (Nat.le_max_left fuel fuel')).done_eq first
    have second' := (Outcome.Approx.of_le (loop_approx recipients b · middle)
      (Nat.le_max_right fuel fuel')).done_eq second
    exact ⟨max fuel fuel', by rw [first', Outcome.bind_done, second']⟩

theorem loop_eq_loopWhile {recipients : Recipients σ Method Data} {fuel steps : Nat}
    (positive : 0 < steps) : loop recipients fuel steps run = loopWhile recipients fuel steps run := by
  rw [loop, if_neg (by omega)]

theorem loop_add (inserts : behaviour.OnlyInserts) {a b : Nat} (positive : 0 < b)
    (wf : run.queue.WellFormed) (bounded : run.queue.currentCycle + (a + b) < maxCycle) :
    (∃ fuel, (loop behaviour.recipients fuel a run).bind (loop behaviour.recipients fuel b) = .done final) ↔
      ∃ fuel, loop behaviour.recipients fuel (a + b) run = .done final := by
  rw [loop_bind_iff]
  have whole : (∃ fuel, loop behaviour.recipients fuel (a + b) run = .done final) ↔
      LoopsTo behaviour.recipients (a + b) run final := by
    simp only [loop_eq_loopWhile (show 0 < a + b by omega), LoopsTo]
  have second : ∀ middle, (∃ fuel, loop behaviour.recipients fuel b middle = .done final) ↔
      LoopsTo behaviour.recipients b middle final := by
    intro middle
    simp only [loop_eq_loopWhile positive, LoopsTo]
  simp only [whole, second]
  by_cases special : a = 0 ∧ run.queue.nextEventCycle = run.queue.currentCycle
  · obtain ⟨rfl, due⟩ := special
    have here : run.setCycle run.queue.nextEventCycle = run := by
      rw [due]
      rfl
    rw [Nat.zero_add, loopsTo_near positive (by omega) (by omega) (by omega), here, due, Nat.sub_self, Nat.sub_zero]
    simp only [loop, due, and_self, if_true, ProcessesTo]
  · rw [loopsTo_add inserts wf bounded final]
    simp only [loop, special, if_false, LoopsTo]

/-- **`Loop` is a homomorphism of time.** For recipients that only insert, at the current cycle or
later, and a clock that stays below the sentinel: `Loop( a )` followed by `Loop( b )` returns what
`Loop( a + b )` returns; `Loop( a + b )` runs into no fault and moves the clock by exactly `a + b`; and
it returns when every call of `Process` does. -/
theorem loop_homomorphism (behaviour : Behaviour σ Method Data) (run : Run σ Method Data) (a b : Nat)
    (inserts : behaviour.OnlyInserts) (positive : 0 < b) (wf : run.queue.WellFormed)
    (bounded : run.queue.currentCycle + (a + b) < maxCycle) :
    (∀ final, (∃ fuel, (loop behaviour.recipients fuel a run).bind (loop behaviour.recipients fuel b) = .done final) ↔
      ∃ fuel, loop behaviour.recipients fuel (a + b) run = .done final) ∧
      (∀ fuel, (loop behaviour.recipients fuel (a + b) run).Meets
        (fun final => final.queue.currentCycle = run.queue.currentCycle + (a + b)) fun _ => True) ∧
      (ProcessReturns behaviour → ∃ fuel final, loop behaviour.recipients fuel (a + b) run = .done final) := by
  refine ⟨fun final => loop_add inserts positive wf bounded, fun fuel => ?_, fun returns => ?_⟩
  · exact ((wellFormed_loopInvariant behaviour).loop wf bounded
      fun record _ => inserts.regular record).imp (fun final settled => settled.2.1) fun _ _ => trivial
  · obtain ⟨final, fuel, finished⟩ := loopsTo_total inserts returns wf bounded
    exact ⟨fuel, final, by rw [loop_eq_loopWhile (by omega), finished]⟩

end OnlyInserts

/-! ### A run that splits, and runs that do not return -/

/-- A recipient that inserts a callback of its own `delay` cycles on. -/
def repeating (delay : Nat) : Behaviour Unit Unit Unit :=
  fun _ _ _ queue => ((), if queue.currentCycle + delay ≤ maxCycle then
    [.insertCallback 0 () (queue.currentCycle + delay) none 0] else [])

theorem repeating_insertsAt {delay : Nat} {allowed : Nat → Nat → Prop}
    (later : ∀ cycle, allowed cycle (cycle + delay)) : (repeating delay).InsertsAt allowed := by
  intro recipient call state queue op member
  unfold repeating at member
  dsimp only at member
  split_ifs at member with fits
  · rw [List.mem_singleton] at member
    exact ⟨_, _, _, by rw [member]; rfl, later _, fits⟩
  · simp at member

theorem repeating_insertsLater : (repeating 3).InsertsLater :=
  repeating_insertsAt fun _ => Nat.lt_add_of_pos_right (by decide)

/-- A queue with one callback, at cycle `5`. -/
def callbackAtFive : Run Unit Unit Unit :=
  ⟨(), EventQueue.create.applyOps [.insertCallback 0 () 5 none 0], [], []⟩

theorem callbackAtFive_wellFormed : callbackAtFive.queue.WellFormed :=
  EventQueue.applyOps_wellFormed EventQueue.create_wellFormed (by decide)

/-- Split at the event of cycle `8`. -/
theorem loop_homomorphism_repeating :
    (∃ fuel final, loop (repeating 3).recipients fuel (8 + 7) callbackAtFive = .done final) ∧
      ∀ final, (∃ fuel, (loop (repeating 3).recipients fuel 8 callbackAtFive).bind
          (loop (repeating 3).recipients fuel 7) = .done final) ↔
        ∃ fuel, loop (repeating 3).recipients fuel (8 + 7) callbackAtFive = .done final := by
  have result := loop_homomorphism (repeating 3) callbackAtFive 8 7 repeating_insertsLater.onlyInserts
    (by decide) callbackAtFive_wellFormed (by decide)
  exact ⟨result.2.2 repeating_insertsLater.processReturns, result.1⟩

theorem processFrom_repeating {cycle fuel : Nat} {event : Event Unit Unit}
    {rest : List (Event Unit Unit)} {run final : Run Unit Unit Unit}
    (iterating : Iterating cycle (event :: rest) run.queue)
    (callbacks : ∀ other ∈ run.queue.eventList cycle, other.type = .callback ∧ other.priority = 0)
    (bounded : cycle ≤ maxCycle) : processFrom (repeating 0).recipients cycle fuel (some event) run ≠ .done final := by
  induction fuel generalizing event rest run with
  | zero => exact fun finished => nomatch finished
  | succ fuel ih =>
    have running := iterating.running
    have queue : (dispatch (repeating 0).recipients event run).queue =
        run.queue.insertEvent { (Event.create .callback 0 none none : Event Unit Unit) with
          method := some () } cycle 0 := by
      rw [dispatch_queue]
      unfold Dispatch.ops callOf
      simp only [Run.record, (callbacks event running.listed).1]
      unfold repeating
      dsimp only
      rw [iterating.now, Nat.add_zero, if_pos bounded]
      rfl
    obtain ⟨rest', running', _⟩ := running.insertEvent
      { (Event.create .callback 0 none none : Event Unit Unit) with method := some () } 0
      (show run.queue.currentCycle ≤ cycle by rw [running.now]) bounded
    have behind := (running.insertEvent_behind _ (fun _ earlier member => by
      rw [upTo_append_of_rest? running.here] at callbacks
      exact le_of_eq (callbacks earlier (List.mem_append_left _ member)).2) running').1
    rw [← queue] at running' behind
    have inRest : rest' ≠ [] := by
      rcases behind with member | ⟨when, different, member⟩
      · exact List.ne_nil_of_mem member
      · exact absurd (running'.wf.keyed when _ member).symm different
    obtain ⟨next, rest'', rfl⟩ := List.exists_cons_of_ne_nil inRest
    rw [processFrom, running'.here]
    refine ih running'.iterating fun other member => ?_
    rw [queue] at member
    rcases EventQueue.mem_eventList_insertEvent.mp member with ⟨_, rfl⟩ | old
    · exact ⟨rfl, rfl⟩
    · exact callbacks other old

def emptyBeforeSentinel : Run Unit Unit Unit :=
  Run.setCycle ⟨(), .create, [], []⟩ (maxCycle - 1)

theorem loop_repeating_zero {steps : Nat} (reaches : 5 ≤ steps) (bounded : steps < maxCycle)
    (fuel : Nat) (final : Run Unit Unit Unit) :
    loop (repeating 0).recipients fuel steps callbackAtFive ≠ .done final := by
  intro finished
  rw [loop_eq_loopWhile (by omega)] at finished
  have clock : callbackAtFive.queue.currentCycle = 0 := rfl
  have next : callbackAtFive.queue.nextEventCycle = 5 := rfl
  obtain ⟨middle, ⟨fuel', processed⟩, _⟩ := (loopsTo_near (by omega) (by omega) (by omega)
    (by omega)).mp ⟨fuel, finished⟩
  have wf : (callbackAtFive.setCycle 5).queue.WellFormed :=
    setCycle_wellFormed callbackAtFive_wellFormed (by decide)
  obtain ⟨stopped, dispatched, _⟩ :=
    Outcome.bind_eq_done ((process_eq wf rfl (by decide)).symm.trans processed)
  exact processFrom_repeating (iterating_start wf rfl) (by decide) (by decide) dispatched

/-- **`Loop` is not total.** A recipient that only inserts, at the current cycle, keeps `Loop` from
returning; and stepping an empty queue to cycle `2^64 - 1` fails the assertion of `Process`. -/
theorem loop_not_total :
    ((repeating 0).OnlyInserts ∧
      ∀ fuel final, loop (repeating 0).recipients fuel 10 callbackAtFive ≠ .done final) ∧
      ∃ final, loop (repeating 3).recipients 2 1 emptyBeforeSentinel = .fault .assertion final :=
  ⟨⟨repeating_insertsAt fun _ => le_rfl, loop_repeating_zero (by decide) (by decide)⟩, ⟨_, rfl⟩⟩

/-! ### What one call of `Loop` does to a queue

`Advanced start target run` sums up `Loop( target - current )` on a queue `start`, with an empty log at
the beginning: the clock stands at `target` and the next event is later; every dispatch happened at
the cycle of its event, between the first pending cycle of `start` and `target`; what was pending is
still pending or was dispatched; and every pending event is for an `allowed` cycle, when the recipients
insert for such cycles only. `loop_advanced` proves it together with termination.
-/

/-- What a run of `Loop` that began with the queue `start` and an empty log keeps. -/
structure Advancing (allowed : Nat → Prop) (start : EventQueue Method Data)
    (run : Run σ Method Data) : Prop where
  /-- Dispatches are on time, and not before the first pending cycle. -/
  onTime : ∀ record ∈ run.log, record.queue.currentCycle = record.event.cycle ∧
    start.nextEventCycle ≤ record.event.cycle ∧ record.event.cycle ≤ run.queue.currentCycle
  allowed : ∀ when, ∀ event ∈ run.queue.eventList when, allowed when
  grows : start.nextEventCycle ≤ run.queue.nextEventCycle

/-- A call of `Loop` on the queue `start` that moved the clock to `target`. -/
structure Advanced (allowed : Nat → Prop) (start : EventQueue Method Data) (target : Nat)
    (run : Run σ Method Data) : Prop extends Advancing allowed start run where
  wf : run.queue.WellFormed
  clock : run.queue.currentCycle = target
  later : target < run.queue.nextEventCycle
  /-- Nothing is lost of what was pending. -/
  pending : ∀ when, ∀ event ∈ start.eventList when,
    event ∈ run.queue.eventList when ∨ ∃ record ∈ run.log, record.event = event
  /-- An event up to the target was processed, and the last one is on record. -/
  last : start.nextEventCycle ≤ target →
    start.nextEventCycle ≤ run.queue.lastEventCycle ∧ run.queue.lastEventCycle ≤ target

/-! ### The invariant -/

/-- Between two cycles. -/
structure IdleAdvance (allowed : Nat → Prop) (start : EventQueue Method Data)
    (run : Run σ Method Data) : Prop extends Advancing allowed start run where
  wf : run.queue.WellFormed
  pending : ∀ when, ∀ event ∈ start.eventList when,
    event ∈ run.queue.eventList when ∨ ∃ record ∈ run.log, record.event = event
  last : run.queue.nextEventCycle = start.nextEventCycle ∨
    start.nextEventCycle ≤ run.queue.lastEventCycle ∧ run.queue.lastEventCycle ≤ run.queue.currentCycle

/-- Inside `Process`. -/
structure BusyAdvance (allowed : Nat → Prop) (start : EventQueue Method Data) (cycle : Nat)
    (todo : List (Event Method Data)) (run : Run σ Method Data) : Prop
    extends Advancing allowed start run where
  iterating : Iterating cycle todo run.queue
  pending : ∀ when, ∀ event ∈ start.eventList when,
    (event.cycle = when ∧ Waiting run.queue cycle todo event) ∨ ∃ record ∈ run.log, record.event = event

theorem applyOps_allowed {allowed : Nat → Prop} {ops : List (QueueOp Method Data)} {queue : EventQueue Method Data}
    (inserts : ∀ op ∈ ops, ∃ event when priority, op.insertion = some (event, when, priority) ∧ allowed when)
    (before : ∀ when, ∀ event ∈ queue.eventList when, allowed when) :
    ∀ when, ∀ event ∈ (queue.applyOps ops).eventList when, allowed when := by
  induction ops generalizing queue with
  | nil => exact before
  | cons op rest ih =>
    obtain ⟨new, cycle, priority, inserted, fits⟩ := inserts op (List.mem_cons_self ..)
    refine ih (fun other member => inserts other (List.mem_cons_of_mem _ member)) fun when event member => ?_
    rw [EventQueue.apply_of_insertion inserted] at member
    rcases EventQueue.mem_eventList_insertEvent.mp member with ⟨rfl, _⟩ | old
    · exact fits
    · exact before when event old

section Rule

variable {behaviour : Behaviour σ Method Data} {allowed : Nat → Prop}
  {start : EventQueue Method Data}

theorem Behaviour.InsertsAt.imp {allowed allowed' : Nat → Nat → Prop} (inserts : behaviour.InsertsAt allowed)
    (weaker : ∀ cycle when, allowed cycle when → allowed' cycle when) : behaviour.InsertsAt allowed' := by
  intro recipient call state queue op member
  obtain ⟨event, when, priority, inserted, fits, bounded⟩ :=
    inserts recipient call state queue op member
  exact ⟨event, when, priority, inserted, weaker _ _ fits, bounded⟩

theorem BusyAdvance.step {cycle : Nat} {event : Event Method Data}
    {rest : List (Event Method Data)} {run : Run σ Method Data}
    (inserts : behaviour.InsertsAt fun cycle when => cycle ≤ when ∧ allowed when)
    (state : BusyAdvance allowed start cycle (event :: rest) run) :
    ∃ rest', rest? event.id ((dispatch behaviour.recipients event run).queue.eventList cycle) = some rest' ∧
      BusyAdvance allowed start cycle rest' (dispatch behaviour.recipients event run) := by
  have only : behaviour.OnlyInserts := inserts.imp fun _ _ fits => fits.1
  have running := state.iterating.running
  obtain ⟨rest', running', _, kept, _⟩ := state.iterating.dispatch (only.regular (run.record event))
  have clock : (dispatch behaviour.recipients event run).queue.currentCycle = run.queue.currentCycle := by
    rw [running'.now, running.now]
  have logged : run.record event ∈ (dispatch behaviour.recipients event run).log :=
    List.mem_append_right _ (List.mem_singleton_self _)
  have cycleOf := running.wf.keyed cycle event running.listed
  refine ⟨rest', running'.here, ⟨fun record member => ?_, ?_, ?_⟩, running'.iterating, ?_⟩
  · rw [clock]
    rcases List.mem_append.mp member with old | new
    · exact state.onTime record old
    · rw [List.mem_singleton.mp new]
      have := state.grows
      have := state.iterating.next
      refine ⟨?_, ?_, ?_⟩
      · show run.queue.currentCycle = event.cycle
        rw [cycleOf, running.now]
      · show start.nextEventCycle ≤ event.cycle
        omega
      · show event.cycle ≤ run.queue.currentCycle
        rw [cycleOf, running.now]
  · rw [dispatch_queue]
    refine applyOps_allowed (fun op member => ?_) state.allowed
    obtain ⟨new, when, priority, inserted, fits, _⟩ := inserts.ops (run.record event) op member
    exact ⟨new, when, priority, inserted, fits.2⟩
  · rw [running'.next, ← state.iterating.next]
    exact state.grows
  · intro when other member
    rcases state.pending when other member with ⟨cycleOf', waits⟩ | ⟨record, old, same⟩
    · by_cases here : other = event
      · exact Or.inr ⟨_, logged, here.symm⟩
      · have stillWaits : Waiting run.queue cycle rest other :=
          waits.imp_left fun inTodo => (List.mem_cons.mp inTodo).resolve_left here
        rcases kept other stillWaits with waits' | ⟨when', removes⟩
        · exact Or.inl ⟨cycleOf', waits'⟩
        · exact absurd removes (inserts.not_removes _ _ _)
    · exact Or.inr ⟨record, List.mem_append_left _ old, same⟩

/-- **The invariant of one call of `Loop`.** -/
theorem advance_loopInvariant
    (inserts : behaviour.InsertsAt fun cycle when => cycle ≤ when ∧ allowed when) :
    LoopInvariant behaviour.recipients (fun _ => True) (IdleAdvance allowed start) (BusyAdvance allowed start) where
  wf state := state.wf
  tick state forward before :=
    { onTime := fun record member =>
        have onTime := state.onTime record member
        ⟨onTime.1, onTime.2.1, le_trans onTime.2.2 forward⟩
      allowed := state.allowed
      grows := state.grows
      wf := setCycle_wellFormed state.wf before
      pending := state.pending
      last := state.last.imp_right fun last => ⟨last.1, le_trans last.2 forward⟩ }
  enter {run} state due :=
    { toAdvancing := state.toAdvancing
      iterating := iterating_start state.wf due
      pending := fun when event member => by
        refine (state.pending when event member).imp_left fun listed => ?_
        refine ⟨state.wf.keyed when event listed, ?_⟩
        by_cases same : when = run.queue.currentCycle
        · subst same
          exact Or.inl listed
        · exact Or.inr ⟨when, same, listed⟩ }
  iterating state := state.iterating
  step _ _ _ _ state _ := state.step inserts
  leave {cycle run} bounded state := by
    obtain ⟨wf, later⟩ := finishCycle_wellFormed state.iterating bounded
    have grows := state.grows
    have next := state.iterating.next
    have now := state.iterating.now
    refine ⟨⟨state.onTime, fun when event member => ?_, by omega⟩, wf, fun when event member => ?_, Or.inr ?_⟩
    · exact state.allowed when event (state.iterating.mem_finishCycle.mp member).2
    · refine (state.pending when event member).imp_left fun ⟨cycleOf, waits⟩ => ?_
      rcases waits with none | ⟨when', different, listed⟩
      · simp at none
      · have same := state.iterating.wf.keyed when' event listed
        rw [← cycleOf, same]
        exact state.iterating.mem_finishCycle.mpr ⟨different, listed⟩
    · show start.nextEventCycle ≤ run.queue.nextEventCycle ∧
        run.queue.nextEventCycle ≤ run.queue.currentCycle
      omega

theorem loop_total (inserts : behaviour.OnlyInserts) (returns : ProcessReturns behaviour)
    (run : Run σ Method Data) {steps : Nat} (wf : run.queue.WellFormed)
    (bounded : run.queue.currentCycle + steps < maxCycle) :
    ∃ final fuel, loop behaviour.recipients fuel steps run = .done final := by
  by_cases special : steps = 0 ∧ run.queue.nextEventCycle = run.queue.currentCycle
  · obtain ⟨final, fuel, finished⟩ := returns run wf special.2 (by omega)
    exact ⟨final, fuel, by rw [loop, if_pos special, finished]⟩
  · obtain ⟨final, fuel, finished⟩ := loopsTo_total inserts returns wf bounded
    exact ⟨final, fuel, by rw [loop, if_neg special, finished]⟩

/-- **One call of `Loop`**, from any well-formed queue. -/
theorem loop_advanced
    (inserts : behaviour.InsertsAt fun cycle when => cycle ≤ when ∧ allowed when)
    (returns : ProcessReturns behaviour) (state : σ) {steps : Nat} (wf : start.WellFormed)
    (fits : ∀ when, ∀ event ∈ start.eventList when, allowed when)
    (bounded : start.currentCycle + steps < maxCycle) :
    ∃ final, Outcome.Returns (loop behaviour.recipients · steps ⟨state, start, [], []⟩) final ∧
      Advanced allowed start (start.currentCycle + steps) final := by
  have only : behaviour.OnlyInserts := inserts.imp fun _ _ fits => fits.1
  obtain ⟨final, fuel, finished⟩ :=
    loop_total only returns ⟨state, start, [], []⟩ wf bounded
  have begin : IdleAdvance allowed start (⟨state, start, [], []⟩ : Run σ Method Data) :=
    { onTime := by simp
      allowed := fits
      grows := le_rfl
      wf := wf
      pending := fun _ _ member => Or.inl member
      last := Or.inl rfl }
  obtain ⟨idle, clock, later⟩ := ((advance_loopInvariant inserts).loop begin bounded
    fun _ _ => trivial).done_post finished
  have clock' : final.queue.currentCycle = start.currentCycle + steps := clock
  have returned : Outcome.Returns (loop behaviour.recipients · steps ⟨state, start, [], []⟩) final :=
    Outcome.Returns.of_approx (loop_approx behaviour.recipients steps · _) finished
  refine ⟨final, returned, idle.toAdvancing, idle.wf, clock, later, idle.pending, fun due => ?_⟩
  rcases idle.last with same | last
  · exact absurd due (by have : _ < _ := later; omega)
  · exact ⟨last.1, by omega⟩

end Rule

end Emas.Nvmain

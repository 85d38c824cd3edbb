/-
**The MI protocol is coherent.**

* `MISystem.coherent_without_dma` — **without DMA, in every run no controller fails, at most one cache is in the state `M`,
  and every callback sees what the last store has left.**
-/

import Emas.Ruby.MICacheRequests
import Emas.Ruby.MICacheSteps
import Emas.Ruby.MIDMARequests
import Emas.Ruby.MIMemorySteps
import Emas.Lib.PartialRun

namespace Emas.Ruby

variable {ι κ : Type} {blockSize : Nat}

namespace MIAction

/-- The messages from the directory to a cache are delivered in order. -/
def InOrder : MIAction ι κ blockSize → Prop
  | .forwardRequestNetwork _ i => i = 0
  | _ => True

/-- The step is no request of a DMA controller. -/
def WithoutDMA : MIAction ι κ blockSize → Prop
  | .dmaRequest .. => False
  | _ => True

/-- The directory takes up a request, a DMA controller makes one, or it is another step. -/
def kind : MIAction ι κ blockSize → StepKind
  | .requestQueue .. | .dmaRequestQueue .. => .request
  | .dmaRequest .. => .dma
  | _ => .other

end MIAction

namespace Coherent

variable [DecidableEq ι] [DecidableEq κ] {s : MISystem ι κ} {current : DataBlock} {phase : ι → Phase ι}
  {dirPhase : DirectoryPhase ι κ} {dmaPhase : κ → DMAPhase}

/-- **Every step.** The messages of the forward network come in order, where an invalidation is left. -/
theorem step (coh : Coherent blockSize s current phase dirPhase dmaPhase) {action : MIAction ι κ blockSize}
    (ordered : action.InOrder ∨ ∀ version, (phase version).stale = false) (handled : s.Handled action) :
    Continues blockSize (s.overwritten action) action.kind current phase dirPhase dmaPhase (s.step action) := by
  cases action with
  | load | ifetch | store | replacement => exact coh.processor (by decide) _
  | forwardRequestNetwork version i => exact coh.forward (ordered.imp id fun fresh => fresh version)
  | responseNetwork version i hits => exact coh.response i hits
  | requestQueue version i => exact coh.requestQueue handled
  | dmaRequestQueue version i => exact coh.dmaRequestQueue handled
  | memQueue i => exact coh.memQueue i
  | memory i => exact coh.memoryAnswers i
  | dmaRequest version write offset len data => exact coh.dmaRequest write offset len data
  | dmaResponseQueue version i => exact coh.dmaResponseQueue i

end Coherent

/-! ### Runs -/

namespace MISystem

variable [DecidableEq ι] [DecidableEq κ]

/-- One action after another, with all callbacks, until a controller fails. -/
def run : MISystem ι κ → List (MIAction ι κ blockSize) → Except SliccFailure (MISystem ι κ × List (L1Callback ι))
  | s, [] => .ok (s, [])
  | s, action :: rest => do
    let (next, callbacks) ← s.step action
    let (last, others) ← next.run rest
    .ok (last, callbacks ++ others)

end MISystem

theorem Phase.holds_of_state {phase : Phase ι} {cache : L1Cache} (fits : phase.Cache cache) (state : cache.getState = .M) :
    phase.view.holds = true := by
  obtain idle | ⟨data, fwd, modified⟩ | busy := Phase.cases_state fits
  · rw [idle] at fits
    obtain rfl | ⟨data, rfl⟩ := fits
    · cases state
    · cases state
  · rw [modified]
    rfl
  · rw [state] at busy
    simp at busy

theorem leftBy_append (data : DataBlock) (first second : List (L1Callback ι)) :
    leftBy data (first ++ second) = leftBy (leftBy data first) second := List.foldl_append

namespace Coherent

variable [DecidableEq ι] [DecidableEq κ] {s : MISystem ι κ} {current : DataBlock} {phase : ι → Phase ι}
  {dirPhase : DirectoryPhase ι κ} {dmaPhase : κ → DMAPhase}

theorem handled_of_undisturbed (coh : Coherent blockSize s current phase dirPhase dmaPhase)
    (calm : Undisturbed phase dirPhase dmaPhase) (action : MIAction ι κ blockSize) :
    s.Handled action ∧ s.overwritten action = none := by
  have state := coh.dir.state
  have plain : ¬ s.servesDMA ∧ s.dir.getState ≠ .M_DWR := by
    have plain := calm.dir
    rw [MISystem.servesDMA, state]
    cases dirPhase with
    | idle | fetching | owned => simp [DirectoryPhase.state]
    | writing version back =>
      cases back with
      | evicted => simp [DirectoryPhase.state]
      | read | written => exact plain.elim
    | _ => exact plain.elim
  cases action with
  | requestQueue version i =>
    exact ⟨fun busy => absurd busy plain.1, MISystem.overwritten_request fun found => absurd found plain.2⟩
  | dmaRequestQueue version i =>
    have dma := coh.dmas version
    rw [calm.dmas version] at dma
    have none : (s.dmas version).requestToDir = [] := by rw [dma]
    exact ⟨fun busy => absurd busy plain.1, MISystem.overwritten_dma fun _ message found => by simp [none] at found⟩
  | _ => exact ⟨trivial, rfl⟩

theorem run (coh : Coherent blockSize s current phase dirPhase dmaPhase) (calm : Undisturbed phase dirPhase dmaPhase)
    {actions : List (MIAction ι κ blockSize)} (quiet : ∀ action ∈ actions, action.WithoutDMA) :
    ∃ last callbacks phase' dirPhase' dmaPhase', s.run actions = .ok (last, callbacks) ∧
      Coherent blockSize last (leftBy current callbacks) phase' dirPhase' dmaPhase' ∧ SeesLast current callbacks := by
  induction actions generalizing s current phase dirPhase dmaPhase with
  | nil => exact ⟨s, [], phase, dirPhase, dmaPhase, rfl, coh, trivial⟩
  | cons action rest ih =>
    obtain ⟨handled, unwritten⟩ := coh.handled_of_undisturbed calm action
    obtain ⟨next, callbacks, current', phase', dirPhase', dmaPhase', done, kept, effect⟩ :=
      coh.step (.inr calm.nodes) handled
    have left : current' = leftBy current callbacks := by rw [effect.current, unwritten]; rfl
    have starts : action.kind ≠ .dma := by
      have quiet := quiet action (List.mem_cons_self ..)
      cases action with
      | dmaRequest => exact quiet.elim
      | _ => nofun
    obtain ⟨last, others, phase'', dirPhase'', dmaPhase'', ran, coherent, sees⟩ :=
      ih kept (effect.calm starts calm) fun other member => quiet other (.tail _ member)
    refine ⟨last, callbacks ++ others, phase'', dirPhase'', dmaPhase'', ?_, ?_, ?_⟩
    · rw [MISystem.run, done]
      show (next.run rest >>= _) = _
      rw [ran]
      rfl
    · rw [leftBy_append, ← left]
      exact coherent
    · exact effect.seen.append (left ▸ sees)

end Coherent

namespace MISystem

variable [DecidableEq ι] [DecidableEq κ]

/-- **Without DMA the protocol is coherent.** Whatever the processors ask for, and in whatever order the messages are
delivered, no controller gets an event without a transition and no assertion fails, at most one cache is in the state
`M`, and each callback sees what the last store before it has left, or the initial data of the memory. -/
theorem coherent_without_dma (memory : DataBlock) (actions : List (MIAction ι κ blockSize))
    (quiet : ∀ action ∈ actions, action.WithoutDMA) :
    ∃ s callbacks, (MISystem.init memory : MISystem ι κ).run actions = .ok (s, callbacks) ∧
      (∀ c c', (s.nodes c).cache.getState = .M → (s.nodes c').cache.getState = .M → c = c') ∧
      ∀ before callback after, callbacks = before ++ callback :: after → callback.seen = leftBy memory before := by
  have calm : Undisturbed (fun _ : ι => .idle) (.idle : DirectoryPhase ι κ) fun _ : κ => .ready :=
    ⟨trivial, fun _ => rfl, fun _ => rfl⟩
  obtain ⟨s, callbacks, phase, dirPhase, dmaPhase, ran, coh, sees⟩ := (Coherent.init memory).run calm quiet
  refine ⟨s, callbacks, ran, fun c c' here there => ?_, ?_⟩
  · exact coh.linked.unique c c' (Phase.holds_of_state (coh.nodes c).cache here)
      (Phase.holds_of_state (coh.nodes c').cache there)
  · rintro before callback after rfl
    exact sees.seen_eq

/-- The first cache stores, and passes the line on to the second one, which loads. -/
def handOver : List (MIAction Bool Unit 64) :=
  [.store false fun _ _ => 7, .load true, .requestQueue false 0, .memory 0, .memQueue 0, .requestQueue true 0,
    .forwardRequestNetwork false 0, .responseNetwork false 0 fun _ _ => 7, .replacement false,
    .forwardRequestNetwork false 0, .responseNetwork true 0 id, .requestQueue false 0, .forwardRequestNetwork false 0]

/-- The load sees what has been stored. -/
theorem coherent_without_dma_handOver :
    ((MISystem.init .clear : MISystem Bool Unit).run handOver).toOption.map
        (fun result => result.2.map fun callback => callback.seen 0) = some [0, 7] ∧
      ∃ s callbacks, (MISystem.init .clear : MISystem Bool Unit).run handOver = .ok (s, callbacks) ∧
        (∀ c c', (s.nodes c).cache.getState = .M → (s.nodes c').cache.getState = .M → c = c') ∧
        ∀ before callback after, callbacks = before ++ callback :: after →
          callback.seen = leftBy DataBlock.clear before :=
  ⟨rfl, coherent_without_dma .clear handOver (by simp [handOver, MIAction.WithoutDMA])⟩

end MISystem

/-! ### Which races with DMA the MI protocol handles

* `MISystem.step_unhandled` — a request that the directory has no transition for ends the program.
* `MISystem.handles_races_iff` — with the messages from the directory to a cache in order, **no controller gets an event
  without a transition in a run exactly if every step of it is handled.**
-/

namespace MISystem

variable [DecidableEq ι] [DecidableEq κ] {s : MISystem ι κ}

/-- The system after an action, if no controller fails. -/
def act (s : MISystem ι κ) (action : MIAction ι κ blockSize) : Option (MISystem ι κ) :=
  (s.step action).toOption.map Prod.fst

instance : DecidablePred (s.Handled : MIAction ι κ blockSize → Prop)
  | .requestQueue version i =>
    inferInstanceAs (Decidable (s.servesDMA → ∀ message ∈ (s.nodes version).requestFromCache[i]?,
      message.type = .PUTX → message.requestor ∈ s.dir.owner))
  | .dmaRequestQueue version i =>
    match here : (s.dmas version).requestToDir[i]? with
    | none => isTrue fun _ => here
    | some _ => if busy : s.servesDMA then isFalse fun handled => nomatch here.symm.trans (handled busy)
      else isTrue fun busy' => absurd busy' busy
  | .load .. | .ifetch .. | .store .. | .replacement .. | .forwardRequestNetwork .. | .responseNetwork .. | .memQueue ..
  | .memory .. | .dmaRequest .. | .dmaResponseQueue .. => isTrue trivial

/-! ### Steps -/

theorem runDirectory_invalid {event : DirectoryEvent} {trigger : DirectoryTrigger ι κ}
    {remove : MISystem ι κ → MISystem ι κ} (invalid : Directory.transition s.dir.getState event = none) :
    s.runDirectory blockSize event trigger remove = .error .invalidTransition := by
  rw [runDirectory, Directory.doTransition, invalid]
  rfl

omit [DecidableEq ι] [DecidableEq κ] in
/-- While the directory serves a DMA controller, there is no transition for the writeback of another cache, nor for
another DMA request. -/
theorem invalid_of_servesDMA (busy : s.servesDMA) {event : DirectoryEvent}
    (other : event ∈ [.PUTX_NotOwner, .DMA_READ, .DMA_WRITE]) : Directory.transition s.dir.getState event = none := by
  have table : ∀ state ∈ [DirectoryState.M_DRD, .M_DWR, .M_DRDI, .M_DWRI],
      ∀ event ∈ [DirectoryEvent.PUTX_NotOwner, .DMA_READ, .DMA_WRITE], Directory.transition state event = none := by
    decide
  exact table _ busy _ other

/-- **A request that is not handled.** -/
theorem step_unhandled {action : MIAction ι κ blockSize} (unhandled : ¬ s.Handled action) :
    s.step action = .error .invalidTransition := by
  cases action with
  | requestQueue version i =>
    simp only [Handled, Classical.not_imp, not_forall] at unhandled
    obtain ⟨busy, message, found, putx, other⟩ := unhandled
    rw [step, Option.mem_def.mp found]
    have is : s.dir.requestEvent message = .ok .PUTX_NotOwner := by
      rw [Directory.requestEvent, putx]
      exact congrArg _ (if_neg other)
    show (s.dir.requestEvent message >>= _) = _
    rw [is]
    show (s.runDirectory blockSize _ _ _ >>= _) = _
    rw [runDirectory_invalid (invalid_of_servesDMA busy (by decide))]
    rfl
  | dmaRequestQueue version i =>
    simp only [Handled, Classical.not_imp] at unhandled
    obtain ⟨busy, some⟩ := unhandled
    obtain ⟨message, found⟩ := Option.ne_none_iff_exists'.mp some
    rw [step, found]
    have asks : Directory.dmaEvent message ∈ [.PUTX_NotOwner, .DMA_READ, .DMA_WRITE] := by
      rw [Directory.dmaEvent]
      split <;> decide
    show (s.runDirectory blockSize _ _ _ >>= _) = _
    rw [runDirectory_invalid (invalid_of_servesDMA busy asks)]
    rfl
  | _ => exact absurd trivial unhandled

end MISystem

/-! ### Runs -/

namespace Coherent

variable [DecidableEq ι] [DecidableEq κ] {s : MISystem ι κ} {current : DataBlock} {phase : ι → Phase ι}
  {dirPhase : DirectoryPhase ι κ} {dmaPhase : κ → DMAPhase}

theorem run_iff (coh : Coherent blockSize s current phase dirPhase dmaPhase) {actions : List (MIAction ι κ blockSize)}
    (ordered : ∀ action ∈ actions, action.InOrder) :
    s.run actions ≠ .error .invalidTransition ↔ MeetAll MISystem.act MISystem.Handled s actions := by
  induction actions generalizing s current phase dirPhase dmaPhase with
  | nil => exact ⟨fun _ => trivial, fun _ => nofun⟩
  | cons action rest ih =>
    by_cases handled : s.Handled action
    · obtain ⟨next, callbacks, current', phase', dirPhase', dmaPhase', done, kept, -⟩ :=
        coh.step (.inl (ordered action (List.mem_cons_self ..))) handled
      have onward := ih kept fun other member => ordered other (.tail _ member)
      have acts : MISystem.act s action = some next := by rw [MISystem.act, done]; rfl
      have meets : MeetAll MISystem.act MISystem.Handled s (action :: rest) ↔
          MeetAll MISystem.act MISystem.Handled next rest := by
        rw [MeetAll, acts]
        exact ⟨And.right, And.intro handled⟩
      rw [meets, ← onward, not_iff_not, MISystem.run, done]
      show (next.run rest >>= _) = _ ↔ _
      cases next.run rest with
      | error failure => exact Iff.rfl
      | ok result => exact ⟨nofun, nofun⟩
    · rw [MISystem.run, MISystem.step_unhandled handled]
      exact ⟨fun valid => absurd rfl valid, fun all => absurd all.1 handled⟩

end Coherent

namespace MISystem

variable [DecidableEq ι] [DecidableEq κ]

/-- **Every race is handled exactly if the directory gets no other DMA request and no writeback of a former owner while it
serves a DMA controller.** -/
theorem handles_races_iff (memory : DataBlock) (actions : List (MIAction ι κ blockSize))
    (ordered : ∀ action ∈ actions, action.InOrder) :
    (MISystem.init memory : MISystem ι κ).run actions ≠ .error .invalidTransition ↔
      MeetAll act Handled (MISystem.init memory : MISystem ι κ) actions :=
  (Coherent.init memory).run_iff ordered

/-- The first cache becomes the owner. -/
def ownLine : List (MIAction Bool Bool 64) :=
  [.load false, .requestQueue false 0, .memory 0, .memQueue 0, .responseNetwork false 0 id]

/-- A DMA controller reads the line that the first cache owns. -/
def readOwned : List (MIAction Bool Bool 64) :=
  ownLine ++ [.dmaRequest false false 0 8 [], .dmaRequestQueue false 0, .forwardRequestNetwork false 0,
    .requestQueue false 0, .memory 0, .memQueue 0, .dmaResponseQueue false 0]

theorem handles_races_iff_readOwned :
    (MISystem.init .clear : MISystem Bool Bool).run readOwned ≠ .error .invalidTransition :=
  (handles_races_iff .clear readOwned (by simp [readOwned, ownLine, MIAction.InOrder])).mpr (by decide)

/-- Both DMA controllers read it. -/
def readTwice : List (MIAction Bool Bool 64) :=
  ownLine ++ [.dmaRequest false false 0 8 [], .dmaRequest true false 0 8 [], .dmaRequestQueue false 0,
    .dmaRequestQueue true 0]

/-- The second cache becomes the owner while the first one writes the line back, and a DMA controller reads it. -/
def readPassedOn : List (MIAction Bool Bool 64) :=
  ownLine ++ [.load true, .requestQueue true 0, .replacement false, .dmaRequest false false 0 8 [],
    .dmaRequestQueue false 0, .requestQueue false 0]

/-- Neither the second DMA request nor the writeback of the former owner has a transition. -/
theorem races_not_handled :
    ((∀ action ∈ readTwice, action.InOrder) ∧
        (MISystem.init .clear : MISystem Bool Bool).run readTwice = .error .invalidTransition) ∧
      (∀ action ∈ readPassedOn, action.InOrder) ∧
        (MISystem.init .clear : MISystem Bool Bool).run readPassedOn = .error .invalidTransition :=
  ⟨⟨by simp [readTwice, ownLine, MIAction.InOrder], rfl⟩, by simp [readPassedOn, ownLine, MIAction.InOrder], rfl⟩

end MISystem

end Emas.Ruby

/-
**The invariant of the MI protocol.**

* `Coherent.setNode`, `Coherent.store`, `Coherent.pass` — a cache goes into another phase, stores, passes the data on.
-/

import Emas.Ruby.MIPhases

namespace Emas.Ruby

variable {ι κ : Type}

/-- **The system is in these phases, and the data of the line is current** wherever it is. -/
structure Coherent (blockSize : Nat) (s : MISystem ι κ) (current : DataBlock) (phase : ι → Phase ι)
    (dirPhase : DirectoryPhase ι κ) (dmaPhase : κ → DMAPhase) : Prop where
  nodes : ∀ version, (phase version).Holds version (s.nodes version)
  linked : Linked (fun version => (phase version).view) dirPhase.role
  copies : ∀ version data, (phase version).data? = some data → data = current
  dir : dirPhase.Directory blockSize s.dir
  memory : dirPhase.Memory current s
  dmas : ∀ version, (dmaPhase version).Holds blockSize version (s.dmas version)
  serves : ∀ version write, dirPhase.serves = some (version, write) → dmaPhase version = .served write

/-! ### Steps -/

/-- What a callback sees. -/
def L1Callback.seen : L1Callback ι → DataBlock
  | .load _ seen => seen
  | .store _ seen _ => seen

/-- What a callback makes of the line. -/
def L1Callback.left (data : DataBlock) : L1Callback ι → DataBlock
  | .load _ _ => data
  | .store _ _ written => written

/-- What the last store of some callbacks has left of the line. -/
def leftBy (data : DataBlock) (callbacks : List (L1Callback ι)) : DataBlock := callbacks.foldl L1Callback.left data

/-- Each callback sees what the last store before it has left, or the data at the start. -/
def SeesLast : DataBlock → List (L1Callback ι) → Prop
  | _, [] => True
  | data, callback :: rest => callback.seen = data ∧ SeesLast (callback.left data) rest

namespace SeesLast

variable {data : DataBlock}

theorem append {first second : List (L1Callback ι)} (before : SeesLast data first)
    (after : SeesLast (leftBy data first) second) : SeesLast data (first ++ second) := by
  induction first generalizing data with
  | nil => exact after
  | cons callback rest ih => exact ⟨before.1, ih before.2 after⟩

theorem seen_eq {before after : List (L1Callback ι)} {callback : L1Callback ι}
    (sees : SeesLast data (before ++ callback :: after)) : callback.seen = leftBy data before := by
  induction before generalizing data with
  | nil => exact sees.1
  | cons first rest ih => exact ih sees.2

theorem of_unchanged {callbacks : List (L1Callback ι)}
    (each : ∀ callback ∈ callbacks, callback.seen = data ∧ callback.left data = data) :
    SeesLast data callbacks ∧ leftBy data callbacks = data := by
  induction callbacks with
  | nil => exact ⟨trivial, rfl⟩
  | cons callback rest ih =>
    obtain ⟨seen, left⟩ := each callback (List.mem_cons_self ..)
    obtain ⟨sees, stays⟩ := ih fun other member => each other (.tail _ member)
    refine ⟨⟨seen, left.symm ▸ sees⟩, ?_⟩
    show leftBy (callback.left data) rest = data
    rw [left, stays]

end SeesLast

/-- No DMA controller has a request, the directory serves none, and nothing of one is left. -/
structure Undisturbed (phase : ι → Phase ι) (dirPhase : DirectoryPhase ι κ) (dmaPhase : κ → DMAPhase) : Prop where
  dir : dirPhase.Plain
  dmas : ∀ version, dmaPhase version = .ready
  nodes : ∀ version, (phase version).stale = false

/-- The directory gets a request, a DMA sequencer has one, or another step. -/
inductive StepKind where
  | request | dma | other

/-- What a step does, with the data that a DMA controller writes by it, if one does: its callbacks see the current data,
and without DMA the data that they leave is the current one; unless the directory takes a request, it is done with a write
of a DMA controller before anything else. -/
structure Effect (written : Option DataBlock) (kind : StepKind) (current : DataBlock) (phase : ι → Phase ι)
    (dirPhase : DirectoryPhase ι κ) (dmaPhase : κ → DMAPhase) (callbacks : List (L1Callback ι)) (current' : DataBlock)
    (phase' : ι → Phase ι) (dirPhase' : DirectoryPhase ι κ) (dmaPhase' : κ → DMAPhase) : Prop where
  seen : SeesLast current callbacks
  owned : callbacks ≠ [] → dirPhase.role.owner? ≠ none
  current : current' = written.getD (leftBy current callbacks)
  calm : kind ≠ .dma → Undisturbed phase dirPhase dmaPhase → Undisturbed phase' dirPhase' dmaPhase'
  takes : written ≠ none → dirPhase'.Settling
  settles : dirPhase.Settling → (kind = .request → dirPhase ≠ .idle) → dirPhase'.Settling

/-- **A step succeeds, and leaves the system coherent.** -/
def Continues (blockSize : Nat) (written : Option DataBlock) (kind : StepKind) (current : DataBlock)
    (phase : ι → Phase ι) (dirPhase : DirectoryPhase ι κ) (dmaPhase : κ → DMAPhase)
    (result : Except SliccFailure (MISystem ι κ × List (L1Callback ι))) : Prop :=
  ∃ s callbacks current' phase' dirPhase' dmaPhase', result = .ok (s, callbacks) ∧
    Coherent blockSize s current' phase' dirPhase' dmaPhase' ∧
    Effect written kind current phase dirPhase dmaPhase callbacks current' phase' dirPhase' dmaPhase'

/-- A step that writes nothing, without a callback. -/
theorem Effect.quiet {kind : StepKind} {current : DataBlock} {phase phase' : ι → Phase ι}
    {dirPhase dirPhase' : DirectoryPhase ι κ} {dmaPhase dmaPhase' : κ → DMAPhase}
    (calm : kind ≠ .dma → Undisturbed phase dirPhase dmaPhase → Undisturbed phase' dirPhase' dmaPhase')
    (settles : dirPhase.Settling → (kind = .request → dirPhase ≠ .idle) → dirPhase'.Settling) :
    Effect none kind current phase dirPhase dmaPhase [] current phase' dirPhase' dmaPhase' where
  seen := trivial
  owned := absurd rfl
  current := rfl
  calm := calm
  takes := absurd rfl
  settles := settles

/-- An action in a coherent system succeeds, and leaves it coherent. -/
abbrev Coherent.Goes [DecidableEq ι] [DecidableEq κ] {blockSize : Nat} {s : MISystem ι κ} {current : DataBlock}
    {phase : ι → Phase ι} {dirPhase : DirectoryPhase ι κ} {dmaPhase : κ → DMAPhase}
    (_ : Coherent blockSize s current phase dirPhase dmaPhase) (written : Option DataBlock) (kind : StepKind)
    (action : MIAction ι κ blockSize) : Prop :=
  Continues blockSize written kind current phase dirPhase dmaPhase (s.step action)

namespace Coherent

variable {blockSize : Nat} {s : MISystem ι κ} {current data : DataBlock} {phase : ι → Phase ι}
  {dirPhase : DirectoryPhase ι κ} {dmaPhase : κ → DMAPhase} {c r : ι} {node : L1Node ι κ} {p : Phase ι} {kind : StepKind}
  {result : Except SliccFailure (MISystem ι κ × List (L1Callback ι))}

theorem init [DecidableEq ι] (memory : DataBlock) :
    Coherent blockSize (MISystem.init memory : MISystem ι κ) memory (fun _ => .idle) .idle fun _ => .ready where
  nodes _ := ⟨.inl rfl, rfl, rfl, rfl⟩
  linked := Linked.init
  copies _ _ held := nomatch held
  dir := rfl
  memory := ⟨rfl, rfl, rfl⟩
  dmas _ := rfl
  serves _ _ serves := nomatch serves

theorem stay (coh : Coherent blockSize s current phase dirPhase dmaPhase) (done : result = .ok (s, [])) :
    Continues blockSize none kind current phase dirPhase dmaPhase result :=
  ⟨s, [], current, phase, dirPhase, dmaPhase, done, coh, (.quiet (fun _ calm => calm) fun settling _ => settling)⟩

theorem no_copies {role : LinkRole ι} (linked : Linked (fun version => (phase version).view) role)
    (free : role.owner? = none) (version : ι) (copy : DataBlock) (found : (phase version).data? = some copy) :
    copy = data := by
  have holds : (phase version).view.holds = true := by rw [Phase.holds_eq, found]; rfl
  exact absurd free (linked.owned version holds)

/-! ### One cache changes -/

section Update

variable [DecidableEq ι]

theorem holds_update {nodes : ι → L1Node ι κ} (all : ∀ version, (phase version).Holds version (nodes version))
    (holds : p.Holds c node) (version : ι) :
    (Function.update phase c p version).Holds version (Function.update nodes c node version) := by
  rw [Function.update_apply, Function.update_apply]
  split
  next same => exact same ▸ holds
  · exact all version

theorem view_update (phase : ι → Phase ι) (c : ι) (p : Phase ι) :
    (fun version => (Function.update phase c p version).view) =
      Function.update (fun version => (phase version).view) c p.view := by
  funext version
  rw [Function.update_apply, Function.update_apply]
  split
  · rfl
  · rfl

theorem copies_update (copies : ∀ version data, (phase version).data? = some data → data = current)
    (held : ∀ data, p.data? = some data → data = current) (version : ι) (data : DataBlock)
    (copy : (Function.update phase c p version).data? = some data) : data = current := by
  rw [Function.update_apply] at copy
  split at copy
  · exact held data copy
  · exact copies version data copy

theorem stale_update (none : ∀ version, (phase version).stale = false) (fresh : p.stale = false) (version : ι) :
    (Function.update phase c p version).stale = false := by
  rw [Function.update_apply]
  split
  · exact fresh
  · exact none version

theorem setNode (coh : Coherent blockSize s current phase dirPhase dmaPhase) (holds : p.Holds c node)
    (held : ∀ data, p.data? = some data → data = current)
    (linked : Linked (Function.update (fun version => (phase version).view) c p.view) dirPhase.role) :
    Coherent blockSize (s.setNode c node) current (Function.update phase c p) dirPhase dmaPhase where
  nodes := holds_update coh.nodes holds
  linked := view_update phase c p ▸ linked
  copies := copies_update coh.copies held
  dir := coh.dir
  memory := coh.memory
  dmas := coh.dmas
  serves := coh.serves

theorem linked_same (coh : Coherent blockSize s current phase dirPhase dmaPhase) (same : p.view = (phase c).view) :
    Linked (Function.update (fun version => (phase version).view) c p.view) dirPhase.role := by
  rw [same, Function.update_eq_self c fun version => (phase version).view]
  exact coh.linked

theorem store (coh : Coherent blockSize s current phase dirPhase dmaPhase) (holds : p.Holds c node)
    (held : (phase c).view.holds) (same : p.view = (phase c).view) (left : ∀ copy, p.data? = some copy → copy = data) :
    Coherent blockSize (s.setNode c node) data (Function.update phase c p) dirPhase dmaPhase where
  nodes := holds_update coh.nodes holds
  linked := view_update phase c p ▸ coh.linked_same same
  copies version copy found := by
    rw [Function.update_apply] at found
    split at found
    · exact left copy found
    · next other =>
      have holds : (phase version).view.holds = true := by rw [Phase.holds_eq, found]; rfl
      exact absurd (coh.linked.unique version c holds held) other
  dir := coh.dir
  memory := by
    have owned := coh.linked.owned c held
    have memory := coh.memory
    cases dirPhase with
    | owned | invalidating => exact memory
    | _ => exact absurd rfl owned
  dmas := coh.dmas
  serves := coh.serves

theorem pass (coh : Coherent blockSize s current phase dirPhase dmaPhase) (holds : p.Holds c node)
    (held : (phase c).view.holds) (next : (phase c).view.next = some r) (out : p.view = .out) (gone : p.data? = none) :
    ∃ sent fwd, (s.setNode c node).sendResponse (.l1Cache r, ⟨current⟩) = .ok sent ∧
      Coherent blockSize sent current (Function.update (Function.update phase c p) r (.granted current fwd)) dirPhase
        dmaPhase := by
  obtain ⟨fwd, waiting⟩ := Phase.waiting_of_view (coh.linked.waits c r next)
  have other : r ≠ c := by
    rintro rfl
    rw [waiting] at held
    exact absurd held Bool.false_ne_true
  have waiter := coh.nodes r
  rw [waiting] at waiter
  have granted : (Phase.granted current fwd).Holds r { s.nodes r with responseToCache := [⟨current⟩] } :=
    ⟨waiter.cache, waiter.requests, waiter.forwards, rfl⟩
  refine ⟨(s.setNode c node).setNode r { s.nodes r with responseToCache := [⟨current⟩] }, fwd, ?_, ?_⟩
  · have before : (s.setNode c node).nodes r = s.nodes r := Function.update_of_ne other ..
    rw [MISystem.sendResponse, before, waiter.responses]
    rfl
  · have linked := coh.linked.pass held next
    rw [waiting, ← out] at linked
    exact
      { nodes := holds_update (holds_update coh.nodes holds) granted
        linked := by rw [view_update, view_update]; exact linked
        copies := copies_update (copies_update coh.copies fun data found => absurd (gone.symm.trans found) nofun)
          fun data found => (Option.some.inj found).symm
        dir := coh.dir
        memory := coh.memory
        dmas := coh.dmas
        serves := coh.serves }

end Update

theorem dmas_update [DecidableEq κ] {dmas : κ → DMANode ι κ} {q : DMAPhase} {k : κ} {dma : DMANode ι κ}
    (all : ∀ version, (dmaPhase version).Holds blockSize version (dmas version)) (holds : q.Holds blockSize k dma)
    (version : κ) :
    (Function.update dmaPhase k q version).Holds blockSize version (Function.update dmas k dma version) := by
  rw [Function.update_apply, Function.update_apply]
  split
  next same => exact same ▸ holds
  · exact all version

end Coherent

end Emas.Ruby

/-
**The steps of a cache of the MI protocol.**
-/

import Emas.Ruby.MIInvariant

namespace Emas.Ruby

variable {ι κ : Type}

/-! ### Transitions that stall -/

namespace L1Cache

variable {c : ι} {trigger : L1Trigger ι κ} {event : L1Event} {cache : L1Cache}

theorem transition_processor : ∀ state ∈ [.IS, .IM, .MI, .II, .MII], ∀ event ∈ [.Load, .Ifetch, .Store, .Replacement],
    transition state event = some ([.stall], state) := by decide

theorem transition_forward : ∀ state ∈ [.IS, .IM], ∀ event ∈ [.Fwd_GETX, .Inv],
    transition state event = some ([.stall], state) := by decide

theorem stall (stalls : transition cache.getState event = some ([.stall], cache.getState)) :
    cache.doTransition c trigger event = .ok ⟨cache, [], [], [], false⟩ := by
  rw [doTransition, stalls]
  rfl

end L1Cache

/-- The cache with its buffers after a transition without a response. -/
def L1Node.after (node : L1Node ι κ) (ctx : L1Context ι κ) (remove : L1Node ι κ → L1Node ι κ) : L1Node ι κ :=
  let taken := if ctx.popped then remove node else node
  { taken with cache := ctx.cache, requestFromCache := taken.requestFromCache ++ ctx.requests }

variable {cache : L1Cache}

namespace Phase

theorem pending_state (pending : Pending cache) : cache.getState ∈ [.IS, .IM] := by
  obtain ⟨state, data, old, rfl | rfl, rfl⟩ := pending
  · simp [L1Cache.getState]
  · simp [L1Cache.getState]

theorem cases_state {phase : Phase ι} (fits : phase.Cache cache) :
    phase = .idle ∨ (∃ data fwd, phase = .modified data fwd) ∨ cache.getState ∈ [.IS, .IM, .MI, .II, .MII] := by
  cases phase with
  | idle => exact .inl rfl
  | modified data fwd => exact .inr (.inl ⟨data, fwd, rfl⟩)
  | asking | fetching | waiting | granted =>
    exact .inr (.inr (List.mem_of_mem_take (i := 2) (pending_state fits)))
  | evicting data fwd => exact .inr (.inr (by rw [fits]; simp [L1Cache.getState]))
  | refused nack data next => exact .inr (.inr (by rw [fits]; cases nack <;> simp [L1Cache.getState]))
  | passed | rejected | writing | acked =>
    obtain ⟨data, rfl⟩ := fits
    exact .inr (.inr (by simp [L1Cache.getState]))

end Phase

namespace MISystem

variable [DecidableEq ι] {s : MISystem ι κ} {c : ι} {event : L1Event} {trigger : L1Trigger ι κ}
  {remove : L1Node ι κ → L1Node ι κ} {ctx : L1Context ι κ}

theorem runCache_ok (done : (s.nodes c).cache.doTransition c trigger event = .ok ctx) :
    s.runCache c event trigger remove =
      ctx.responses.foldlM sendResponse (s.setNode c ((s.nodes c).after ctx remove)) >>= fun sent =>
        .ok (sent, ctx.callbacks) := by
  rw [runCache, done]
  rfl

theorem runCache_stall (done : (s.nodes c).cache.doTransition c trigger event = .ok ⟨(s.nodes c).cache, [], [], [], false⟩) :
    s.runCache c event trigger remove = .ok (s, []) := by
  rw [runCache_ok done]
  have same : (s.nodes c).after ⟨(s.nodes c).cache, [], [], [], false⟩ remove = s.nodes c := by
    simp [L1Node.after]
  rw [same, setNode, Function.update_eq_self]
  rfl

end MISystem

namespace Coherent

variable [DecidableEq ι] {blockSize : Nat} {s : MISystem ι κ} {current : DataBlock} {phase : ι → Phase ι}
  {dirPhase : DirectoryPhase ι κ} {dmaPhase : κ → DMAPhase} {c r : ι} {p : Phase ι} {event : L1Event}
  {trigger : L1Trigger ι κ} {remove : L1Node ι κ → L1Node ι κ} {ctx : L1Context ι κ} {kind : StepKind}

/-- **A transition without a response**, which does not change the data. -/
theorem runCache (coh : Coherent blockSize s current phase dirPhase dmaPhase)
    (done : (s.nodes c).cache.doTransition c trigger event = .ok ctx) (silent : ctx.responses = [])
    (holds : p.Holds c ((s.nodes c).after ctx remove)) (held : ∀ data, p.data? = some data → data = current)
    (linked : Linked (Function.update (fun version => (phase version).view) c p.view) dirPhase.role)
    (called : ∀ callback ∈ ctx.callbacks, callback.seen = current ∧ callback.left current = current)
    (owned : ctx.callbacks ≠ [] → (phase c).view.holds)
    (stale : p.stale = true → (phase c).stale = true) :
    Continues blockSize none kind current phase dirPhase dmaPhase (s.runCache c event trigger remove) := by
  refine ⟨s.setNode c ((s.nodes c).after ctx remove), ctx.callbacks, current, _, dirPhase, dmaPhase, ?_,
    coh.setNode holds held linked, ?_⟩
  · rw [MISystem.runCache_ok done, silent]
    rfl
  · exact
      { seen := (SeesLast.of_unchanged called).1
        owned := fun some => coh.linked.owned c (owned some)
        current := (SeesLast.of_unchanged called).2.symm
        calm := fun _ calm => ⟨calm.dir, calm.dmas, stale_update calm.nodes
          (Bool.eq_false_iff.mpr fun left => absurd (stale left) (by simp [calm.nodes c]))⟩
        takes := fun taken => absurd rfl taken
        settles := fun settling _ => settling }

/-- **A store.** -/
theorem runCache_store (coh : Coherent blockSize s current phase dirPhase dmaPhase) {written : DataBlock}
    (done : (s.nodes c).cache.doTransition c trigger event = .ok ctx) (silent : ctx.responses = [])
    (holds : p.Holds c ((s.nodes c).after ctx remove)) (held : (phase c).view.holds)
    (same : p.view = (phase c).view) (left : ∀ copy, p.data? = some copy → copy = written)
    (called : ctx.callbacks = [.store c current written]) (fresh : p.stale = false) :
    Continues blockSize none kind current phase dirPhase dmaPhase (s.runCache c event trigger remove) := by
  refine ⟨s.setNode c ((s.nodes c).after ctx remove), ctx.callbacks, written, _, dirPhase, dmaPhase, ?_,
    coh.store holds held same left, ?_⟩
  · rw [MISystem.runCache_ok done, silent]
    rfl
  · rw [called]
    exact
      { seen := ⟨rfl, trivial⟩
        owned := fun _ => coh.linked.owned c held
        current := rfl
        calm := fun _ calm => ⟨calm.dir, calm.dmas, stale_update calm.nodes fresh⟩
        takes := fun taken => absurd rfl taken
        settles := fun settling _ => settling }

/-- **A transition with a response.** -/
theorem runCache_pass (coh : Coherent blockSize s current phase dirPhase dmaPhase)
    (done : (s.nodes c).cache.doTransition c trigger event = .ok ctx)
    (sends : ctx.responses = [(.l1Cache r, ⟨current⟩)]) (quiet : ctx.callbacks = [])
    (holds : p.Holds c ((s.nodes c).after ctx remove)) (held : (phase c).view.holds)
    (next : (phase c).view.next = some r) (out : p.view = .out) (gone : p.data? = none) (fresh : p.stale = false) :
    Continues blockSize none kind current phase dirPhase dmaPhase (s.runCache c event trigger remove) := by
  obtain ⟨sent, fwd, passed, coherent⟩ := coh.pass holds held next out gone
  refine ⟨sent, [], current, _, dirPhase, dmaPhase, ?_, coherent, ?_⟩
  · rw [MISystem.runCache_ok done, sends, quiet, List.foldlM_cons, passed]
    rfl
  · exact .quiet (fun _ calm => ⟨calm.dir, calm.dmas, stale_update (stale_update calm.nodes fresh) rfl⟩)
      fun settling _ => settling

/-! ### Requests of the processor -/

omit [DecidableEq ι] in
theorem request_ok (trigger : L1Trigger ι κ) (idle : (Phase.idle : Phase ι).Cache cache)
    (asks : event ∈ [.Load, .Ifetch, .Store]) :
    ∃ asked, Phase.Pending asked ∧ cache.doTransition c trigger event = .ok ⟨asked, [.getx c], [], [], true⟩ := by
  obtain rfl | ⟨data, rfl⟩ := idle
  · cases event with
    | Load | Ifetch => exact ⟨_, ⟨.IS, .clear, .clear, .inl rfl, rfl⟩, rfl⟩
    | Store => exact ⟨_, ⟨.IM, .clear, .clear, .inr rfl, rfl⟩, rfl⟩
    | _ => simp at asks
  · cases event with
    | Load | Ifetch => exact ⟨_, ⟨.IS, data, .clear, .inl rfl, rfl⟩, rfl⟩
    | Store => exact ⟨_, ⟨.IM, data, .clear, .inr rfl, rfl⟩, rfl⟩
    | _ => simp at asks

theorem processor_idle (coh : Coherent blockSize s current phase dirPhase dmaPhase) (idle : phase c = .idle)
    (asks : event ∈ [.Load, .Ifetch, .Store, .Replacement]) (hits : DataBlock → DataBlock) :
    Continues blockSize none kind current phase dirPhase dmaPhase (s.processor c event hits) := by
  have node := coh.nodes c
  rw [idle] at node
  have view : (Phase.idle : Phase ι).view = (phase c).view := by rw [idle]
  by_cases replaced : event = .Replacement
  · subst replaced
    have done : (s.nodes c).cache.doTransition c (⟨none, none, hits⟩ : L1Trigger ι κ) .Replacement =
        .ok ⟨⟨none, none⟩, [], [], [], false⟩ := by
      obtain empty | ⟨data, invalid⟩ := node.cache
      · rw [empty]
        rfl
      · rw [invalid]
        rfl
    refine coh.runCache (p := .idle) done rfl ⟨.inl rfl, ?_, node.forwards, node.responses⟩ nofun
      (coh.linked_same view) nofun (absurd rfl) nofun
    simp [L1Node.after, node.requests]
  · have asks : event ∈ [.Load, .Ifetch, .Store] := by
      cases event <;> first | decide | exact absurd rfl replaced | exact absurd asks (by decide)
    obtain ⟨asked, pending, done⟩ := request_ok (⟨none, none, hits⟩ : L1Trigger ι κ) node.cache asks
    refine coh.runCache (p := .asking) done rfl ⟨pending, ?_, node.forwards, node.responses⟩ nofun
      (coh.linked_same view) nofun (absurd rfl) nofun
    simp [L1Node.after, node.requests, Phase.requests]

variable {data : DataBlock} {fwd : Forwarded ι}

theorem processor_modified (coh : Coherent blockSize s current phase dirPhase dmaPhase)
    (modified : phase c = .modified data fwd)
    (asks : event ∈ [.Load, .Ifetch, .Store, .Replacement]) (hits : DataBlock → DataBlock) :
    Continues blockSize none kind current phase dirPhase dmaPhase (s.processor c event hits) := by
  have node := coh.nodes c
  rw [modified] at node
  have cache : (s.nodes c).cache = ⟨some ⟨.M, data⟩, none⟩ := node.cache
  have view : (Phase.modified data fwd).view = (phase c).view := by rw [modified]
  obtain rfl : data = current := coh.copies c data (by rw [modified]; rfl)
  have held : (phase c).view.holds := by rw [modified]; rfl
  by_cases loads : event = .Load ∨ event = .Ifetch
  · have done : (s.nodes c).cache.doTransition c (⟨none, none, hits⟩ : L1Trigger ι κ) event =
        .ok ⟨⟨some ⟨.M, data⟩, none⟩, [], [], [.load c data], true⟩ := by
      rw [cache]
      obtain rfl | rfl := loads
      · rfl
      · rfl
    refine coh.runCache (p := .modified data fwd) done rfl ⟨rfl, ?_, node.forwards, node.responses⟩
      (fun _ same => (Option.some.inj same).symm) (coh.linked_same view) ?_ (fun _ => held) nofun
    · simp [L1Node.after, node.requests]
    · rintro callback member
      rw [List.mem_singleton.mp member]
      exact ⟨rfl, rfl⟩
  · cases event with
    | Store =>
      have done : (s.nodes c).cache.doTransition c (⟨none, none, hits⟩ : L1Trigger ι κ) .Store =
          .ok ⟨⟨some ⟨.M, hits data⟩, none⟩, [], [], [.store c data (hits data)], true⟩ := by rw [cache]; rfl
      refine coh.runCache_store (p := .modified (hits data) fwd) done rfl ⟨rfl, ?_, node.forwards, node.responses⟩ held
        view (fun _ same => (Option.some.inj same).symm) rfl rfl
      simp [L1Node.after, node.requests, Phase.requests]
    | Replacement =>
      have done : (s.nodes c).cache.doTransition c (⟨none, none, hits⟩ : L1Trigger ι κ) .Replacement =
          .ok ⟨⟨none, some ⟨.MI, data⟩⟩, [.putx c data], [], [], false⟩ := by rw [cache]; rfl
      refine coh.runCache (p := .evicting data fwd) done rfl ⟨rfl, ?_, node.forwards, node.responses⟩
        (fun _ same => (Option.some.inj same).symm) (coh.linked_same view) nofun (absurd rfl) nofun
      simp [L1Node.after, node.requests, Phase.requests]
    | _ => simp at asks loads

/-- **A request of the processor.** -/
theorem processor (coh : Coherent blockSize s current phase dirPhase dmaPhase)
    (asks : event ∈ [.Load, .Ifetch, .Store, .Replacement]) (hits : DataBlock → DataBlock) :
    Continues blockSize none kind current phase dirPhase dmaPhase (s.processor c event hits) := by
  obtain idle | ⟨data, fwd, modified⟩ | busy := Phase.cases_state (coh.nodes c).cache
  · exact coh.processor_idle idle asks hits
  · exact coh.processor_modified modified asks hits
  · exact coh.stay (MISystem.runCache_stall (L1Cache.stall (L1Cache.transition_processor _ busy _ asks)))

/-! ### Messages of the forward network -/

section Forward

variable [DecidableEq κ] {message : RequestMsg ι κ}

theorem forward_none (coh : Coherent blockSize s current phase dirPhase dmaPhase) {i : Nat}
    (none : (s.nodes c).forwardToCache[i]? = none) : coh.Goes .none kind (.forwardRequestNetwork c i) :=
  coh.stay (by rw [MISystem.step, none])

theorem forward_some (coh : Coherent blockSize s current phase dirPhase dmaPhase) {i : Nat} (message : RequestMsg ι κ) (found : (s.nodes c).forwardToCache[i]? = some message)
    (is : MISystem.forwardEvent message = .ok event)
    (taken : Continues blockSize none kind current phase dirPhase dmaPhase
      (s.runCache c event ⟨some message, none, id⟩ fun node =>
        { node with forwardToCache := node.forwardToCache.eraseIdx i })) :
    coh.Goes none kind (.forwardRequestNetwork c i) := by
  rw [Goes, MISystem.step, found]
  show Continues _ _ _ _ _ _ _ (MISystem.forwardEvent message >>= _)
  rw [is]
  exact taken

theorem forward_single (coh : Coherent blockSize s current phase dirPhase dmaPhase)
    (messages : (s.nodes c).forwardToCache = [message]) (is : MISystem.forwardEvent message = .ok event)
    (taken : Continues blockSize none kind current phase dirPhase dmaPhase
      (s.runCache c event ⟨some message, none, id⟩ fun node =>
        { node with forwardToCache := node.forwardToCache.eraseIdx 0 })) (i : Nat) :
    coh.Goes none kind (.forwardRequestNetwork c i) := by
  cases i with
  | zero => exact coh.forward_some message (by rw [messages]; rfl) is taken
  | succ i => exact coh.forward_none (by rw [messages]; rfl)

theorem forward_pending (coh : Coherent blockSize s current phase dirPhase dmaPhase)
    (pending : Phase.Pending (s.nodes c).cache) (messages : (s.nodes c).forwardToCache = fwd.messages) (i : Nat) :
    coh.Goes none kind (.forwardRequestNetwork c i) := by
  have busy := Phase.pending_state pending
  cases fwd with
  | nothing => exact coh.forward_none (by rw [messages]; rfl)
  | invalidation =>
    exact coh.forward_single messages rfl
      (coh.stay (MISystem.runCache_stall (L1Cache.stall (L1Cache.transition_forward _ busy _ (by decide))))) i
  | request next =>
    exact coh.forward_single messages rfl
      (coh.stay (MISystem.runCache_stall (L1Cache.stall (L1Cache.transition_forward _ busy _ (by decide))))) i

theorem forward_modified (coh : Coherent blockSize s current phase dirPhase dmaPhase)
    (modified : phase c = .modified data fwd) (i : Nat) : coh.Goes none kind (.forwardRequestNetwork c i) := by
  have node := coh.nodes c
  rw [modified] at node
  have cache : (s.nodes c).cache = ⟨some ⟨.M, data⟩, none⟩ := node.cache
  obtain rfl : data = current := coh.copies c data (by rw [modified]; rfl)
  have held : (phase c).view.holds := by rw [modified]; rfl
  have messages : (s.nodes c).forwardToCache = fwd.messages := node.forwards
  cases fwd with
  | nothing => exact coh.forward_none (by rw [messages]; rfl)
  | invalidation =>
    refine coh.forward_single messages rfl ?_ i
    have done : (s.nodes c).cache.doTransition c (⟨some .inv, none, id⟩ : L1Trigger ι κ) .Inv =
        .ok ⟨⟨none, some ⟨.MI, data⟩⟩, [.putx c data], [], [], false⟩ := by rw [cache]; rfl
    refine coh.runCache (p := .evicting data .invalidation) done rfl ⟨rfl, ?_, node.forwards, node.responses⟩
      (fun _ same => (Option.some.inj same).symm) (coh.linked_same (by rw [modified]; rfl)) nofun (absurd rfl) nofun
    simp [L1Node.after, node.requests, Phase.requests]
  | request next =>
    refine coh.forward_single messages rfl ?_ i
    have done : (s.nodes c).cache.doTransition c (⟨some (.getx next), none, id⟩ : L1Trigger ι κ) .Fwd_GETX =
        .ok ⟨⟨some ⟨.I, data⟩, none⟩, [], [(.l1Cache next, ⟨data⟩)], [], true⟩ := by rw [cache]; rfl
    refine coh.runCache_pass (p := .idle) done rfl rfl ⟨.inr ⟨data, rfl⟩, ?_, ?_, node.responses⟩ held
      (by rw [modified]; rfl) rfl rfl rfl
    · simp [L1Node.after, node.requests, Phase.requests]
    · simp [L1Node.after, messages, Forwarded.messages, Phase.forwards]

theorem forward_evicting (coh : Coherent blockSize s current phase dirPhase dmaPhase)
    (evicting : phase c = .evicting data fwd) (i : Nat) : coh.Goes none kind (.forwardRequestNetwork c i) := by
  have node := coh.nodes c
  rw [evicting] at node
  have cache : (s.nodes c).cache = ⟨none, some ⟨.MI, data⟩⟩ := node.cache
  obtain rfl : data = current := coh.copies c data (by rw [evicting]; rfl)
  have held : (phase c).view.holds := by rw [evicting]; rfl
  have messages : (s.nodes c).forwardToCache = fwd.messages := node.forwards
  cases fwd with
  | nothing => exact coh.forward_none (by rw [messages]; rfl)
  | invalidation =>
    refine coh.forward_single messages rfl ?_ i
    have done : (s.nodes c).cache.doTransition c (⟨some .inv, none, id⟩ : L1Trigger ι κ) .Inv =
        .ok ⟨⟨none, some ⟨.MI, data⟩⟩, [], [], [], true⟩ := by rw [cache]; rfl
    refine coh.runCache (p := .evicting data .nothing) done rfl ⟨rfl, ?_, ?_, node.responses⟩
      (fun _ same => (Option.some.inj same).symm) ?_ nofun (absurd rfl) nofun
    · simp [L1Node.after, node.requests, Phase.requests]
    · simp [L1Node.after, messages, Forwarded.messages, Phase.forwards]
    · have linked := coh.linked.clear c
      rw [evicting] at linked
      exact linked
  | request next =>
    refine coh.forward_single messages rfl ?_ i
    have done : (s.nodes c).cache.doTransition c (⟨some (.getx next), none, id⟩ : L1Trigger ι κ) .Fwd_GETX =
        .ok ⟨⟨none, some ⟨.II, data⟩⟩, [], [(.l1Cache next, ⟨data⟩)], [], true⟩ := by rw [cache]; rfl
    refine coh.runCache_pass (p := .passed data) done rfl rfl ⟨⟨data, rfl⟩, ?_, ?_, node.responses⟩ held
      (by rw [evicting]; rfl) rfl rfl rfl
    · simp [L1Node.after, node.requests, Phase.requests]
    · simp [L1Node.after, messages, Forwarded.messages, Phase.forwards]

theorem forward_refused (coh : Coherent blockSize s current phase dirPhase dmaPhase) {nack : Bool}
    {next : ι} (refused : phase c = .refused nack data next) (i : Nat) :
    coh.Goes none kind (.forwardRequestNetwork c i) := by
  have node := coh.nodes c
  rw [refused] at node
  obtain rfl : data = current := coh.copies c data (by rw [refused]; rfl)
  have held : (phase c).view.holds := by rw [refused]; rfl
  have onward : (phase c).view.next = some next := by rw [refused]; rfl
  cases nack with
  | false =>
    have cache : (s.nodes c).cache = ⟨none, some ⟨.MII, data⟩⟩ := node.cache
    have messages : (s.nodes c).forwardToCache = [.getx next] := node.forwards
    refine coh.forward_single messages rfl ?_ i
    have done : (s.nodes c).cache.doTransition c (⟨some (.getx next), none, id⟩ : L1Trigger ι κ) .Fwd_GETX =
        .ok ⟨⟨none, none⟩, [], [(.l1Cache next, ⟨data⟩)], [], true⟩ := by rw [cache]; rfl
    refine coh.runCache_pass (p := .idle) done rfl rfl ⟨.inl rfl, ?_, ?_, node.responses⟩ held onward rfl rfl rfl
    · simp [L1Node.after, node.requests, Phase.requests]
    · simp [L1Node.after, messages, Phase.forwards]
  | true =>
    have cache : (s.nodes c).cache = ⟨none, some ⟨.MI, data⟩⟩ := node.cache
    have messages : (s.nodes c).forwardToCache = [.getx next, .wbNack c] := node.forwards
    match i with
    | 0 =>
      refine coh.forward_some (.getx next) (by rw [messages]; rfl) rfl ?_
      have done : (s.nodes c).cache.doTransition c (⟨some (.getx next), none, id⟩ : L1Trigger ι κ) .Fwd_GETX =
          .ok ⟨⟨none, some ⟨.II, data⟩⟩, [], [(.l1Cache next, ⟨data⟩)], [], true⟩ := by rw [cache]; rfl
      refine coh.runCache_pass (p := .rejected) done rfl rfl ⟨⟨data, rfl⟩, ?_, ?_, node.responses⟩ held onward rfl rfl rfl
      · simp [L1Node.after, node.requests, Phase.requests]
      · simp [L1Node.after, messages, Phase.forwards]
    | 1 =>
      refine coh.forward_some (.wbNack c) (by rw [messages]; rfl) rfl ?_
      have done : (s.nodes c).cache.doTransition c (⟨some (.wbNack c), none, id⟩ : L1Trigger ι κ) .Writeback_Nack =
          .ok ⟨⟨none, some ⟨.MII, data⟩⟩, [], [], [], true⟩ := by rw [cache]; rfl
      refine coh.runCache (p := .refused false data next) done rfl ⟨rfl, ?_, ?_, node.responses⟩
        (fun _ same => (Option.some.inj same).symm) (coh.linked_same (by rw [refused]; rfl)) nofun (absurd rfl) nofun
      · simp [L1Node.after, node.requests, Phase.requests]
      · simp [L1Node.after, messages, Phase.forwards]
    | i + 2 => exact coh.forward_none (by rw [messages]; rfl)

theorem forward_rejected (coh : Coherent blockSize s current phase dirPhase dmaPhase) (rejected : phase c = .rejected)
    (i : Nat) : coh.Goes none kind (.forwardRequestNetwork c i) := by
  have node := coh.nodes c
  rw [rejected] at node
  obtain ⟨data, cache⟩ := node.cache
  have messages : (s.nodes c).forwardToCache = [.wbNack c] := node.forwards
  refine coh.forward_single messages rfl ?_ i
  have done : (s.nodes c).cache.doTransition c (⟨some (.wbNack c), none, id⟩ : L1Trigger ι κ) .Writeback_Nack =
      .ok ⟨⟨none, none⟩, [], [], [], true⟩ := by rw [cache]; rfl
  refine coh.runCache (p := .idle) done rfl ⟨.inl rfl, ?_, ?_, node.responses⟩ nofun
    (coh.linked_same (by rw [rejected]; rfl)) nofun (absurd rfl) nofun
  · simp [L1Node.after, node.requests, Phase.requests]
  · simp [L1Node.after, messages, Phase.forwards]

theorem forward_writing (coh : Coherent blockSize s current phase dirPhase dmaPhase) {inv : Bool}
    (writing : phase c = .writing inv) (i : Nat) : coh.Goes none kind (.forwardRequestNetwork c i) := by
  have node := coh.nodes c
  rw [writing] at node
  obtain ⟨data, cache⟩ := node.cache
  cases inv with
  | false =>
    have messages : (s.nodes c).forwardToCache = [] := node.forwards
    exact coh.forward_none (by rw [messages]; rfl)
  | true =>
    have messages : (s.nodes c).forwardToCache = [.inv] := node.forwards
    refine coh.forward_single messages rfl ?_ i
    have done : (s.nodes c).cache.doTransition c (⟨some .inv, none, id⟩ : L1Trigger ι κ) .Inv =
        .ok ⟨⟨none, some ⟨.MI, data⟩⟩, [], [], [], true⟩ := by rw [cache]; rfl
    refine coh.runCache (p := .writing false) done rfl ⟨⟨data, rfl⟩, ?_, ?_, node.responses⟩ nofun
      (coh.linked_same (by rw [writing]; rfl)) nofun (absurd rfl) nofun
    · simp [L1Node.after, node.requests, Phase.requests]
    · simp [L1Node.after, messages, Phase.forwards]

theorem forward_acked (coh : Coherent blockSize s current phase dirPhase dmaPhase) {inv : Bool}
    (acked : phase c = .acked inv) {i : Nat} (ordered : i = 0 ∨ (phase c).stale = false) :
    coh.Goes none kind (.forwardRequestNetwork c i) := by
  have node := coh.nodes c
  rw [acked] at node
  obtain ⟨data, cache⟩ := node.cache
  cases inv with
  | false =>
    have messages : (s.nodes c).forwardToCache = [.wbAck c] := node.forwards
    refine coh.forward_single messages rfl ?_ i
    have done : (s.nodes c).cache.doTransition c (⟨some (.wbAck c), none, id⟩ : L1Trigger ι κ) .Writeback_Ack =
        .ok ⟨⟨none, none⟩, [], [], [], true⟩ := by rw [cache]; rfl
    refine coh.runCache (p := .idle) done rfl ⟨.inl rfl, ?_, ?_, node.responses⟩ nofun
      (coh.linked_same (by rw [acked]; rfl)) nofun (absurd rfl) nofun
    · simp [L1Node.after, node.requests, Phase.requests]
    · simp [L1Node.after, messages, Phase.forwards]
  | true =>
    -- the invalidation is before the acknowledgement
    obtain rfl := ordered.resolve_right (by rw [acked]; nofun)
    have messages : (s.nodes c).forwardToCache = [.inv, .wbAck c] := node.forwards
    refine coh.forward_some .inv (by rw [messages]; rfl) rfl ?_
    have done : (s.nodes c).cache.doTransition c (⟨some .inv, none, id⟩ : L1Trigger ι κ) .Inv =
        .ok ⟨⟨none, some ⟨.MI, data⟩⟩, [], [], [], true⟩ := by rw [cache]; rfl
    refine coh.runCache (p := .acked false) done rfl ⟨⟨data, rfl⟩, ?_, ?_, node.responses⟩ nofun
      (coh.linked_same (by rw [acked]; rfl)) nofun (absurd rfl) nofun
    · simp [L1Node.after, node.requests, Phase.requests]
    · simp [L1Node.after, messages, Phase.forwards]

/-- **A message of the forward network**, which is the first one of the cache unless there is no invalidation. -/
theorem forward (coh : Coherent blockSize s current phase dirPhase dmaPhase) {i : Nat}
    (ordered : i = 0 ∨ (phase c).stale = false) : coh.Goes none kind (.forwardRequestNetwork c i) := by
  have node := coh.nodes c
  cases is : phase c with
  | idle | asking | fetching | passed =>
    rw [is] at node
    exact coh.forward_none (by rw [node.forwards]; rfl)
  | waiting fwd | granted data fwd =>
    rw [is] at node
    exact coh.forward_pending node.cache node.forwards i
  | modified data fwd => exact coh.forward_modified is i
  | evicting data fwd => exact coh.forward_evicting is i
  | refused nack data next => exact coh.forward_refused is i
  | rejected => exact coh.forward_rejected is i
  | writing inv => exact coh.forward_writing is i
  | acked inv => exact coh.forward_acked is ordered

end Forward

/-! ### Messages of the response network -/

/-- **The data of the line arrives.** -/
theorem response [DecidableEq κ] (coh : Coherent blockSize s current phase dirPhase dmaPhase) (i : Nat)
    (hits : DataBlock → DataBlock) : coh.Goes none kind (.responseNetwork c i hits) := by
  have node := coh.nodes c
  by_cases granted : ∃ data fwd, phase c = .granted data fwd
  · obtain ⟨data, fwd, granted⟩ := granted
    rw [granted] at node
    obtain rfl : data = current := coh.copies c data (by rw [granted]; rfl)
    have held : (phase c).view.holds := by rw [granted]; rfl
    have messages : (s.nodes c).responseToCache = [⟨data⟩] := node.responses
    cases i with
    | zero =>
      have found : (s.nodes c).responseToCache[0]? = some ⟨data⟩ := by rw [messages]; rfl
      rw [Goes, MISystem.step, found]
      obtain ⟨state, other, old, rfl | rfl, cache⟩ := node.cache
      · have done : (s.nodes c).cache.doTransition c (⟨none, some ⟨data⟩, hits⟩ : L1Trigger ι κ) .Data =
            .ok ⟨⟨some ⟨.M, data⟩, none⟩, [], [], [.load c data], true⟩ := by rw [cache]; rfl
        refine coh.runCache (p := .modified data fwd) done rfl ⟨rfl, ?_, node.forwards, ?_⟩
          (fun _ same => (Option.some.inj same).symm) (coh.linked_same (by rw [granted]; rfl)) ?_ (fun _ => held) nofun
        · simp [L1Node.after, node.requests, Phase.requests]
        · simp [L1Node.after, messages, Phase.responses]
        · rintro callback member
          rw [List.mem_singleton.mp member]
          exact ⟨rfl, rfl⟩
      · have done : (s.nodes c).cache.doTransition c (⟨none, some ⟨data⟩, hits⟩ : L1Trigger ι κ) .Data =
            .ok ⟨⟨some ⟨.M, hits data⟩, none⟩, [], [], [.store c data (hits data)], true⟩ := by rw [cache]; rfl
        refine coh.runCache_store (p := .modified (hits data) fwd) done rfl ⟨rfl, ?_, node.forwards, ?_⟩ held
          (by rw [granted]; rfl) (fun _ same => (Option.some.inj same).symm) rfl rfl
        · simp [L1Node.after, node.requests, Phase.requests]
        · simp [L1Node.after, messages, Phase.responses]
    | succ i => exact coh.stay (by rw [MISystem.step, messages]; rfl)
  · have messages : (s.nodes c).responseToCache = [] := by
      rw [node.responses]
      cases is : phase c with
      | granted data fwd => exact absurd ⟨data, fwd, is⟩ granted
      | _ => rfl
    exact coh.stay (by rw [MISystem.step, messages]; rfl)

end Coherent

end Emas.Ruby

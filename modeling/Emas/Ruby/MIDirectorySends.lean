/-
**What the directory of the MI protocol takes and sends.**

* `MISystem.runDirectory_popped`, `MISystem.runDirectory_recycle` — a transition takes its message, or lets it wait.
-/

import Emas.Ruby.MIInvariant

namespace Emas.Ruby

variable {ι κ : Type}

/-! ### Which requests the directory takes -/

/-- A DMA write that the directory takes up: what the line holds then, and what is written. -/
structure DMAWrite where
  contents : DataBlock
  physicalAddress : Nat
  len : Nat
  dataBlk : DataBlock

namespace MISystem

variable [DecidableEq ι] [DecidableEq κ] {blockSize : Nat} (s : MISystem ι κ)

/-- The directory waits for the data of a cache for a DMA controller, or writes it. -/
def servesDMA : Prop := s.dir.getState ∈ [.M_DRD, .M_DWR, .M_DRDI, .M_DWRI]

instance : Decidable s.servesDMA := inferInstanceAs (Decidable (_ ∈ _))

/-- The directory has a transition for the request: while it serves a DMA controller there is no other DMA request, and no
writeback of a cache that is not the owner. -/
def Handled : MIAction ι κ blockSize → Prop
  | .requestQueue version i =>
    s.servesDMA → ∀ message ∈ (s.nodes version).requestFromCache[i]?,
      message.type = .PUTX → message.requestor ∈ s.dir.owner
  | .dmaRequestQueue version i => s.servesDMA → (s.dmas version).requestToDir[i]? = none
  | _ => True

/-- The DMA write that the directory takes up: of a line that is not cached, or with the data that the owner gives back. -/
def takenWrite : MIAction ι κ blockSize → Option DMAWrite
  | .dmaRequestQueue version i =>
    match s.dir.getState, (s.dmas version).requestToDir[i]? with
    | .I, some message =>
      if message.type = .WRITE then some ⟨s.memory, message.physicalAddress, message.len, message.dataBlk⟩ else none
    | _, _ => none
  | .requestQueue version i =>
    match s.dir.getState, s.dir.tbe, (s.nodes version).requestFromCache[i]? with
    | .M_DWR, some tbe, some message =>
      if message.type = .PUTX ∧ message.requestor ∈ s.dir.owner then
        some ⟨message.dataBlk, tbe.physicalAddress, tbe.len, tbe.dataBlk⟩
      else none
    | _, _, _ => none
  | _ => none

/-- What the memory holds when that is done. -/
def overwritten (action : MIAction ι κ blockSize) : Option DataBlock :=
  (s.takenWrite action).map fun write => s.memory.overwrite (write.dataBlk.bytes 0 write.len) 0 write.len

variable {s} {c : ι} {k : κ} {i : Nat}

theorem overwritten_request (plain : s.dir.getState = .M_DWR → ∀ message ∈ (s.nodes c).requestFromCache[i]?,
    message.type ≠ .PUTX) : s.overwritten (.requestQueue c i : MIAction ι κ blockSize) = none := by
  rw [overwritten, takenWrite]
  split
  next state _ found => rw [if_neg fun putx => plain state _ found putx.1]; rfl
  · rfl

theorem overwritten_dma (plain : s.dir.getState = .I → ∀ message ∈ (s.dmas k).requestToDir[i]?,
    message.type ≠ .WRITE) : s.overwritten (.dmaRequestQueue k i : MIAction ι κ blockSize) = none := by
  rw [overwritten, takenWrite]
  split
  next state found => rw [if_neg (plain state _ found)]; rfl
  · rfl

end MISystem

/-! ### Transitions -/

namespace Directory

variable {blockSize : Nat} {trigger : DirectoryTrigger ι κ} {event : DirectoryEvent} {dir : Directory ι κ}
  {state : DirectoryState}

theorem doTransition_ok {actions : List DirectoryAction} {next : DirectoryState} {ctx : DirectoryContext ι κ}
    {dir' : Directory ι κ} (found : transition dir.getState event = some (actions, next))
    (performed : actions.foldlM (DirectoryContext.perform blockSize trigger) ⟨dir, [], [], [], [], false⟩ = .ok ctx)
    (set : ctx.dir.setState next = .ok dir') :
    dir.doTransition blockSize trigger event = .ok { ctx with dir := dir' } := by
  rw [doTransition, found]
  show (List.foldlM (DirectoryContext.perform blockSize trigger) _ _ >>= fun ctx => _) = _
  rw [performed]
  show (ctx.dir.setState next >>= fun dir => _) = _
  rw [set]
  rfl

theorem recycle {action : DirectoryAction} {tbe : DirectoryTBE ι κ}
    (busy : dir = ⟨state, dir.owner, some { tbe with tbeState := state }⟩) (apart : (state != .M && state != .I) = true)
    (recycles : transition state event = some ([action], state))
    (waits : action = .recycleRequestQueue ∨ action = .recycleDMARequestQueue) :
    dir.doTransition blockSize trigger event = .ok ⟨dir, [], [], [], [], false⟩ := by
  have here : dir.getState = state := by rw [busy]; rfl
  have performed : [action].foldlM (DirectoryContext.perform blockSize trigger) ⟨dir, [], [], [], [], false⟩ =
      .ok ⟨dir, [], [], [], [], false⟩ := by
    obtain rfl | rfl := waits
    · rfl
    · rfl
  have set : dir.setState state = .ok dir := by
    simp only [Bool.and_eq_true, bne_iff_ne] at apart
    rw [setState, ensure, if_pos fun same => absurd same apart.1, ensure, if_pos fun same => absurd same apart.2, busy]
    rfl
  exact doTransition_ok (here ▸ recycles) performed set

end Directory

theorem DirectoryContext.queueMemoryWritePartial_ok {blockSize len : Nat} (ctx : DirectoryContext ι κ)
    (id : MachineID ι κ) (block : DataBlock) (fits : len ≤ blockSize) :
    ctx.queueMemoryWritePartial blockSize id 0 block len =
      .ok { ctx with memoryRequests := ctx.memoryRequests ++ [⟨id, .writePartial 0 (block.bytes 0 len)⟩] } := by
  have bytes : block.getData blockSize 0 len = some (block.bytes 0 len) := if_pos (by omega)
  rw [queueMemoryWritePartial, bytes]
  rfl

namespace MISystem

variable [DecidableEq ι] [DecidableEq κ] {s : MISystem ι κ} {blockSize : Nat} {event : DirectoryEvent}
  {trigger : DirectoryTrigger ι κ} {remove : MISystem ι κ → MISystem ι κ} {ctx : DirectoryContext ι κ}

theorem runDirectory_ok (done : s.dir.doTransition blockSize trigger event = .ok ctx) :
    s.runDirectory blockSize event trigger remove = ctx.forwards.foldlM sendForward
          { (if ctx.popped then remove s else s) with
            dir := ctx.dir
            memoryRequests := (if ctx.popped then remove s else s).memoryRequests ++ ctx.memoryRequests } >>= fun sent =>
        ctx.responses.foldlM sendResponse sent >>= fun sent =>
          ctx.dmaResponses.foldlM sendDMAResponse sent := by
  rw [runDirectory, done]
  rfl

theorem runDirectory_popped {taken : MISystem ι κ} (done : s.dir.doTransition blockSize trigger event = .ok ctx)
    (popped : ctx.popped = true) (removed : remove s = taken) :
    s.runDirectory blockSize event trigger remove =
      ctx.forwards.foldlM sendForward
          { taken with dir := ctx.dir, memoryRequests := taken.memoryRequests ++ ctx.memoryRequests } >>= fun sent =>
        ctx.responses.foldlM sendResponse sent >>= fun sent =>
          ctx.dmaResponses.foldlM sendDMAResponse sent := by
  rw [runDirectory_ok done, popped, if_pos rfl, removed]

theorem runDirectory_recycle (done : s.dir.doTransition blockSize trigger event = .ok ⟨s.dir, [], [], [], [], false⟩) :
    s.runDirectory blockSize event trigger remove = .ok s := by
  rw [runDirectory_ok done]
  show Except.ok { s with memoryRequests := s.memoryRequests ++ [] } = _
  rw [List.append_nil]

theorem sends_forward {version : ι} {message : RequestMsg ι κ} {node : L1Node ι κ} (here : s.nodes version = node) :
    ([(.l1Cache version, message)].foldlM sendForward s >>= fun sent =>
        ([] : List (MachineID ι κ × ResponseMsg)).foldlM sendResponse sent >>= fun sent =>
          ([] : List (MachineID ι κ × DMAResponseMsg)).foldlM sendDMAResponse sent) =
      .ok (s.setNode version { node with forwardToCache := node.forwardToCache ++ [message] }) := by
  rw [← here]
  rfl

theorem sends_dma {version : κ} {message : DMAResponseMsg} :
    (([] : List (MachineID ι κ × RequestMsg ι κ)).foldlM sendForward s >>= fun sent =>
        ([] : List (MachineID ι κ × ResponseMsg)).foldlM sendResponse sent >>= fun sent =>
          [(.dma version, message)].foldlM sendDMAResponse sent) =
      .ok (s.setDMA version { s.dmas version with responseFromDir := (s.dmas version).responseFromDir ++ [message] }) :=
  rfl

end MISystem

/-! ### What the directory forwards -/

namespace Phase

/-- The directory forwards something else to a cache. -/
def withForward (fwd : Forwarded ι) : Phase ι → Phase ι
  | waiting _ => waiting fwd
  | granted data _ => granted data fwd
  | modified data _ => modified data fwd
  | evicting data _ => evicting data fwd
  | phase => phase

variable {phase : Phase ι} {fwd : Forwarded ι} {c : ι} {node : L1Node ι κ}

theorem withForward_data : (phase.withForward fwd).data? = phase.data? := by
  cases phase <;> rfl

theorem withForward_stale : (phase.withForward fwd).stale = phase.stale := by
  cases phase <;> rfl

theorem withForward_view (linked : phase.view.linked) (last : phase.view.next = none) :
    (phase.withForward fwd).view = { phase.view with next := fwd.next, invalidated := fwd.invalidated } := by
  cases phase with
  | waiting | granted | modified | evicting => rfl
  | refused => exact absurd last nofun
  | _ => exact absurd linked Bool.false_ne_true

theorem Holds.withForward (holds : phase.Holds c node) (linked : phase.view.linked) (last : phase.view.next = none)
    (asked : phase.view.invalidated = false) :
    (phase.withForward fwd).Holds c { node with forwardToCache := node.forwardToCache ++ fwd.messages } := by
  have nothing {old : Forwarded ι} (last : old.next = none) (asked : old.invalidated = false) :
      (old.messages : List (RequestMsg ι κ)) = [] := by
    cases old with
    | nothing => rfl
    | invalidation => exact absurd asked nofun
    | request => exact absurd last nofun
  cases phase with
  | waiting old | granted data old | modified data old | evicting data old =>
    have empty : node.forwardToCache = [] := holds.forwards.trans (nothing last asked)
    exact ⟨holds.cache, holds.requests, by simp only [empty, List.nil_append]; rfl, holds.responses⟩
  | refused => exact absurd last nofun
  | _ => exact absurd linked Bool.false_ne_true

end Phase

namespace Coherent

variable [DecidableEq ι] [DecidableEq κ] {blockSize : Nat} {s : MISystem ι κ} {current : DataBlock} {phase : ι → Phase ι}
  {dirPhase : DirectoryPhase ι κ} {dmaPhase : κ → DMAPhase} {c r o : ι} {k : κ} {p : Phase ι}

omit [DecidableEq ι] [DecidableEq κ] in
theorem owner_facts (coh : Coherent blockSize s current phase dirPhase dmaPhase) (owned : dirPhase.role = .owner o false) :
    (phase o).view.linked ∧ (phase o).view.next = none ∧ (phase o).view.invalidated = false := by
  obtain ⟨linked, last⟩ := coh.linked.owner o (by rw [owned]; rfl)
  refine ⟨linked, last, Bool.eq_false_iff.mpr fun asked => ?_⟩
  have busy := owned.symm.trans (coh.linked.invalidated o asked)
  cases busy

omit [DecidableEq ι] [DecidableEq κ] in
theorem answered (coh : Coherent blockSize s current phase dirPhase dmaPhase) {write : Bool}
    (serves : dirPhase.serves = some (k, write)) (data : DataBlock) :
    (DMAPhase.answered write).Holds blockSize k { s.dmas k with
      responseFromDir := (s.dmas k).responseFromDir ++ [⟨if write then .ACK else .DATA, data⟩] } := by
  have dma := coh.dmas k
  rw [coh.serves k write serves] at dma
  obtain ⟨busy, asked, answers⟩ := dma
  exact ⟨busy, asked, data, by rw [answers]; rfl⟩

end Coherent

end Emas.Ruby

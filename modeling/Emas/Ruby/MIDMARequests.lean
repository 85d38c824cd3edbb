/-
**The directory of the MI protocol gets a request of a DMA controller.**

* `Coherent.dma_read`, `Coherent.dma_write`, `Coherent.dma_owned` — the memory is read or written, or the owner is asked to
  give up the line.
-/

import Emas.Ruby.MIDirectorySends

namespace Emas.Ruby

variable {ι κ : Type}

namespace Coherent

variable [DecidableEq ι] [DecidableEq κ] {blockSize : Nat} {s : MISystem ι κ} {current : DataBlock} {phase : ι → Phase ι}
  {dirPhase : DirectoryPhase ι κ} {dmaPhase : κ → DMAPhase} {c r o : ι} {k : κ} {p : Phase ι}

variable {kind : StepKind}

theorem dma_none (coh : Coherent blockSize s current phase dirPhase dmaPhase) {i : Nat}
    (none : (s.dmas k).requestToDir[i]? = none) : coh.Goes .none kind (.dmaRequestQueue k i) :=
  coh.stay (by rw [MISystem.step, none])

theorem dma_popped (coh : Coherent blockSize s current phase dirPhase dmaPhase) {written : Option DataBlock}
    (current' : DataBlock) (phase' : ι → Phase ι)
    (dirPhase' : DirectoryPhase ι κ) (dmaPhase' : κ → DMAPhase) {message : DMARequestMsg ι κ}
    {ctx : DirectoryContext ι κ} {sent : MISystem ι κ} (messages : (s.dmas k).requestToDir = [message])
    (done : s.dir.doTransition blockSize ⟨none, some message, none⟩ (Directory.dmaEvent message) = .ok ctx)
    (popped : ctx.popped = true) (sends : (ctx.forwards.foldlM MISystem.sendForward
          { s.setDMA k { s.dmas k with requestToDir := [] } with
            dir := ctx.dir, memoryRequests := s.memoryRequests ++ ctx.memoryRequests } >>= fun sent =>
        ctx.responses.foldlM MISystem.sendResponse sent >>= fun sent =>
          ctx.dmaResponses.foldlM MISystem.sendDMAResponse sent) = .ok sent)
    (coherent : Coherent blockSize sent current' phase' dirPhase' dmaPhase')
    (effect : Effect written kind current phase dirPhase dmaPhase [] current' phase' dirPhase' dmaPhase') :
    coh.Goes written kind (.dmaRequestQueue k 0) := by
  refine ⟨sent, [], current', phase', dirPhase', dmaPhase', ?_, coherent, effect⟩
  have found : (s.dmas k).requestToDir[0]? = some message := by rw [messages]; rfl
  rw [MISystem.step, found]
  show (s.runDirectory blockSize _ _ _ >>= fun next => _) = _
  have removed : s.setDMA k { s.dmas k with requestToDir := (s.dmas k).requestToDir.eraseIdx 0 } =
      s.setDMA k { s.dmas k with requestToDir := [] } := by
    rw [messages]
    rfl
  rw [MISystem.runDirectory_popped done popped removed]
  exact congrArg (· >>= fun next => .ok (next, [])) sends

variable {write : Bool}

omit [DecidableEq ι] [DecidableEq κ] in
theorem asking_facts (coh : Coherent blockSize s current phase dirPhase dmaPhase)
    (asking : dmaPhase k = .asking write) :
    (DMAPhase.served write).Holds blockSize k { s.dmas k with requestToDir := ([] : List (DMARequestMsg ι κ)) } ∧
      ∃ offset data len, InLine blockSize offset len data ∧
        (s.dmas k).requestToDir = [⟨if write then .WRITE else .READ, offset, .dma k, data, len⟩] := by
  have dma := coh.dmas k
  rw [asking] at dma
  obtain ⟨busy, answers, request⟩ := dma
  exact ⟨⟨busy, rfl, answers⟩, request⟩

omit [DecidableEq ι] in
theorem serves_update (version : κ) (write' : Bool) (serves : some (k, write) = some (version, write')) :
    Function.update dmaPhase k (.served write) version = .served write' := by
  obtain ⟨rfl, rfl⟩ := Prod.mk.inj (Option.some.inj serves)
  exact Function.update_self ..

theorem dma_read (coh : Coherent blockSize s current phase .idle dmaPhase) (asking : dmaPhase k = .asking false) :
    coh.Goes none .request (.dmaRequestQueue k 0) := by
  obtain ⟨served, offset, data, len, -, messages⟩ := coh.asking_facts asking
  have dir : s.dir = ⟨.I, [], none⟩ := coh.dir
  obtain ⟨memory, requests, responses⟩ := coh.memory
  have done : s.dir.doTransition blockSize ⟨none, some ⟨.READ, offset, .dma k, data, len⟩, none⟩ .DMA_READ =
      .ok ⟨⟨.ID, [], some { tbeState := .ID, dmaRequestor := some (.dma k) }⟩, [], [], [], [⟨.dma k, .read⟩],
        true⟩ := by
    rw [dir]
    rfl
  exact coh.dma_popped current phase (.dmaReading k) (Function.update dmaPhase k (.served false)) messages done rfl rfl
    { nodes := coh.nodes
      linked := coh.linked
      copies := coh.copies
      dir := ⟨{ dmaRequestor := some (.dma k) }, rfl, rfl⟩
      memory := ⟨memory, .inl ⟨by rw [requests]; rfl, responses⟩⟩
      dmas := dmas_update coh.dmas served
      serves := serves_update }
    (.quiet (fun _ calm => absurd (asking.symm.trans (calm.dmas k)) nofun) fun _ request => absurd rfl (request rfl))

theorem dma_write (coh : Coherent blockSize s current phase .idle dmaPhase) (asking : dmaPhase k = .asking true) :
    ∃ offset data len, InLine blockSize offset len data ∧
      (s.dmas k).requestToDir = [⟨.WRITE, offset, .dma k, data, len⟩] ∧
      coh.Goes (some (s.memory.overwrite (data.bytes 0 len) 0 len)) .request (.dmaRequestQueue k 0) := by
  obtain ⟨served, offset, data, len, inLine, messages⟩ := coh.asking_facts asking
  refine ⟨offset, data, len, inLine, messages, ?_⟩
  have dir : s.dir = ⟨.I, [], none⟩ := coh.dir
  obtain ⟨memory, requests, responses⟩ := coh.memory
  have done : s.dir.doTransition blockSize ⟨none, some ⟨.WRITE, offset, .dma k, data, len⟩, none⟩ .DMA_WRITE =
      .ok ⟨⟨.ID_W, [], some ⟨.ID_W, offset, data, len, some (.dma k)⟩⟩, [], [], [],
        [⟨.dma k, .writePartial 0 (data.bytes 0 len)⟩], true⟩ := by
    let ctx : DirectoryContext ι κ :=
      ⟨⟨.I, [], some ⟨.I, offset, data, len, some (.dma k)⟩⟩, [], [], [], [], false⟩
    have queued := ctx.queueMemoryWritePartial_ok (.dma k) data (Nat.le_of_add_left_le inLine.1)
    have performed : [DirectoryAction.queueMemoryWBRequestPartial, .popIncomingDMARequestQueue].foldlM
        (DirectoryContext.perform blockSize ⟨none, some ⟨.WRITE, offset, .dma k, data, len⟩, none⟩) ctx =
        .ok ⟨⟨.I, [], some ⟨.I, offset, data, len, some (.dma k)⟩⟩, [], [], [],
          [⟨.dma k, .writePartial 0 (data.bytes 0 len)⟩], true⟩ := congrArg (· >>= _) queued
    have allocated : [DirectoryAction.allocateTBE, .queueMemoryWBRequestPartial, .popIncomingDMARequestQueue].foldlM
        (DirectoryContext.perform blockSize ⟨none, some ⟨.WRITE, offset, .dma k, data, len⟩, none⟩)
        ⟨⟨.I, [], none⟩, [], [], [], [], false⟩ = .ok _ := performed
    rw [dir]
    exact Directory.doTransition_ok rfl allocated rfl
  exact coh.dma_popped (s.memory.overwrite (data.bytes 0 len) 0 len) phase (.dmaWriting k)
      (Function.update dmaPhase k (.served true)) messages done rfl rfl
    { nodes := coh.nodes
      linked := coh.linked
      copies := no_copies coh.linked rfl
      dir := ⟨⟨.I, offset, data, len, some (.dma k)⟩, rfl, rfl⟩
      memory := .inl ⟨.writePartial 0 (data.bytes 0 len), nofun, MemoryAccess.applied_bytes .., by rw [requests]; rfl,
        responses⟩
      dmas := dmas_update coh.dmas served
      serves := serves_update }
    { seen := trivial
      owned := absurd rfl
      current := rfl
      calm := fun _ calm => absurd (asking.symm.trans (calm.dmas k)) nofun
      takes := fun _ => trivial
      settles := fun _ request => absurd rfl (request rfl) }

theorem dma_owned (coh : Coherent blockSize s current phase (.owned o) dmaPhase)
    (asking : dmaPhase k = .asking write) : coh.Goes none .request (.dmaRequestQueue k 0) := by
  obtain ⟨served, offset, data, len, inLine, messages⟩ := coh.asking_facts asking
  obtain ⟨linked, last, asked⟩ := coh.owner_facts rfl
  have dir : s.dir = ⟨.M, [.l1Cache o], none⟩ := coh.dir
  obtain ⟨requests, responses⟩ := coh.memory
  have done : s.dir.doTransition blockSize
      ⟨none, some ⟨if write then .WRITE else .READ, offset, .dma k, data, len⟩, none⟩
      (Directory.dmaEvent (⟨if write then .WRITE else .READ, offset, .dma k, data, len⟩ : DMARequestMsg ι κ)) =
      .ok ⟨⟨if write then .M_DWR else .M_DRD, [.l1Cache o],
        some ⟨if write then .M_DWR else .M_DRD, offset, data, len, some (.dma k)⟩⟩, [(.l1Cache o, .inv)], [], [], [],
          true⟩ := by
    rw [dir]
    cases write <;> rfl
  have forwards : ((phase o).withForward .invalidation).Holds o { s.nodes o with
      forwardToCache := (s.nodes o).forwardToCache ++ [.inv] } := (coh.nodes o).withForward linked last asked
  exact coh.dma_popped current (Function.update phase o ((phase o).withForward .invalidation)) (.invalidating o k write)
      (Function.update dmaPhase k (.served write)) messages done rfl (MISystem.sends_forward rfl)
    { nodes := holds_update coh.nodes forwards
      linked := by
        have invalidated := coh.linked.invalidate
        rw [view_update, Phase.withForward_view linked last]
        have last' : (Forwarded.invalidation : Forwarded ι).next = (phase o).view.next := last.symm
        rw [last']
        exact invalidated
      copies := copies_update coh.copies fun copy found => coh.copies o copy (Phase.withForward_data.symm.trans found)
      dir := ⟨⟨.I, offset, data, len, some (.dma k)⟩, ⟨rfl, inLine⟩, rfl⟩
      memory := ⟨by rw [requests]; rfl, responses⟩
      dmas := dmas_update coh.dmas served
      serves := serves_update }
    (.quiet (fun _ calm => absurd (asking.symm.trans (calm.dmas k)) nofun) fun settling => settling.elim)

theorem dma_recycled (coh : Coherent blockSize s current phase dirPhase dmaPhase) {message : DMARequestMsg ι κ}
    (messages : (s.dmas k).requestToDir = [message]) (apart : (dirPhase.state != .M && dirPhase.state != .I) = true)
    (recycles : Directory.transition dirPhase.state (Directory.dmaEvent message) =
      some ([.recycleDMARequestQueue], dirPhase.state)) : coh.Goes none kind (.dmaRequestQueue k 0) := by
  refine coh.stay ?_
  have found : (s.dmas k).requestToDir[0]? = some message := by rw [messages]; rfl
  obtain ⟨tbe, busy⟩ := coh.dir.busy apart
  rw [MISystem.step, found]
  show (s.runDirectory blockSize _ _ _ >>= fun next => _) = _
  rw [MISystem.runDirectory_recycle (Directory.recycle busy apart recycles (.inr rfl))]
  rfl

/-- **A request of a DMA controller.** -/
theorem dma (coh : Coherent blockSize s current phase dirPhase dmaPhase)
    (asking : dmaPhase k = .asking write) (handled : ¬ s.servesDMA) :
    coh.Goes (s.overwritten (.dmaRequestQueue k 0 : MIAction ι κ blockSize)) .request (.dmaRequestQueue k 0) := by
  obtain ⟨-, offset, data, len, -, messages⟩ := coh.asking_facts asking
  have first : (s.dmas k).requestToDir[0]? = some ⟨if write then .WRITE else .READ, offset, .dma k, data, len⟩ := by
    rw [messages]
    rfl
  have state := coh.dir.state
  have plain (other : (dirPhase.state == .I) = false ∨ write = false) :
      s.overwritten (.dmaRequestQueue k 0 : MIAction ι κ blockSize) = none := by
    refine MISystem.overwritten_dma fun found message same => ?_
    obtain rfl := other.resolve_left fun apart => ne_of_beq_false apart (state.symm.trans found)
    obtain rfl := Option.some.inj (first.symm.trans same)
    rintro ⟨⟩
  cases dirPhase with
  | idle =>
    cases write with
    | false =>
      rw [plain (.inr rfl)]
      exact coh.dma_read asking
    | true =>
      obtain ⟨offset, data, len, -, messages, continues⟩ := coh.dma_write asking
      have first : (s.dmas k).requestToDir[0]? = some ⟨.WRITE, offset, .dma k, data, len⟩ := by rw [messages]; rfl
      have taken : s.takenWrite (.dmaRequestQueue k 0 : MIAction ι κ blockSize) = some ⟨s.memory, offset, len, data⟩ := by
        simp only [MISystem.takenWrite, state, DirectoryPhase.state, first]
        exact if_pos trivial
      rw [MISystem.overwritten, taken]
      exact continues
  | owned o =>
    rw [plain (.inl rfl)]
    exact coh.dma_owned asking
  | invalidating o k' write' =>
    refine absurd ?_ handled
    rw [MISystem.servesDMA, state]
    cases write' <;> simp [DirectoryPhase.state]
  | writing version back =>
    cases back with
    | evicted =>
      rw [plain (.inl rfl)]
      exact coh.dma_recycled messages rfl (by cases write <;> rfl)
    | read | written => exact absurd (by simp [MISystem.servesDMA, state, DirectoryPhase.state]) handled
  | fetching | dmaReading | dmaWriting =>
    rw [plain (.inl rfl)]
    exact coh.dma_recycled messages rfl (by cases write <;> rfl)

/-- **The directory gets a request of a DMA controller.** -/
theorem dmaRequestQueue (coh : Coherent blockSize s current phase dirPhase dmaPhase) {i : Nat}
    (handled : s.Handled (.dmaRequestQueue k i : MIAction ι κ blockSize)) :
    coh.Goes (s.overwritten (.dmaRequestQueue k i : MIAction ι κ blockSize)) .request (.dmaRequestQueue k i) := by
  have dma := coh.dmas k
  have nothing (none : (s.dmas k).requestToDir[i]? = none) :
      coh.Goes (s.overwritten (.dmaRequestQueue k i : MIAction ι κ blockSize)) .request (.dmaRequestQueue k i) := by
    rw [MISystem.overwritten_dma fun _ message found => absurd (none.symm.trans found) nofun]
    exact coh.dma_none none
  cases is : dmaPhase k with
  | asking write =>
    obtain ⟨-, offset, data, len, -, messages⟩ := coh.asking_facts is
    cases i with
    | zero =>
      refine coh.dma is fun busy => ?_
      have none := handled busy
      rw [messages] at none
      cases none
    | succ i => exact nothing (by rw [messages]; rfl)
  | ready =>
    rw [is] at dma
    exact nothing (by rw [dma]; rfl)
  | served | answered =>
    rw [is] at dma
    exact nothing (by rw [dma.2.1]; rfl)

end Coherent

end Emas.Ruby

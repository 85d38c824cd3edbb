/-
**The directory of the MI protocol gets a request of a cache.**

* `Coherent.getx_idle`, `Coherent.getx_owned` — the line is fetched, or the request is forwarded to the owner.
* `Coherent.putx_owner`, `Coherent.putx_read`, `Coherent.putx_written`, `Coherent.putx_other` — the line is written back, is
  given up for a DMA controller, or the cache is refused.
-/

import Emas.Ruby.MIDirectorySends

namespace Emas.Ruby

variable {ι κ : Type}

namespace Coherent

variable [DecidableEq ι] [DecidableEq κ] {blockSize : Nat} {s : MISystem ι κ} {current : DataBlock} {phase : ι → Phase ι}
  {dirPhase : DirectoryPhase ι κ} {dmaPhase : κ → DMAPhase} {c r o : ι} {k : κ} {p : Phase ι}

variable {kind : StepKind}

theorem request_none (coh : Coherent blockSize s current phase dirPhase dmaPhase) {i : Nat}
    (none : (s.nodes c).requestFromCache[i]? = none) : coh.Goes .none kind (.requestQueue c i) :=
  coh.stay (by rw [MISystem.step, none])

theorem request_popped (coh : Coherent blockSize s current phase dirPhase dmaPhase) {written : Option DataBlock}
    (current' : DataBlock) (phase' : ι → Phase ι)
    (dirPhase' : DirectoryPhase ι κ) (dmaPhase' : κ → DMAPhase) {message : RequestMsg ι κ} {event : DirectoryEvent}
    {ctx : DirectoryContext ι κ} {sent : MISystem ι κ} (messages : (s.nodes c).requestFromCache = [message])
    (is : s.dir.requestEvent message = .ok event)
    (done : s.dir.doTransition blockSize ⟨some message, none, none⟩ event = .ok ctx) (popped : ctx.popped = true)
    (sends : (ctx.forwards.foldlM MISystem.sendForward
          { s.setNode c { s.nodes c with requestFromCache := [] } with
            dir := ctx.dir, memoryRequests := s.memoryRequests ++ ctx.memoryRequests } >>= fun sent =>
        ctx.responses.foldlM MISystem.sendResponse sent >>= fun sent =>
          ctx.dmaResponses.foldlM MISystem.sendDMAResponse sent) = .ok sent)
    (coherent : Coherent blockSize sent current' phase' dirPhase' dmaPhase')
    (effect : Effect written kind current phase dirPhase dmaPhase [] current' phase' dirPhase' dmaPhase') :
    coh.Goes written kind (.requestQueue c 0) := by
  refine ⟨sent, [], current', phase', dirPhase', dmaPhase', ?_, coherent, effect⟩
  have found : (s.nodes c).requestFromCache[0]? = some message := by rw [messages]; rfl
  rw [MISystem.step, found]
  show (s.dir.requestEvent message >>= _) = _
  rw [is]
  show (s.runDirectory blockSize event _ _ >>= fun next => _) = _
  have removed : s.setNode c { s.nodes c with requestFromCache := (s.nodes c).requestFromCache.eraseIdx 0 } =
      s.setNode c { s.nodes c with requestFromCache := [] } := by
    rw [messages]
    rfl
  rw [MISystem.runDirectory_popped done popped removed]
  exact congrArg (· >>= fun next => .ok (next, [])) sends

theorem getx_idle (coh : Coherent blockSize s current phase .idle dmaPhase) (asking : phase c = .asking) :
    coh.Goes none .request (.requestQueue c 0) := by
  have node := coh.nodes c
  rw [asking] at node
  have dir : s.dir = ⟨.I, [], none⟩ := coh.dir
  obtain ⟨memory, requests, responses⟩ := coh.memory
  have done : s.dir.doTransition blockSize ⟨some (.getx c), none, none⟩ .GETX =
      .ok ⟨⟨.IM, [.l1Cache c], some { tbeState := .IM }⟩, [], [], [], [⟨.l1Cache c, .read⟩], true⟩ := by
    rw [dir]
    rfl
  refine coh.request_popped current (Function.update phase c .fetching) (.fetching c) dmaPhase node.requests rfl done
      rfl rfl
    { nodes := holds_update coh.nodes ⟨node.cache, rfl, node.forwards, node.responses⟩
      linked := by
        rw [view_update]
        exact coh.linked.fetch (by rw [asking]; rfl)
      copies := copies_update coh.copies nofun
      dir := ⟨{}, trivial, rfl⟩
      memory := ⟨memory, .inl ⟨by rw [requests]; rfl, responses⟩⟩
      dmas := coh.dmas
      serves := nofun }
    (.quiet (fun _ calm => ⟨trivial, calm.dmas, stale_update calm.nodes rfl⟩) fun _ request => absurd rfl (request rfl))

theorem getx_owned (coh : Coherent blockSize s current phase (.owned o) dmaPhase) (asking : phase c = .asking) :
    coh.Goes none .request (.requestQueue c 0) := by
  have node := coh.nodes c
  rw [asking] at node
  have outside : (phase c).view = .out := by rw [asking]; rfl
  obtain ⟨linked, last, asked⟩ := coh.owner_facts rfl
  have other : o ≠ c := by
    rintro rfl
    rw [outside] at linked
    exact absurd linked Bool.false_ne_true
  have dir : s.dir = ⟨.M, [.l1Cache o], none⟩ := coh.dir
  obtain ⟨requests, responses⟩ := coh.memory
  have done : s.dir.doTransition blockSize ⟨some (.getx c), none, none⟩ .GETX =
      .ok ⟨⟨.M, [.l1Cache c], none⟩, [(.l1Cache o, .getx c)], [], [], [], true⟩ := by
    rw [dir]
    rfl
  have before : Function.update s.nodes c { s.nodes c with requestFromCache := [] } o = s.nodes o :=
    Function.update_of_ne other ..
  have waits : (Phase.waiting .nothing).Holds c { s.nodes c with requestFromCache := [] } :=
    ⟨node.cache, rfl, node.forwards, node.responses⟩
  have forwards : ((phase o).withForward (.request c)).Holds o { s.nodes o with
      forwardToCache := (s.nodes o).forwardToCache ++ [.getx c] } := (coh.nodes o).withForward linked last asked
  refine coh.request_popped current (Function.update (Function.update phase c (.waiting .nothing)) o
      ((phase o).withForward (.request c))) (.owned c) dmaPhase node.requests rfl done rfl
      (MISystem.sends_forward before)
    { nodes := holds_update (holds_update coh.nodes waits) forwards
      linked := by
        have appended := coh.linked.append outside
        rw [view_update, view_update, Function.update_comm other.symm, Phase.withForward_view linked last]
        have asked' : (Forwarded.request c).invalidated = (phase o).view.invalidated := asked.symm
        rw [asked']
        exact appended
      copies := copies_update (copies_update coh.copies nofun) fun data found =>
        coh.copies o data (Phase.withForward_data.symm.trans found)
      dir := rfl
      memory := ⟨by rw [requests]; rfl, responses⟩
      dmas := coh.dmas
      serves := nofun }
    (.quiet (fun _ calm => ⟨trivial, calm.dmas,
      stale_update (stale_update calm.nodes rfl) (Phase.withForward_stale.trans (calm.nodes o))⟩)
      fun settling => settling.elim)

variable {data : DataBlock}

theorem putx_refused (coh : Coherent blockSize s current phase dirPhase dmaPhase)
    (messages : (s.nodes c).requestFromCache = [.putx c data])
    (is : s.dir.requestEvent (.putx c data) = .ok .PUTX_NotOwner)
    (done : s.dir.doTransition blockSize ⟨some (.putx c data), none, none⟩ .PUTX_NotOwner =
      .ok ⟨s.dir, [(.l1Cache c, .wbNack c)], [], [], [], true⟩)
    (holds : p.Holds c { s.nodes c with
      requestFromCache := [], forwardToCache := (s.nodes c).forwardToCache ++ [.wbNack c] })
    (same : p.view = (phase c).view) (held : ∀ data, p.data? = some data → data = current) (fresh : p.stale = false) :
    coh.Goes none .request (.requestQueue c 0) := by
  have taken : Function.update s.nodes c { s.nodes c with requestFromCache := [] } c =
      { s.nodes c with requestFromCache := [] } := Function.update_self ..
  refine coh.request_popped current (Function.update phase c p) dirPhase dmaPhase messages is done rfl
      (MISystem.sends_forward taken)
    { nodes := by
        show ∀ version, Phase.Holds version _ (Function.update (Function.update s.nodes c _) c _ version)
        rw [Function.update_idem]
        exact holds_update coh.nodes holds
      linked := by
        rw [view_update]
        exact coh.linked_same same
      copies := copies_update coh.copies held
      dir := coh.dir
      memory := coh.memory.congr rfl (List.append_nil _) rfl
      dmas := coh.dmas
      serves := coh.serves }
    (.quiet (fun _ calm => ⟨calm.dir, calm.dmas, stale_update calm.nodes fresh⟩) fun settling _ => settling)

variable {fwd : Forwarded ι}

omit [DecidableEq ι] [DecidableEq κ] in
theorem evicting_forwards (coh : Coherent blockSize s current phase dirPhase dmaPhase)
    (evicting : phase c = .evicting data fwd) (owner : dirPhase.role.owner? = some c) :
    (s.nodes c).forwardToCache = if fwd.invalidated then [.inv] else [] := by
  have node := coh.nodes c
  rw [evicting] at node
  have last := (coh.linked.owner c owner).2
  rw [evicting] at last
  rw [node.forwards]
  cases fwd with
  | nothing | invalidation => rfl
  | request => exact absurd last nofun

theorem putx_owner (coh : Coherent blockSize s current phase (.owned c) dmaPhase)
    (evicting : phase c = .evicting data fwd) : coh.Goes none .request (.requestQueue c 0) := by
  have node := coh.nodes c
  rw [evicting] at node
  have held : (phase c).view.holds = true := by rw [evicting]; rfl
  obtain rfl : data = current := coh.copies c data (by rw [evicting]; rfl)
  have asked : fwd.invalidated = false := by
    have asked := (coh.owner_facts rfl).2.2
    rwa [evicting] at asked
  have forwards : (s.nodes c).forwardToCache = [] := by rw [coh.evicting_forwards evicting rfl, asked]; rfl
  have dir : s.dir = ⟨.M, [.l1Cache c], none⟩ := coh.dir
  obtain ⟨requests, responses⟩ := coh.memory
  have is : s.dir.requestEvent (.putx c data) = .ok .PUTX := by
    rw [dir]
    exact congrArg _ (if_pos (List.mem_singleton.mpr rfl))
  have done : s.dir.doTransition blockSize ⟨some (.putx c data), none, none⟩ .PUTX =
      .ok ⟨⟨.MI, [], some { tbeState := .MI, dataBlk := data }⟩, [], [], [], [⟨.l1Cache c, .write data⟩], true⟩ := by
    rw [dir]
    rfl
  refine coh.request_popped data (Function.update phase c (.writing false)) (.writing c .evicted) dmaPhase node.requests is
      done rfl rfl
    { nodes := holds_update coh.nodes ⟨⟨data, node.cache⟩, rfl, forwards, node.responses⟩
      linked := by
        rw [view_update]
        exact coh.linked.write held
      copies := copies_update coh.copies nofun
      dir := ⟨{ dataBlk := data }, trivial, rfl⟩
      memory := .inl ⟨.write data, nofun, rfl, by rw [requests]; rfl, responses⟩
      dmas := coh.dmas
      serves := nofun }
    (.quiet (fun _ calm => ⟨trivial, calm.dmas, stale_update calm.nodes rfl⟩) fun settling => settling.elim)

theorem putx_read (coh : Coherent blockSize s current phase (.invalidating c k false) dmaPhase)
    (evicting : phase c = .evicting data fwd) : coh.Goes none .request (.requestQueue c 0) := by
  have node := coh.nodes c
  rw [evicting] at node
  have held : (phase c).view.holds = true := by rw [evicting]; rfl
  obtain rfl : data = current := coh.copies c data (by rw [evicting]; rfl)
  have forwards := coh.evicting_forwards evicting rfl
  obtain ⟨⟨_, address, block, len, _⟩, ⟨rfl, -⟩, dir⟩ := coh.dir
  obtain ⟨requests, responses⟩ := coh.memory
  have is : s.dir.requestEvent (.putx c data) = .ok .PUTX := by
    rw [dir]
    exact congrArg _ (if_pos (List.mem_singleton.mpr rfl))
  have done : s.dir.doTransition blockSize ⟨some (.putx c data), none, none⟩ .PUTX =
      .ok ⟨⟨.M_DRDI, [], some ⟨.M_DRDI, address, block, len, some (.dma k)⟩⟩, [], [], [(.dma k, ⟨.DATA, data⟩)],
        [⟨.l1Cache c, .write data⟩], true⟩ := by
    rw [dir]
    rfl
  refine coh.request_popped data (Function.update phase c (.writing fwd.invalidated)) (.writing c .read)
      (Function.update dmaPhase k (.answered false)) node.requests is done rfl MISystem.sends_dma
    { nodes := holds_update coh.nodes ⟨⟨data, node.cache⟩, rfl, forwards, node.responses⟩
      linked := by
        rw [view_update]
        exact coh.linked.write held
      copies := copies_update coh.copies nofun
      dir := ⟨⟨.I, address, block, len, some (.dma k)⟩, trivial, rfl⟩
      memory := .inl ⟨.write data, nofun, rfl, by rw [requests]; rfl, responses⟩
      dmas := dmas_update coh.dmas (coh.answered rfl data)
      serves := nofun }
    (.quiet (fun _ calm => calm.dir.elim) fun settling => settling.elim)

theorem putx_written (coh : Coherent blockSize s current phase (.invalidating c k true) dmaPhase)
    (evicting : phase c = .evicting data fwd) :
    ∃ tbe, s.dir.tbe = some tbe ∧ InLine blockSize tbe.physicalAddress tbe.len tbe.dataBlk ∧
      coh.Goes (some (s.memory.overwrite (tbe.dataBlk.bytes 0 tbe.len) 0 tbe.len)) .request (.requestQueue c 0) := by
  have node := coh.nodes c
  rw [evicting] at node
  have held : (phase c).view.holds = true := by rw [evicting]; rfl
  obtain rfl : data = current := coh.copies c data (by rw [evicting]; rfl)
  have forwards := coh.evicting_forwards evicting rfl
  obtain ⟨⟨_, address, block, len, _⟩, ⟨rfl, inLine⟩, dir⟩ := coh.dir
  obtain ⟨requests, responses⟩ := coh.memory
  refine ⟨⟨.M_DWR, address, block, len, some (.dma k)⟩, by rw [dir]; rfl, inLine, ?_⟩
  have is : s.dir.requestEvent (.putx c data) = .ok .PUTX := by
    rw [dir]
    exact congrArg _ (if_pos (List.mem_singleton.mpr rfl))
  have done : s.dir.doTransition blockSize ⟨some (.putx c data), none, none⟩ .PUTX =
      .ok ⟨⟨.M_DWRI, [], some ⟨.M_DWRI, address, block, len, some (.dma k)⟩⟩, [], [], [],
        [⟨.l1Cache c, .writePartial 0 (block.bytes 0 len)⟩], true⟩ := by
    have queued := DirectoryContext.queueMemoryWritePartial_ok ⟨s.dir, [], [], [], [], false⟩ (.l1Cache c) block
      (Nat.le_of_add_left_le inLine.1)
    rw [dir] at queued ⊢
    have performed : [DirectoryAction.queueMemoryWBRequestPartialTBE, .clearOwner, .popIncomingRequestQueue].foldlM
        (DirectoryContext.perform blockSize ⟨some (.putx c data), none, none⟩)
        ⟨⟨.M_DWR, [.l1Cache c], some ⟨.M_DWR, address, block, len, some (.dma k)⟩⟩, [], [], [], [], false⟩ =
        .ok ⟨⟨.M_DWR, [], some ⟨.M_DWR, address, block, len, some (.dma k)⟩⟩, [], [], [],
          [⟨.l1Cache c, .writePartial 0 (block.bytes 0 len)⟩], true⟩ := congrArg (· >>= _) queued
    exact Directory.doTransition_ok rfl performed rfl
  have linked : Linked (fun version => (Function.update phase c (.writing fwd.invalidated) version).view)
      (.writing c) := by
    rw [view_update]
    exact coh.linked.write held
  refine coh.request_popped (s.memory.overwrite (block.bytes 0 len) 0 len)
      (Function.update phase c (.writing fwd.invalidated))
      (.writing c (.written k)) dmaPhase node.requests is done rfl rfl
    { nodes := holds_update coh.nodes ⟨⟨data, node.cache⟩, rfl, forwards, node.responses⟩
      linked := linked
      copies := no_copies linked rfl
      dir := ⟨⟨.M_DWR, address, block, len, some (.dma k)⟩, rfl, rfl⟩
      memory := .inl ⟨.writePartial 0 (block.bytes 0 len), nofun, MemoryAccess.applied_bytes .., by rw [requests]; rfl,
        responses⟩
      dmas := coh.dmas
      serves := coh.serves }
    { seen := trivial
      owned := absurd rfl
      current := rfl
      calm := fun _ calm => calm.dir.elim
      takes := fun _ => trivial
      settles := fun settling => settling.elim }

theorem request_recycled (coh : Coherent blockSize s current phase dirPhase dmaPhase) {message : RequestMsg ι κ}
    {event : DirectoryEvent} (messages : (s.nodes c).requestFromCache = [message])
    (is : s.dir.requestEvent message = .ok event) (apart : (dirPhase.state != .M && dirPhase.state != .I) = true)
    (recycles : Directory.transition dirPhase.state event = some ([.recycleRequestQueue], dirPhase.state)) :
    coh.Goes none kind (.requestQueue c 0) := by
  refine coh.stay ?_
  have found : (s.nodes c).requestFromCache[0]? = some message := by rw [messages]; rfl
  obtain ⟨tbe, busy⟩ := coh.dir.busy apart
  rw [MISystem.step, found]
  show (s.dir.requestEvent message >>= _) = _
  rw [is]
  show (s.runDirectory blockSize event _ _ >>= fun next => _) = _
  rw [MISystem.runDirectory_recycle (Directory.recycle busy apart recycles (.inl rfl))]
  rfl

theorem getx (coh : Coherent blockSize s current phase dirPhase dmaPhase) (asking : phase c = .asking) :
    coh.Goes none .request (.requestQueue c 0) := by
  have node := coh.nodes c
  rw [asking] at node
  cases dirPhase with
  | idle => exact coh.getx_idle asking
  | owned o => exact coh.getx_owned asking
  | invalidating o k write =>
    cases write with
    | false | true => exact coh.request_recycled node.requests rfl rfl rfl
  | writing version back =>
    cases back with
    | evicted | read | written => exact coh.request_recycled node.requests rfl rfl rfl
  | fetching | dmaReading | dmaWriting => exact coh.request_recycled node.requests rfl rfl rfl

theorem putx_other (coh : Coherent blockSize s current phase dirPhase dmaPhase)
    (putting : (∃ fwd, phase c = .evicting data fwd) ∨ phase c = .passed data)
    (other : dirPhase.role.owner? ≠ some c) (messages : (s.nodes c).requestFromCache = [.putx c data])
    (is : s.dir.requestEvent (.putx c data) = .ok .PUTX_NotOwner)
    (done : s.dir.doTransition blockSize ⟨some (.putx c data), none, none⟩ .PUTX_NotOwner =
      .ok ⟨s.dir, [(.l1Cache c, .wbNack c)], [], [], [], true⟩) : coh.Goes none .request (.requestQueue c 0) := by
  have node := coh.nodes c
  obtain ⟨fwd, evicting⟩ | passed := putting
  · rw [evicting] at node
    cases fwd with
    | request next =>
      refine coh.putx_refused (p := .refused true data next) messages is done ⟨node.cache, rfl, ?_, node.responses⟩
        (by rw [evicting]; rfl) (fun copy same => coh.copies c copy ?_) rfl
      · rw [node.forwards]
        rfl
      · rw [evicting]
        exact same
    | nothing | invalidation => exact absurd (coh.linked.last c (by rw [evicting]; rfl) (by rw [evicting]; rfl)) other
  · rw [passed] at node
    refine coh.putx_refused (p := .rejected) messages is done ⟨node.cache, rfl, ?_, node.responses⟩
      (by rw [passed]; rfl) nofun rfl
    rw [node.forwards]
    rfl

/-- **A writeback**, of the owner or of a cache that has passed the line on. -/
theorem putx (coh : Coherent blockSize s current phase dirPhase dmaPhase)
    (putting : (∃ fwd, phase c = .evicting data fwd) ∨ phase c = .passed data)
    (handled : s.servesDMA → .l1Cache c ∈ s.dir.owner) :
    coh.Goes (s.overwritten (.requestQueue c 0 : MIAction ι κ blockSize)) .request (.requestQueue c 0) := by
  have messages : (s.nodes c).requestFromCache = [.putx c data] := by
    rw [(coh.nodes c).requests]
    obtain ⟨fwd, evicting⟩ | passed := putting
    · rw [evicting]
      rfl
    · rw [passed]
      rfl
  have state := coh.dir.state
  have plain (other : (dirPhase.state == .M_DWR) = false) : s.overwritten (.requestQueue c 0 : MIAction ι κ blockSize) = none :=
    MISystem.overwritten_request fun found => absurd (state.symm.trans found) (ne_of_beq_false other)
  -- a cache that has passed the line on is not the owner
  have evicting_of_owner (owner : dirPhase.role.owner? = some c) : ∃ fwd, phase c = .evicting data fwd := by
    refine putting.resolve_right fun passed => ?_
    have linked := (coh.linked.owner c owner).1
    rw [passed] at linked
    exact absurd linked Bool.false_ne_true
  cases dirPhase with
  | idle =>
    have dir : s.dir = ⟨.I, [], none⟩ := coh.dir
    rw [plain rfl]
    exact coh.putx_other putting (Option.some_ne_none c).symm messages (by rw [dir]; rfl) (by rw [dir]; rfl)
  | owned o =>
    have dir : s.dir = ⟨.M, [.l1Cache o], none⟩ := coh.dir
    rw [plain rfl]
    by_cases same : o = c
    · subst same
      obtain ⟨fwd, evicting⟩ := evicting_of_owner rfl
      exact coh.putx_owner evicting
    · refine coh.putx_other putting (fun owner => same (Option.some.inj owner)) messages ?_ (by rw [dir]; rfl)
      rw [dir]
      exact congrArg _ (if_neg fun member => same (MachineID.l1Cache.inj (List.mem_singleton.mp member)).symm)
  | invalidating o k write =>
    obtain ⟨tbe, -, dir⟩ := coh.dir
    have same : o = c := by
      have member : .l1Cache c ∈ s.dir.owner := handled (by
        rw [MISystem.servesDMA, state]
        cases write <;> simp [DirectoryPhase.state])
      rw [dir] at member
      exact (MachineID.l1Cache.inj (List.mem_singleton.mp member)).symm
    subst same
    obtain ⟨fwd, evicting⟩ := evicting_of_owner rfl
    cases write with
    | false =>
      rw [plain rfl]
      exact coh.putx_read evicting
    | true =>
      obtain ⟨tbe', found, -, continues⟩ := coh.putx_written evicting
      have taken : s.takenWrite (.requestQueue o 0 : MIAction ι κ blockSize) =
          some ⟨data, tbe'.physicalAddress, tbe'.len, tbe'.dataBlk⟩ := by
        have owner : .l1Cache o ∈ s.dir.owner := by
          rw [dir]
          exact List.mem_singleton.mpr rfl
        have first : (s.nodes o).requestFromCache[0]? = some (.putx o data) := by rw [messages]; rfl
        simp only [MISystem.takenWrite, state, DirectoryPhase.state, found, first]
        exact if_pos ⟨rfl, owner⟩
      rw [MISystem.overwritten, taken]
      exact continues
  | writing version back =>
    cases back with
    | evicted =>
      rw [plain rfl]
      refine coh.request_recycled messages rfl rfl ?_
      split <;> rfl
    | read | written =>
      -- there is no owner
      obtain ⟨tbe, -, dir⟩ := coh.dir
      have member := handled (by simp [MISystem.servesDMA, state, DirectoryPhase.state])
      rw [dir] at member
      exact absurd member List.not_mem_nil
  | fetching | dmaReading | dmaWriting =>
    rw [plain rfl]
    refine coh.request_recycled messages rfl rfl ?_
    split <;> rfl

/-- **The directory gets a request of a cache.** -/
theorem requestQueue (coh : Coherent blockSize s current phase dirPhase dmaPhase) {i : Nat}
    (handled : s.Handled (.requestQueue c i : MIAction ι κ blockSize)) :
    coh.Goes (s.overwritten (.requestQueue c i : MIAction ι κ blockSize)) .request (.requestQueue c i) := by
  have requests := (coh.nodes c).requests
  have nothing (none : (s.nodes c).requestFromCache[i]? = none) :
      coh.Goes (s.overwritten (.requestQueue c i : MIAction ι κ blockSize)) .request (.requestQueue c i) := by
    rw [MISystem.overwritten_request fun _ message found => absurd (none.symm.trans found) nofun]
    exact coh.request_none none
  have put {data : DataBlock} (putting : (∃ fwd, phase c = .evicting data fwd) ∨ phase c = .passed data)
      (messages : (s.nodes c).requestFromCache = [.putx c data]) :
      coh.Goes (s.overwritten (.requestQueue c i : MIAction ι κ blockSize)) .request (.requestQueue c i) := by
    cases i with
    | zero => exact coh.putx putting fun busy => handled busy (.putx c data) (by rw [messages]; rfl) rfl
    | succ i => exact nothing (by rw [messages]; rfl)
  cases is : phase c with
  | asking =>
    rw [is] at requests
    cases i with
    | zero =>
      rw [MISystem.overwritten_request fun _ message found => ?_]
      · exact coh.getx is
      · rw [requests] at found
        obtain rfl := Option.some.inj found
        nofun
    | succ i => exact nothing (by rw [requests]; rfl)
  | evicting data fwd => exact put (.inl ⟨fwd, is⟩) (by rw [requests, is]; rfl)
  | passed data => exact put (.inr is) (by rw [requests, is]; rfl)
  | _ => exact nothing (by rw [requests, is]; rfl)

end Coherent

end Emas.Ruby

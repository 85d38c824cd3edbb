/-
**The memory and the DMA controllers of the MI protocol.**
-/

import Emas.Ruby.MIDirectorySends

namespace Emas.Ruby

variable {ι κ : Type}

/-! ### The memory -/

theorem MISystem.answerMemory_write {s : MISystem ι κ} {id : MachineID ι κ} {access : MemoryAccess}
    (writes : access ≠ .read) :
    s.answerMemory ⟨id, access⟩ = { s with
      memory := access.applied s.memory
      responseFromMemory := s.responseFromMemory ++ [{ type := .MEMORY_WB, originalRequestorMachId := id }] } := by
  cases access with
  | read => exact absurd rfl writes
  | write | writePartial => rfl

theorem MISystem.answerMemory_frame (s : MISystem ι κ) (request : MemoryRequest ι κ) :
    (s.answerMemory request).nodes = s.nodes ∧ (s.answerMemory request).dmas = s.dmas ∧
      (s.answerMemory request).dir = s.dir := by
  rw [answerMemory]
  split <;> exact ⟨rfl, rfl, rfl⟩

namespace DirectoryPhase

variable {s : MISystem ι κ} {current : DataBlock} {id : MachineID ι κ} {request : MemoryRequest ι κ} {i : Nat}

theorem Reading.answer (reading : Reading current id s) (found : s.memoryRequests[i]? = some request) :
    Reading current id ({ s with memoryRequests := s.memoryRequests.eraseIdx i }.answerMemory request) := by
  obtain ⟨memory, ⟨requests, responses⟩ | ⟨requests, -⟩⟩ := reading
  · rw [requests] at found
    cases i with
    | zero =>
      obtain rfl := Option.some.inj found
      refine ⟨memory, .inr ⟨?_, ?_⟩⟩
      · show s.memoryRequests.eraseIdx 0 = []
        rw [requests]
        rfl
      · show s.responseFromMemory ++ [⟨.MEMORY_READ, id, s.memory⟩] = _
        rw [responses, memory]
        rfl
    | succ i => cases found
  · rw [requests] at found
    cases found

theorem Writing.answer (writing : Writing current id s) (found : s.memoryRequests[i]? = some request) :
    Writing current id ({ s with memoryRequests := s.memoryRequests.eraseIdx i }.answerMemory request) := by
  obtain ⟨access, writes, applied, requests, responses⟩ | ⟨-, requests, -⟩ := writing
  · rw [requests] at found
    cases i with
    | zero =>
      obtain rfl := Option.some.inj found
      rw [MISystem.answerMemory_write writes]
      refine .inr ⟨applied, ?_, ?_⟩
      · show s.memoryRequests.eraseIdx 0 = []
        rw [requests]
        rfl
      · show s.responseFromMemory ++ _ = _
        rw [responses]
        rfl
    | succ i => cases found
  · rw [requests] at found
    cases found

end DirectoryPhase

namespace Coherent

variable {blockSize : Nat} {s : MISystem ι κ} {current : DataBlock} {phase : ι → Phase ι}
  {dirPhase : DirectoryPhase ι κ} {dmaPhase : κ → DMAPhase} {c : ι} {k : κ} {back : Return κ} {kind : StepKind}

theorem answered_memory (coh : Coherent blockSize s current phase dirPhase dmaPhase) {request : MemoryRequest ι κ} {i : Nat}
    (found : s.memoryRequests[i]? = some request) :
    dirPhase.Memory current ({ s with memoryRequests := s.memoryRequests.eraseIdx i }.answerMemory request) := by
  have memory := coh.memory
  cases dirPhase with
  | idle =>
    rw [memory.2.1] at found
    cases found
  | owned | invalidating =>
    rw [memory.1] at found
    cases found
  | fetching | dmaReading => exact DirectoryPhase.Reading.answer memory found
  | writing | dmaWriting => exact DirectoryPhase.Writing.answer memory found

/-- **The memory answers a packet.** -/
theorem memoryAnswers [DecidableEq ι] [DecidableEq κ] (coh : Coherent blockSize s current phase dirPhase dmaPhase)
    (i : Nat) : coh.Goes none kind (.memory i) := by
  cases found : s.memoryRequests[i]? with
  | none => exact coh.stay (by rw [MISystem.step, found])
  | some request =>
    have memory := coh.answered_memory found
    obtain ⟨nodes, dmas, dir⟩ := { s with memoryRequests := s.memoryRequests.eraseIdx i }.answerMemory_frame request
    refine ⟨{ s with memoryRequests := s.memoryRequests.eraseIdx i }.answerMemory request, [], current, phase, dirPhase,
      dmaPhase, by rw [MISystem.step, found], ?_, ?_⟩
    · exact
        { nodes := fun version => by rw [nodes]; exact coh.nodes version
          linked := coh.linked
          copies := coh.copies
          dir := by rw [dir]; exact coh.dir
          memory := memory
          dmas := fun version => by rw [dmas]; exact coh.dmas version
          serves := coh.serves }
    · exact .quiet (fun _ calm => calm) fun settling _ => settling

/-! ### Messages of the memory -/

section MemQueue

variable [DecidableEq ι] [DecidableEq κ]

theorem memory_popped (phase' : ι → Phase ι) (dirPhase' : DirectoryPhase ι κ) (dmaPhase' : κ → DMAPhase)
    {message : MemoryMsg ι κ} {ctx : DirectoryContext ι κ} {sent : MISystem ι κ} {i : Nat}
    (coh : Coherent blockSize s current phase dirPhase dmaPhase) (messages : s.responseFromMemory = [message])
    (done : s.dir.doTransition blockSize ⟨none, none, some message⟩ (Directory.memoryEvent message) = .ok ctx)
    (popped : ctx.popped = true) (sends : (ctx.forwards.foldlM MISystem.sendForward
          { s with
            dir := ctx.dir
            memoryRequests := s.memoryRequests ++ ctx.memoryRequests
            responseFromMemory := [] } >>= fun sent =>
        ctx.responses.foldlM MISystem.sendResponse sent >>= fun sent =>
          ctx.dmaResponses.foldlM MISystem.sendDMAResponse sent) = .ok sent)
    (coherent : Coherent blockSize sent current phase' dirPhase' dmaPhase')
    (effect : Effect none kind current phase dirPhase dmaPhase [] current phase' dirPhase' dmaPhase') :
    coh.Goes none kind (.memQueue i) := by
  cases i with
  | zero =>
    refine ⟨sent, [], current, phase', dirPhase', dmaPhase', ?_, coherent, effect⟩
    have found : s.responseFromMemory[0]? = some message := by rw [messages]; rfl
    rw [MISystem.step, found]
    show (s.runDirectory blockSize _ _ _ >>= fun next => _) = _
    have removed : { s with responseFromMemory := s.responseFromMemory.eraseIdx 0 } =
        { s with responseFromMemory := [] } := by
      rw [messages]
      rfl
    rw [MISystem.runDirectory_popped done popped removed]
    exact congrArg (· >>= fun next => .ok (next, [])) sends
  | succ i => exact coh.stay (by rw [MISystem.step, messages]; rfl)

theorem fetched (coh : Coherent blockSize s current phase (.fetching c) dmaPhase)
    (messages : s.responseFromMemory = [⟨.MEMORY_READ, .l1Cache c, current⟩]) (requests : s.memoryRequests = []) (i : Nat) :
    coh.Goes none kind (.memQueue i) := by
  have fetching := Phase.fetching_of_view ((coh.linked.fetching c).mpr rfl)
  have node := coh.nodes c
  rw [fetching] at node
  obtain ⟨tbe, -, dir⟩ := coh.dir
  have done : s.dir.doTransition blockSize ⟨none, none, some ⟨.MEMORY_READ, .l1Cache c, current⟩⟩ .Memory_Data =
      .ok ⟨⟨.M, [.l1Cache c], none⟩, [], [(.l1Cache c, ⟨current⟩)], [], [], true⟩ := by
    rw [dir]
    rfl
  have granted : (Phase.granted current .nothing).Holds c
      { s.nodes c with responseToCache := (s.nodes c).responseToCache ++ [⟨current⟩] } :=
    ⟨node.cache, node.requests, node.forwards, by rw [node.responses]; rfl⟩
  exact memory_popped (Function.update phase c (.granted current .nothing)) (.owned c) dmaPhase coh messages done rfl rfl
    { nodes := holds_update coh.nodes granted
      linked := by
        rw [view_update]
        exact coh.linked.grant
      copies := copies_update coh.copies fun copy same => (Option.some.inj same).symm
      dir := rfl
      memory := ⟨by rw [requests]; rfl, rfl⟩
      dmas := coh.dmas
      serves := nofun }
    (.quiet (fun _ calm => ⟨trivial, calm.dmas, stale_update calm.nodes rfl⟩) fun settling => settling.elim)

theorem written_back (coh : Coherent blockSize s current phase (.writing c back) dmaPhase) (memory : s.memory = current)
    (messages : s.responseFromMemory = [{ type := .MEMORY_WB, originalRequestorMachId := .l1Cache c }])
    (requests : s.memoryRequests = []) (i : Nat) :
    coh.Goes none kind (.memQueue i) := by
  obtain ⟨inv, writing⟩ := Phase.writing_of_view ((coh.linked.writing c).mpr rfl)
  have node := coh.nodes c
  rw [writing] at node
  have acked : (Phase.acked inv).Holds c
      { s.nodes c with forwardToCache := (s.nodes c).forwardToCache ++ [.wbAck c] } :=
    ⟨node.cache, node.requests, by rw [node.forwards]; rfl, node.responses⟩
  have linked : Linked (fun version => (Function.update phase c (.acked inv) version).view) .free := by
    rw [view_update]
    exact coh.linked.finish
  have stale (calm : Undisturbed phase (.writing c back) dmaPhase) (version : ι) :
      (Function.update phase c (.acked inv) version).stale = false := by
    refine stale_update calm.nodes ?_ version
    have fresh := calm.nodes c
    rwa [writing] at fresh
  have acknowledged (done : s.dir.doTransition blockSize
      ⟨none, none, some { type := .MEMORY_WB, originalRequestorMachId := .l1Cache c }⟩ .Memory_Ack =
      .ok ⟨⟨.I, [], none⟩, [(.l1Cache c, .wbAck c)], [], [], [], true⟩) :
      coh.Goes none kind (.memQueue i) :=
    memory_popped (Function.update phase c (.acked inv)) .idle dmaPhase coh messages done rfl
      (MISystem.sends_forward rfl)
      { nodes := holds_update coh.nodes acked
        linked := linked
        copies := no_copies linked rfl
        dir := rfl
        memory := ⟨memory, by rw [requests]; rfl, rfl⟩
        dmas := coh.dmas
        serves := nofun }
      (.quiet (fun _ calm => ⟨trivial, calm.dmas, stale calm⟩) fun _ _ => trivial)
  cases back with
  | evicted | read =>
    obtain ⟨tbe, -, dir⟩ := coh.dir
    exact acknowledged (by rw [dir]; rfl)
  | written k =>
    obtain ⟨⟨_, address, block, len, _⟩, rfl, dir⟩ := coh.dir
    have done : s.dir.doTransition blockSize
        ⟨none, none, some { type := .MEMORY_WB, originalRequestorMachId := .l1Cache c }⟩ .Memory_Ack =
        .ok ⟨⟨.I, [], none⟩, [(.l1Cache c, .wbAck c)], [], [(.dma k, { type := .ACK })], [], true⟩ := by
      rw [dir]
      rfl
    exact memory_popped (Function.update phase c (.acked inv)) .idle (Function.update dmaPhase k (.answered true)) coh
      messages done rfl rfl
      { nodes := holds_update coh.nodes acked
        linked := linked
        copies := no_copies linked rfl
        dir := rfl
        memory := ⟨memory, by rw [requests]; rfl, rfl⟩
        dmas := dmas_update coh.dmas (coh.answered rfl .clear)
        serves := nofun }
      (.quiet (fun _ calm => calm.dir.elim) fun _ _ => trivial)

theorem served (coh : Coherent blockSize s current phase dirPhase dmaPhase) {write : Bool}
    (serves : dirPhase.serves = some (k, write)) (free : dirPhase.role = .free) (memory : s.memory = current)
    (messages : s.responseFromMemory =
      [⟨if write then .MEMORY_WB else .MEMORY_READ, .dma k, if write then .clear else current⟩])
    (requests : s.memoryRequests = []) (i : Nat) : coh.Goes none kind (.memQueue i) := by
  have done : s.dir.doTransition blockSize
      ⟨none, none, some ⟨if write then .MEMORY_WB else .MEMORY_READ, .dma k, if write then .clear else current⟩⟩
      (Directory.memoryEvent (⟨if write then .MEMORY_WB else .MEMORY_READ, .dma k, if write then .clear else current⟩ :
        MemoryMsg ι κ)) =
      .ok ⟨⟨.I, [], none⟩, [], [], [(.dma k, ⟨if write then .ACK else .DATA, if write then .clear else current⟩)], [],
        true⟩ := by
    have fits := coh.dir
    cases dirPhase with
    | dmaReading | dmaWriting =>
      obtain ⟨rfl, rfl⟩ := Prod.mk.inj (Option.some.inj serves)
      obtain ⟨⟨_, address, block, len, _⟩, rfl, dir⟩ := fits
      rw [dir]
      rfl
    | idle => cases serves
    | _ => cases free
  have linked : Linked (fun version => (phase version).view) .free := free ▸ coh.linked
  exact memory_popped phase .idle (Function.update dmaPhase k (.answered write)) coh messages done rfl
    MISystem.sends_dma
    { nodes := coh.nodes
      linked := linked
      copies := no_copies linked rfl
      dir := rfl
      memory := ⟨memory, by rw [requests]; rfl, rfl⟩
      dmas := dmas_update coh.dmas (coh.answered serves _)
      serves := nofun }
    (.quiet (fun _ calm => absurd ((coh.serves k write serves).symm.trans (calm.dmas k)) nofun) fun _ _ => trivial)

/-- **The directory gets a message of the memory.** -/
theorem memQueue (coh : Coherent blockSize s current phase dirPhase dmaPhase) (i : Nat) :
    coh.Goes none kind (.memQueue i) := by
  have nothing (none : s.responseFromMemory = []) :
      coh.Goes .none kind (.memQueue i) := coh.stay (by rw [MISystem.step, none]; rfl)
  have memory := coh.memory
  cases dirPhase with
  | idle => exact nothing memory.2.2
  | owned | invalidating => exact nothing memory.2
  | fetching c =>
    obtain ⟨-, ⟨-, responses⟩ | ⟨requests, responses⟩⟩ := memory
    · exact nothing responses
    · exact coh.fetched responses requests i
  | dmaReading k =>
    obtain ⟨memory, ⟨-, responses⟩ | ⟨requests, responses⟩⟩ := memory
    · exact nothing responses
    · exact coh.served rfl rfl memory responses requests i
  | writing c back =>
    obtain ⟨access, -, -, -, responses⟩ | ⟨memory, requests, responses⟩ := memory
    · exact nothing responses
    · exact coh.written_back memory responses requests i
  | dmaWriting k =>
    obtain ⟨access, -, -, -, responses⟩ | ⟨memory, requests, responses⟩ := memory
    · exact nothing responses
    · exact coh.served rfl rfl memory responses requests i

end MemQueue

/-! ### The DMA controllers -/

section DMA

variable [DecidableEq κ]

omit [DecidableEq κ] in
theorem message_inLine (write : Bool) (offset : Fin blockSize) (len : Nat) (data : List UInt8) :
    InLine blockSize offset (DMASequencer.message write offset len data).len
      (DMASequencer.message write offset len data).dataBlk := by
  constructor
  · have inside := offset.2
    show offset.1 + (if offset.1 + len ≤ blockSize then len else blockSize - offset.1) ≤ blockSize
    split
    · assumption
    · omega
  · intro i outside
    cases write with
    | false => rfl
    | true => exact if_neg outside

theorem setDMA (coh : Coherent blockSize s current phase dirPhase dmaPhase) {q : DMAPhase} {dma : DMANode ι κ}
    (holds : q.Holds blockSize k dma) (unserved : ∀ write, dmaPhase k ≠ .served write) :
    Coherent blockSize (s.setDMA k dma) current phase dirPhase (Function.update dmaPhase k q) where
  nodes := coh.nodes
  linked := coh.linked
  copies := coh.copies
  dir := coh.dir
  memory := coh.memory
  dmas := dmas_update coh.dmas holds
  serves version write serves := by
    have served := coh.serves version write serves
    rw [Function.update_of_ne]
    · exact served
    · rintro rfl
      exact unserved write served

theorem runDMA_busy {write : Bool} {event : DMAEvent} {message : SequencerMsg}
    (busy : DMAPhase.Busy write (s.dmas k).tbe) (asks : event = .ReadRequest ∨ event = .WriteRequest) :
    s.runDMA k event (some message) none id = .ok s := by
  obtain ⟨data, tbe⟩ := busy
  have done : DMATBE.doTransition k (some message) none event (s.dmas k).tbe =
      .ok (⟨(s.dmas k).tbe, [], false⟩ : DMAContext ι κ) := by
    rw [tbe]
    obtain rfl | rfl := asks <;> cases write <;> rfl
  rw [MISystem.runDMA, done]
  show Except.ok (s.setDMA k { s.dmas k with requestToDir := (s.dmas k).requestToDir ++ [] }) = _
  rw [List.append_nil, MISystem.setDMA, Function.update_eq_self]

/-- **A DMA controller gets a request.** -/
theorem dmaRequest [DecidableEq ι] (coh : Coherent blockSize s current phase dirPhase dmaPhase) (write : Bool)
    (offset : Fin blockSize) (len : Nat) (data : List UInt8) :
    coh.Goes none .dma (.dmaRequest k write offset len data) := by
  have dma := coh.dmas k
  have waits {busy : Bool} (tbe : DMAPhase.Busy busy (s.dmas k).tbe) :
      coh.Goes none .dma (.dmaRequest k write offset len data) := by
    refine coh.stay ?_
    rw [MISystem.step]
    show (s.runDMA k _ _ _ _ >>= _) = _
    rw [runDMA_busy tbe (by cases write <;> simp)]
    rfl
  cases is : dmaPhase k with
  | ready =>
    rw [is] at dma
    have here : s.dmas k = ⟨none, [], []⟩ := dma
    have message := message_inLine write offset len data
    let asked : DMARequestMsg ι κ := ⟨if write then .WRITE else .READ, offset, .dma k,
      (DMASequencer.message write offset len data).dataBlk, (DMASequencer.message write offset len data).len⟩
    have done : s.step (.dmaRequest k write offset len data : MIAction ι κ blockSize) =
        .ok (s.setDMA k ⟨some ⟨if write then .BUSY_WR else .BUSY_RD, .clear⟩, [asked], []⟩, []) := by
      rw [MISystem.step, MISystem.runDMA, here]
      cases write <;> rfl
    refine ⟨_, [], current, phase, dirPhase, Function.update dmaPhase k (.asking write), done,
      coh.setDMA ⟨⟨_, rfl⟩, rfl, _, _, _, message, rfl⟩ (by rw [is]; nofun), ?_⟩
    exact (.quiet (fun other => absurd rfl other) fun settling _ => settling)
  | asking | served | answered =>
    rw [is] at dma
    exact waits dma.1

/-- **A DMA controller gets the response.** -/
theorem dmaResponseQueue [DecidableEq ι] (coh : Coherent blockSize s current phase dirPhase dmaPhase) (i : Nat) :
    coh.Goes none kind (.dmaResponseQueue k i) := by
  have dma := coh.dmas k
  have nothing (none : (s.dmas k).responseFromDir = []) :
      coh.Goes .none kind (.dmaResponseQueue k i) := coh.stay (by rw [MISystem.step, none]; rfl)
  cases is : dmaPhase k with
  | ready =>
    rw [is] at dma
    exact nothing (by rw [dma])
  | asking =>
    rw [is] at dma
    exact nothing dma.2.1
  | served =>
    rw [is] at dma
    exact nothing dma.2.2
  | answered write =>
    rw [is] at dma
    obtain ⟨⟨old, tbe⟩, requests, data, responses⟩ := dma
    cases i with
    | zero =>
      have here : s.dmas k = ⟨some ⟨if write then .BUSY_WR else .BUSY_RD, old⟩, [],
          [⟨if write then .ACK else .DATA, data⟩]⟩ :=
        calc s.dmas k = ⟨(s.dmas k).tbe, (s.dmas k).requestToDir, (s.dmas k).responseFromDir⟩ := rfl
          _ = _ := by rw [tbe, requests, responses]
      have done : s.step (.dmaResponseQueue k 0 : MIAction ι κ blockSize) = .ok (s.setDMA k ⟨none, [], []⟩, []) := by
        have found : (s.dmas k).responseFromDir[0]? = some ⟨if write then .ACK else .DATA, data⟩ := by
          rw [responses]
          rfl
        rw [MISystem.step, found]
        show (s.runDMA k _ none (some _) _ >>= _) = _
        rw [MISystem.runDMA, here]
        cases write <;> rfl
      refine ⟨_, [], current, phase, dirPhase, Function.update dmaPhase k .ready, done,
        coh.setDMA rfl (by rw [is]; nofun), ?_⟩
      exact .quiet (fun _ calm => absurd (is.symm.trans (calm.dmas k)) nofun) fun settling _ => settling
    | succ i => exact coh.stay (by rw [MISystem.step, responses]; rfl)

end DMA

end Coherent

end Emas.Ruby

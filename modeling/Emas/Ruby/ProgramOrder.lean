/-
**The sequencer completes the requests of a line in order.**

`LineSpec` executes the requests of each line one after another: at most one of a line is in the caches, and the front one
is completed first, with the data that all before it have left.

* `SequencerRun.refines_program_order` — **every run of requests and callbacks is one of the specification**, and the
  assertions hold.
-/

import Emas.Lib.PartialRun
import Emas.Ruby.Sequencer

namespace Emas.Ruby

open Gem5

/-! ### One request after another -/

/-- What a request does to its line, and what it reads. -/
def execute (blockBits : Nat) (pkt : Packet) (line : DataBlock) : DataBlock × List UInt8 :=
  let offset := (getOffset blockBits pkt.addr).toNat
  if pkt.isFlush then (line, pkt.data)
  else if pkt.isWrite then
    if pkt.req.isSwap then (line.overwrite pkt.writeData offset pkt.size, line.bytes offset pkt.size)
    else (line.overwrite pkt.data offset pkt.size, pkt.data)
  else (line, line.bytes offset pkt.size)

/-- For each line the pending requests, whether one is in the caches, and the data; and the number of all requests. -/
structure LineSpec where
  pending : Addr → List SequencerRequest
  busy : Addr → Bool
  data : Addr → DataBlock
  outstanding : Nat

namespace LineSpec

variable (cfg : SequencerConfig) {spec next : LineSpec}

def init (data : Addr → DataBlock) : LineSpec := ⟨fun _ => [], fun _ => false, data, 0⟩

/-- A request joins the others of its line, if there are not too many; the front one goes to the caches, if none of its
line is there; it is completed when the caches have answered. -/
def step (spec : LineSpec) : SequencerEvent → Option LineSpec
  | .accepted request =>
    let line := makeLineAddress cfg.blockBits request.pkt.addr
    if spec.outstanding < cfg.maxOutstandingRequests then
      some { spec with
        pending := Function.update spec.pending line (spec.pending line ++ [request])
        outstanding := spec.outstanding + 1 }
    else none
  | .issued message =>
    let line := makeLineAddress cfg.blockBits message.physicalAddress
    if !spec.busy line ∧
        (spec.pending line).head?.map (fun front => ⟨front.pkt.addr, front.secondType⟩) = some message then
      some { spec with busy := Function.update spec.busy line true }
    else none
  | .answered line => if spec.busy line then some { spec with busy := Function.update spec.busy line false } else none
  | .completed line request answer =>
    if !spec.busy line ∧ (spec.pending line).head? = some request ∧
        answer = (execute cfg.blockBits request.pkt (spec.data line)).2 then
      some { spec with
        pending := Function.update spec.pending line (spec.pending line).tail
        data := Function.update spec.data line (execute cfg.blockBits request.pkt (spec.data line)).1
        outstanding := spec.outstanding - 1 }
    else none
  | .external line data => some { spec with data := Function.update spec.data line data }

/-- The specification allows these events, one after another. -/
abbrev replay (spec : LineSpec) (events : List SequencerEvent) : Option LineSpec := tryActions (step cfg) spec events

/-- The accepted requests of a line. -/
def acceptedOf (line : Addr) (events : List SequencerEvent) : List SequencerRequest :=
  events.filterMap fun
    | .accepted request => if makeLineAddress cfg.blockBits request.pkt.addr = line then some request else none
    | _ => none

/-- The completed requests of a line. -/
def completedOf (line : Addr) (events : List SequencerEvent) : List SequencerRequest :=
  events.filterMap fun
    | .completed address request _ => if address = line then some request else none
    | _ => none

variable {cfg}

theorem accepted_step {event : SequencerEvent} (line : Addr) (taken : spec.step cfg event = some next) :
    spec.pending line ++ acceptedOf cfg line [event] = completedOf line [event] ++ next.pending line := by
  cases event with
  | accepted request =>
    rw [step] at taken
    split at taken
    · obtain rfl := Option.some.inj taken
      by_cases same : makeLineAddress cfg.blockBits request.pkt.addr = line
      · subst same
        simp [acceptedOf, completedOf]
      · simp [acceptedOf, completedOf, same, Function.update_of_ne (Ne.symm same)]
    · exact nomatch taken
  | issued message =>
    rw [step] at taken
    split at taken
    · obtain rfl := Option.some.inj taken
      simp [acceptedOf, completedOf]
    · exact nomatch taken
  | answered address =>
    rw [step] at taken
    split at taken
    · obtain rfl := Option.some.inj taken
      simp [acceptedOf, completedOf]
    · exact nomatch taken
  | completed address request answer =>
    rw [step] at taken
    split at taken
    next holds =>
      obtain rfl := Option.some.inj taken
      by_cases same : address = line
      · subst same
        obtain ⟨rest, front⟩ := List.head?_eq_some_iff.mp holds.2.1
        simp [acceptedOf, completedOf, front]
      · simp [acceptedOf, completedOf, same, Function.update_of_ne (Ne.symm same)]
    · exact nomatch taken
  | external address data =>
    obtain rfl := Option.some.inj taken
    simp [acceptedOf, completedOf]

/-- **An accepted request is completed once, in order, or still pending.** -/
theorem accepted_eq {events : List SequencerEvent} (line : Addr) (run : spec.replay cfg events = some next) :
    spec.pending line ++ acceptedOf cfg line events = completedOf line events ++ next.pending line := by
  induction events generalizing spec with
  | nil =>
    obtain rfl := Option.some.inj run
    simp [acceptedOf, completedOf]
  | cons event rest ih =>
    obtain ⟨middle, taken, onward⟩ := tryActions_cons run
    have first := accepted_step line taken
    have others := ih onward
    rw [show event :: rest = [event] ++ rest from rfl, acceptedOf, completedOf, List.filterMap_append,
      List.filterMap_append, ← List.append_assoc]
    rw [show List.filterMap _ [event] = acceptedOf cfg line [event] from rfl, first, List.append_assoc,
      List.append_assoc]
    exact congrArg _ others

theorem replay_snoc {start : LineSpec} {events : List SequencerEvent} {event : SequencerEvent}
    (run : start.replay cfg events = some spec) (taken : spec.step cfg event = some next) :
    start.replay cfg (events ++ [event]) = some next := by
  have first : tryActions (step cfg) start events = some spec := run
  have last : tryActions (step cfg) spec [event] = some next := Option.bind_eq_some_iff.mpr ⟨next, taken, rfl⟩
  rw [replay, tryActions_append, first]
  exact last

end LineSpec

namespace Sequencer

variable {cfg : SequencerConfig} {start spec : LineSpec} {quiet : Set Addr} {now : Nat} {lines : Addr → DataBlock}
  {seq next : Sequencer} {line address : Addr} {pkt : Packet} {request : SequencerRequest}

/-! ### Requests that fit -/

/-- What `makeRequest` is called with: a load, store, swap, instruction fetch, access of a locked pair, or a flush, inside
its line. -/
def Fits (cfg : SequencerConfig) (pkt : Packet) : Prop :=
  !pkt.isLLSC ∧ (pkt.isWrite ∨ pkt.isRead ∨ !pkt.req.isLockedRMW ∧ pkt.isFlush) ∧
    (getOffset cfg.blockBits pkt.addr).toNat + pkt.size ≤ 2 ^ cfg.blockBits

instance (cfg : SequencerConfig) (pkt : Packet) : Decidable (Fits cfg pkt) := by unfold Fits; infer_instance

/-- The types of a packet that fits. -/
inductive Kind (pkt : Packet) : RubyRequestType → RubyRequestType → Prop
  | store (write : pkt.isWrite) : Kind pkt .st .st
  | lockedWrite (write : pkt.isWrite) : Kind pkt .lockedRmwWrite .st
  | read {type second : RubyRequestType} (noWrite : pkt.isWrite = false)
      (reads : type ∈ [.ld, .ifetch, .rmwRead, .lockedRmwRead, .loadLinked])
      (same : type.isLoad = second.isLoad) : Kind pkt type second
  | flush (noWrite : pkt.isWrite = false) (flush : pkt.isFlush) : Kind pkt .flush .flush

theorem requestTypes_of_fits (fits : Fits cfg pkt) :
    ∃ primary second, requestTypes cfg pkt = some (primary, second) ∧ Kind pkt primary second := by
  obtain ⟨plain, kind, -⟩ := fits
  rw [requestTypes, if_neg (by simpa using plain)]
  by_cases write : pkt.isWrite
  · by_cases locked : pkt.req.isLockedRMW
    · rw [if_pos locked, if_pos write]
      exact ⟨_, _, rfl, .lockedWrite write⟩
    · rw [if_neg locked, if_pos write]
      exact ⟨_, _, rfl, .store write⟩
  · have noWrite : pkt.isWrite = false := Bool.eq_false_iff.mpr write
    by_cases read : pkt.isRead
    · by_cases locked : pkt.req.isLockedRMW
      · rw [if_pos locked, if_neg write, if_pos read]
        exact ⟨_, _, rfl, .read noWrite (by decide) rfl⟩
      · rw [if_neg locked, if_neg write, if_pos read]
        split
        · exact ⟨_, _, rfl, .read noWrite (by decide) rfl⟩
        · split
          · exact ⟨_, _, rfl, .read noWrite (by decide) rfl⟩
          · exact ⟨_, _, rfl, .read noWrite (by decide) rfl⟩
    · obtain ⟨unlocked, flush⟩ := (kind.resolve_left write).resolve_left read
      rw [if_neg (by simpa using unlocked), if_neg write, if_neg read, if_pos flush]
      exact ⟨_, _, rfl, .flush noWrite flush⟩

theorem Kind.isLoad_eq {primary second : RubyRequestType} (kind : Kind pkt primary second) :
    primary.isLoad = second.isLoad := by
  cases kind with
  | store => rfl
  | lockedWrite => rfl
  | read _ _ same => exact same
  | flush => rfl

/-- A request of its line, with the types of its packet. -/
structure Placed (cfg : SequencerConfig) (now : Nat) (line : Addr) (request : SequencerRequest) : Prop where
  fits : Fits cfg request.pkt
  kind : Kind request.pkt request.type request.secondType
  inLine : makeLineAddress cfg.blockBits request.pkt.addr = line
  past : request.issueTime ≤ now

/-- **A hit executes the request.** -/
theorem Placed.hitCallback_eq (placed : Placed cfg now line request) (data : DataBlock) (success : Bool) :
    hitCallback cfg request data success = some (execute cfg.blockBits request.pkt data) := by
  obtain ⟨pkt, type, second, issueTime⟩ := request
  obtain ⟨⟨-, -, inside⟩, kind, -, -⟩ := placed
  have read : data.getData (2 ^ cfg.blockBits) (getOffset cfg.blockBits pkt.addr).toNat pkt.size =
      some (data.bytes (getOffset cfg.blockBits pkt.addr).toNat pkt.size) := if_pos inside
  have stored (bytes : List UInt8) : data.setData (2 ^ cfg.blockBits) bytes (getOffset cfg.blockBits pkt.addr).toNat pkt.size =
      some (data.overwrite bytes (getOffset cfg.blockBits pkt.addr).toNat pkt.size) := if_pos inside
  simp only [hitCallback, execute, read, stored, Option.bind_eq_bind, Option.bind_some]
  by_cases flush : pkt.isFlush
  · rw [if_pos flush, if_pos flush]
  · rw [if_neg flush, if_neg flush]
    cases kind with
    | store write =>
      rw [if_neg (by decide), if_pos write]
      split
      · rfl
      · exact if_pos (.inl (by decide))
    | lockedWrite write =>
      rw [if_neg (by decide), if_pos write]
      split
      · rfl
      · exact if_pos (.inl (by decide))
    | read noWrite reads _ => rw [if_pos reads, if_neg (Bool.eq_false_iff.mp noWrite)]
    | flush _ flushes => exact absurd flushes flush

/-! ### Messages -/

theorem filter_eraseP_self {α : Type} (p : α → Bool) (list : List α) :
    (list.eraseP p).filter p = (list.filter p).tail := by
  induction list with
  | nil => rfl
  | cons item rest ih =>
    by_cases here : p item
    · rw [List.eraseP_cons_of_pos here, List.filter_cons_of_pos here, List.tail_cons]
    · rw [List.eraseP_cons_of_neg here, List.filter_cons_of_neg here, List.filter_cons_of_neg here, ih]

theorem filter_eraseP_of_disjoint {α : Type} {p q : α → Bool} (disjoint : ∀ item, q item → p item = false) (list : List α) :
    (list.eraseP p).filter q = list.filter q := by
  induction list with
  | nil => rfl
  | cons item rest ih =>
    by_cases here : p item
    · have away : ¬ q item := fun other => by simp [disjoint item other] at here
      rw [List.eraseP_cons_of_pos here, List.filter_cons_of_neg away]
    · rw [List.eraseP_cons_of_neg here, List.filter_cons, List.filter_cons, ih]

/-- The protocol answers the request of a line. -/
def answer (cfg : SequencerConfig) (seq : Sequencer) (address : Addr) : Sequencer :=
  { seq with
    mandatoryQ := seq.mandatoryQ.eraseP fun msg => makeLineAddress cfg.blockBits msg.physicalAddress = address }.note
      (.answered address)

/-! ### The sequencer and the specification -/

/-- The number of requests in the table. -/
def total (seq : Sequencer) : Nat := (seq.requestTable.entries.map fun entry => entry.2.length).sum

def message (request : SequencerRequest) : RubyRequest := ⟨request.pkt.addr, request.secondType⟩

/-- The messages of a line that the caches have not answered. -/
def outstandingOf (cfg : SequencerConfig) (seq : Sequencer) (line : Addr) : List RubyRequest :=
  seq.mandatoryQ.filter fun msg => makeLineAddress cfg.blockBits msg.physicalAddress = line

theorem requests_of_insert {list : List SequencerRequest}
    (table : next.requestTable = seq.requestTable.insert line list) :
    next.requests = Function.update seq.requests line list := by
  funext other
  rw [requests, table, SortedMap.find?_insert, Function.update_apply]
  split
  · rfl
  · rfl

theorem total_of_insert {list : List SequencerRequest} (table : next.requestTable = seq.requestTable.insert line list) :
    next.total + (seq.requests line).length = seq.total + list.length := by
  have after := ((seq.requestTable.entries_insert_perm line list).map fun entry => entry.2.length).sum_nat
  rw [total, table, after, total, requests, List.map_cons, List.sum_cons]
  cases found : seq.requestTable.find? line with
  | none =>
    rw [SortedMap.entries_erase_of_none found, Option.getD_none, List.length_nil, Nat.add_zero, Nat.add_comm]
  | some old =>
    have before := ((SortedMap.entries_perm_erase found).map fun entry => entry.2.length).sum_nat
    rw [List.map_cons, List.sum_cons] at before
    rw [before, Option.getD_some]
    show list.length + _ + old.length = old.length + _ + list.length
    omega

/-- **What the sequencer has done is a run of the specification that ends with the same requests**; the first request of
each line is in the caches and no other one, but for the quiet lines, of which none is. -/
structure Agrees (cfg : SequencerConfig) (start : LineSpec) (quiet : Set Addr) (now : Nat) (lines : Addr → DataBlock)
    (seq : Sequencer) (spec : LineSpec) : Prop where
  replay : start.replay cfg seq.trace = some spec
  pending : spec.pending = seq.requests
  data : spec.data = lines
  count : seq.outstandingCount = spec.outstanding
  total : spec.outstanding = seq.total
  bounded : spec.outstanding ≤ cfg.maxOutstandingRequests
  live : ∀ line, line ∉ quiet → seq.requestTable.find? line ≠ some []
  busy : ∀ line, spec.busy line = true ↔ line ∉ quiet ∧ seq.requests line ≠ []
  idle : ∀ line, line ∈ quiet → outstandingOf cfg seq line = []
  front : ∀ line, line ∉ quiet → outstandingOf cfg seq line = ((seq.requests line).head?.map message).toList
  placed : ∀ line, ∀ request ∈ seq.requests line, Placed cfg now line request

namespace Agrees

theorem init (cfg : SequencerConfig) (now : Nat) (lines : Addr → DataBlock) :
    Agrees cfg (.init lines) ∅ now lines .init (.init lines) where
  replay := rfl
  pending := rfl
  data := rfl
  count := rfl
  total := rfl
  bounded := Nat.zero_le _
  live _ _ := by simp [Sequencer.init]
  busy line := by simp [LineSpec.init, requests, Sequencer.init]
  idle _ _ := rfl
  front _ _ := rfl
  placed _ _ member := by simp [requests, Sequencer.init] at member

theorem frame (agrees : Agrees cfg start quiet now lines seq spec) (blockMap : Addr → Bool)
    (locked : Addr → Option Bool) : Agrees cfg start quiet now lines { seq with blockMap, locked } spec :=
  { agrees with }

theorem mono (agrees : Agrees cfg start quiet now lines seq spec) {later : Nat} (order : now ≤ later) :
    Agrees cfg start quiet later lines seq spec :=
  { agrees with
    placed := fun line request member =>
      { agrees.placed line request member with past := (agrees.placed line request member).past.trans order } }

theorem quieten (agrees : Agrees cfg start quiet now lines seq spec) (none : seq.requests line = []) :
    Agrees cfg start (insert line quiet) now lines seq spec :=
  { agrees with
    live := fun other away => agrees.live other fun member => away (Set.mem_insert_of_mem _ member)
    busy := fun other => by
      rw [agrees.busy other, Set.mem_insert_iff]
      by_cases same : other = line
      · simp [same, none]
      · simp [same]
    idle := fun other member => by
      by_cases before : other ∈ quiet
      · exact agrees.idle other before
      · obtain rfl := (Set.mem_insert_iff.mp member).resolve_right before
        rw [agrees.front other before, none]
        rfl
    front := fun other away => agrees.front other fun member => away (Set.mem_insert_of_mem _ member) }

theorem accept (agrees : Agrees cfg start quiet now lines seq spec) (next : Sequencer) {request : SequencerRequest}
    (room : spec.outstanding < cfg.maxOutstandingRequests) (placed : Placed cfg now line request)
    (behind : seq.requests line ≠ [] ∨ line ∈ quiet)
    (table : next.requestTable = seq.requestTable.insert line (seq.requests line ++ [request]))
    (count : next.outstandingCount = seq.outstandingCount + 1) (queue : next.mandatoryQ = seq.mandatoryQ)
    (trace : next.trace = seq.trace ++ [.accepted request]) : ∃ spec', Agrees cfg start quiet now lines next spec' := by
  have listed := requests_of_insert table
  have messages (other : Addr) : outstandingOf cfg next other = outstandingOf cfg seq other := by
    rw [outstandingOf, queue, outstandingOf]
  have nonempty (other : Addr) : next.requests other ≠ [] ↔ other = line ∨ seq.requests other ≠ [] := by
    rw [listed, Function.update_apply]
    split
    next same => simp [same]
    next other => simp [other]
  refine ⟨{ spec with
    pending := Function.update spec.pending line (spec.pending line ++ [request])
    outstanding := spec.outstanding + 1 }, ?_⟩
  exact {
    replay := by
      rw [trace]
      refine LineSpec.replay_snoc agrees.replay ?_
      rw [LineSpec.step, placed.inLine]
      exact if_pos room
    pending := by rw [agrees.pending, listed]
    data := agrees.data
    count := by rw [count, agrees.count]; rfl
    total := by
      have sum := total_of_insert table
      rw [List.length_append, List.length_singleton] at sum
      have before := agrees.total
      show spec.outstanding + 1 = _
      omega
    bounded := room
    live := fun other away empty => by
      rw [table, SortedMap.find?_insert] at empty
      split at empty
      · exact absurd (Option.some.inj empty) (by simp)
      · exact agrees.live other away empty
    busy := fun other => by
      show spec.busy other = true ↔ _
      rw [agrees.busy other, nonempty other]
      refine and_congr_right fun away => ⟨.inr, fun some => some.elim (fun same => ?_) id⟩
      exact behind.elim (fun before => same ▸ before) fun member => absurd (same ▸ member) away
    idle := fun other member => (messages other).trans (agrees.idle other member)
    front := fun other away => by
      rw [messages other, agrees.front other away, listed, Function.update_apply]
      split
      next same =>
        subst same
        have before := behind.resolve_right away
        rw [List.head?_append_of_ne_nil _ before]
      · rfl
    placed := fun other old member => by
      rw [listed, Function.update_apply] at member
      split at member
      next same =>
        subst same
        rcases List.mem_append.mp member with before | new
        · exact agrees.placed other old before
        · exact List.mem_singleton.mp new ▸ placed
      · exact agrees.placed other old member }

variable {rest : List SequencerRequest}

theorem issue (agrees : Agrees cfg start quiet now lines seq spec)
    (calm : line ∈ quiet) (front : seq.requests line = request :: rest) :
    ∃ spec', Agrees cfg start (quiet \ {line}) now lines (seq.issueRequest request.pkt request.secondType) spec' := by
  have inLine := (agrees.placed line request (front ▸ List.mem_cons_self ..)).inLine
  have messages (other : Addr) : outstandingOf cfg (seq.issueRequest request.pkt request.secondType) other =
      outstandingOf cfg seq other ++ if other = line then [message request] else [] := by
    rw [outstandingOf, issueRequest, note, List.filter_append, List.filter_singleton, inLine, outstandingOf]
    by_cases same : other = line
    · simp [same, message]
    · simp [same, Ne.symm same]
  refine ⟨{ spec with busy := Function.update spec.busy line true }, ?_⟩
  exact {
    replay := by
      refine LineSpec.replay_snoc agrees.replay ?_
      rw [LineSpec.step, inLine]
      have calmly : spec.busy line = false := Bool.eq_false_iff.mpr fun busy => ((agrees.busy line).mp busy).1 calm
      refine if_pos ⟨by rw [calmly]; rfl, ?_⟩
      rw [agrees.pending, front]
      rfl
    pending := agrees.pending
    data := agrees.data
    count := agrees.count
    total := agrees.total
    bounded := agrees.bounded
    live := fun other away empty => by
      by_cases same : other = line
      · subst same
        have none : seq.requests other = [] := by rw [requests, show seq.requestTable.find? other = some [] from empty]; rfl
        exact absurd (front.symm.trans none) (List.cons_ne_nil _ _)
      · exact agrees.live other (fun member => away ⟨member, same⟩) empty
    busy := fun other => by
      show Function.update spec.busy line true other = true ↔ other ∉ quiet \ {line} ∧ seq.requests other ≠ []
      by_cases same : other = line
      · subst same
        simp [front]
      · rw [Function.update_of_ne same, agrees.busy other]
        simp [same]
    idle := fun other member => by
      rw [messages other, if_neg (show other ≠ line from member.2), agrees.idle other member.1]
      rfl
    front := fun other away => by
      rw [messages other]
      by_cases same : other = line
      · subst same
        rw [if_pos rfl, agrees.idle other calm]
        show _ = ((seq.requests other).head?.map message).toList
        rw [front]
        rfl
      · rw [if_neg same, List.append_nil]
        exact agrees.front other fun member => away ⟨member, same⟩
    placed := agrees.placed }

/-- **A call of `makeRequest` agrees with the specification**, and adds at most one request to a line. -/
theorem makeRequest (agrees : Agrees cfg start quiet now lines seq spec) (fits : Fits cfg pkt)
    (nonempty : ∀ line ∈ quiet, seq.requests line ≠ []) :
    ∃ status next spec', seq.makeRequest cfg now pkt = some (status, next) ∧
      Agrees cfg start quiet now lines next spec' ∧
      ∀ line, ∃ extra, next.requests line = seq.requests line ++ extra ∧ extra.length ≤ 1 := by
  have unchanged : ∀ line, ∃ extra, seq.requests line = seq.requests line ++ extra ∧ extra.length ≤ 1 :=
    fun _ => ⟨[], (List.append_nil _).symm, Nat.zero_le _⟩
  rw [Sequencer.makeRequest]
  by_cases full : (cfg.maxOutstandingRequests : Int) ≤ seq.outstandingCount
  · rw [if_pos full]
    exact ⟨_, seq, spec, rfl, agrees, unchanged⟩
  obtain ⟨primary, second, types, kind⟩ := requestTypes_of_fits fits
  rw [if_neg full, types]
  dsimp only
  split
  · exact ⟨_, seq, spec, rfl, agrees, unchanged⟩
  -- the request is inserted
  have room : spec.outstanding < cfg.maxOutstandingRequests := by
    have counted := agrees.count
    omega
  let line := makeLineAddress cfg.blockBits pkt.addr
  let request : SequencerRequest := ⟨pkt, primary, second, now⟩
  have placed : Placed cfg now line request := ⟨fits, kind, rfl, le_rfl⟩
  let inserted := ({ seq with
    requestTable := seq.requestTable.insert line (seq.requests line ++ [request])
    outstandingCount := seq.outstandingCount + 1 } : Sequencer).note (.accepted request)
  have listed : inserted.requests = Function.update seq.requests line (seq.requests line ++ [request]) :=
    requests_of_insert rfl
  have grown : ∀ other, ∃ extra, inserted.requests other = seq.requests other ++ extra ∧ extra.length ≤ 1 := by
    intro other
    rw [listed, Function.update_apply]
    split
    next same => exact ⟨[request], by rw [same], le_rfl⟩
    · exact unchanged other
  by_cases empty : seq.requests line = []
  · have away : line ∉ quiet := fun member => nonempty line member empty
    obtain ⟨spec₁, accepted⟩ := (agrees.quieten empty).accept inserted room placed (.inr (Set.mem_insert ..))
      rfl rfl rfl rfl
    have alone : inserted.requests line = request :: [] := by rw [listed, Function.update_self, empty]; rfl
    obtain ⟨spec₂, issued⟩ := accepted.issue (Set.mem_insert ..) alone
    rw [Set.insert_sdiff_self_of_notMem away] at issued
    refine ⟨.issued, inserted.issueRequest pkt second, spec₂, ?_, issued, grown⟩
    have single : ¬ 1 < (seq.requests line ++ [request]).length := by rw [empty]; exact Nat.lt_irrefl 1
    rw [insertRequest, if_neg single]
    rfl
  · obtain ⟨spec₁, accepted⟩ := agrees.accept inserted room placed (.inl empty) rfl rfl rfl rfl
    refine ⟨.issued, inserted, spec₁, ?_, accepted, grown⟩
    have several : 1 < (seq.requests line ++ [request]).length := by
      rw [List.length_append, List.length_singleton]
      exact Nat.lt_add_of_pos_left (List.length_pos_iff.mpr empty)
    rw [insertRequest, if_pos several]
    rfl

theorem makeRequests (agrees : Agrees cfg start quiet now lines seq spec) {sent : List Packet}
    (fit : ∀ pkt ∈ sent, Fits cfg pkt) (nonempty : ∀ line ∈ quiet, seq.requests line ≠ []) :
    ∃ next spec', seq.makeRequests cfg now sent = some next ∧ Agrees cfg start quiet now lines next spec' ∧
      ∀ line, ∃ extra, next.requests line = seq.requests line ++ extra ∧ extra.length ≤ sent.length := by
  induction sent generalizing seq spec with
  | nil => exact ⟨seq, spec, rfl, agrees, fun _ => ⟨[], (List.append_nil _).symm, le_rfl⟩⟩
  | cons pkt rest ih =>
    obtain ⟨status, middle, spec₁, made, agrees₁, grown⟩ := agrees.makeRequest (fit pkt (List.mem_cons_self ..)) nonempty
    have nonempty₁ : ∀ line ∈ quiet, middle.requests line ≠ [] := by
      intro line member empty
      obtain ⟨extra, more, -⟩ := grown line
      exact nonempty line member (List.append_eq_nil_iff.mp (more.symm.trans empty)).1
    obtain ⟨next, spec₂, others, agrees₂, further⟩ := ih agrees₁ (fun pkt member => fit pkt (.tail _ member)) nonempty₁
    refine ⟨next, spec₂, ?_, agrees₂, fun line => ?_⟩
    · rw [Sequencer.makeRequests, made]
      exact others
    · obtain ⟨extra, more, few⟩ := grown line
      obtain ⟨extra', more', few'⟩ := further line
      refine ⟨extra ++ extra', by rw [more', more, List.append_assoc], ?_⟩
      rw [List.length_append, List.length_cons]
      omega

/-! ### Callbacks -/

variable {data : DataBlock}

theorem complete
    (agrees : Agrees cfg start quiet now (Function.update lines address data) seq spec) (calm : address ∈ quiet)
    (front : seq.requests address = request :: rest) :
    ∃ spec', Agrees cfg start quiet now (Function.update lines address (execute cfg.blockBits request.pkt data).1)
      (({ seq with
        requestTable := seq.requestTable.insert address (seq.requests address).tail
        outstandingCount := seq.outstandingCount - 1 } : Sequencer).note
          (.completed address request (execute cfg.blockBits request.pkt data).2)) spec' := by
  have tail : (seq.requests address).tail = rest := by rw [front]; rfl
  rw [tail]
  let next := ({ seq with
    requestTable := seq.requestTable.insert address rest
    outstandingCount := seq.outstandingCount - 1 } : Sequencer).note
      (.completed address request (execute cfg.blockBits request.pkt data).2)
  have listed : next.requests = Function.update seq.requests address rest := requests_of_insert rfl
  have sum : next.total + (seq.requests address).length = seq.total + rest.length := total_of_insert rfl
  rw [front, List.length_cons] at sum
  have here : spec.data address = data := by rw [agrees.data, Function.update_self]
  have apart : ∀ other, other ∉ quiet → other ≠ address := fun other away same => away (same ▸ calm)
  have all : spec.outstanding = next.total + 1 := by
    have before := agrees.total
    omega
  refine ⟨{ spec with
    pending := Function.update spec.pending address rest
    data := Function.update spec.data address (execute cfg.blockBits request.pkt data).1
    outstanding := spec.outstanding - 1 }, ?_⟩
  exact {
    replay := by
      refine LineSpec.replay_snoc agrees.replay ?_
      have calmly : spec.busy address = false :=
        Bool.eq_false_iff.mpr fun busy => ((agrees.busy address).mp busy).1 calm
      have first : spec.pending address = request :: rest := by rw [agrees.pending, front]
      rw [LineSpec.step, if_pos ⟨by rw [calmly]; rfl, by rw [first]; rfl, by rw [here]⟩, here, first, List.tail_cons]
    pending := by rw [agrees.pending]; exact listed.symm
    data := by rw [agrees.data, Function.update_idem]
    count := by
      show seq.outstandingCount - 1 = ((spec.outstanding - 1 : Nat) : Int)
      have counted := agrees.count
      omega
    total := by
      show spec.outstanding - 1 = next.total
      omega
    bounded := (Nat.sub_le _ _).trans agrees.bounded
    live := fun other away empty => by
      have empty : (seq.requestTable.insert address rest).find? other = some [] := empty
      rw [SortedMap.find?_insert, if_neg (apart other away)] at empty
      exact agrees.live other away empty
    busy := fun other => by
      show spec.busy other = true ↔ other ∉ quiet ∧ next.requests other ≠ []
      rw [agrees.busy other, listed]
      refine and_congr_right fun away => ?_
      rw [Function.update_of_ne (apart other away)]
    idle := agrees.idle
    front := fun other away => by
      show outstandingOf cfg seq other = ((next.requests other).head?.map message).toList
      rw [agrees.front other away, listed, Function.update_of_ne (apart other away)]
    placed := fun other old member => by
      have member : old ∈ next.requests other := member
      rw [listed, Function.update_apply] at member
      split at member
      next same => exact agrees.placed other old (by rw [same, front]; exact .tail _ member)
      · exact agrees.placed other old member }

/-- **A hit with the packets sent meanwhile agrees with the specification.** -/
theorem finishFront (agrees : Agrees cfg start {address} now (Function.update lines address data) seq spec)
    (front : seq.requests address = request :: rest) {sent : List Packet}
    (fit : ∀ pkt ∈ sent, Fits cfg pkt) (success : Bool) :
    ∃ data' next spec', seq.finishFront cfg now address request success sent data = some (data', next) ∧
      Agrees cfg start {address} now (Function.update lines address data') next spec' ∧
      ∃ extra, next.requests address = rest ++ extra ∧ extra.length ≤ sent.length := by
  have placed := agrees.placed address request (front ▸ List.mem_cons_self ..)
  have nonempty : ∀ line ∈ ({address} : Set Addr), seq.requests line ≠ [] := by
    rintro line rfl
    exact front ▸ List.cons_ne_nil _ _
  obtain ⟨middle, spec₁, made, agrees₁, grown⟩ := agrees.makeRequests fit nonempty
  obtain ⟨extra, more, few⟩ := grown address
  rw [front] at more
  obtain ⟨spec₂, agrees₂⟩ := agrees₁.complete rfl more
  refine ⟨_, _, spec₂, ?_, agrees₂, extra, ?_, few⟩
  · rw [Sequencer.finishFront, placed.hitCallback_eq]
    show (Sequencer.makeRequests cfg now sent seq).bind _ = _
    rw [made]
    rfl
  · show requests _ address = _
    rw [show requests _ = Function.update middle.requests address (middle.requests address).tail from
      requests_of_insert rfl, Function.update_self, more]
    rfl

variable {rubyRequest : Bool}

theorem prepareWrite (agrees : Agrees cfg start quiet now lines seq spec) (address : Addr)
    (store : rubyRequest → request.type.isLoad = false) (past : request.issueTime ≤ now) :
    ∃ success next, seq.prepareWrite cfg now address rubyRequest request = some (success, next) ∧
      next.requests = seq.requests ∧ Agrees cfg start quiet now lines next spec := by
  have recorded : latencyRecorded now request = true := decide_eq_true past
  rw [Sequencer.prepareWrite]
  cases load : request.type.isLoad with
  | true =>
    have other : rubyRequest = false := Bool.eq_false_iff.mpr fun first => by simp [store first] at load
    exact ⟨true, seq, by simp [other], rfl, agrees⟩
  | false =>
    have held : ∃ success locked, (if cfg.runningGarnetStandalone then (true, seq) else
        seq.handleLlsc address request) = (success, { seq with locked }) := by
      split
      · exact ⟨_, _, rfl⟩
      · rw [handleLlsc]
        split
        · exact ⟨_, _, rfl⟩
        · split
          · exact ⟨_, _, rfl⟩
          · split
            · exact ⟨_, _, rfl⟩
            · split
              · exact ⟨_, _, rfl⟩
              · exact ⟨_, _, rfl⟩
    obtain ⟨success, locked, held⟩ := held
    simp only [held, recorded, Bool.false_eq_true, and_false, if_false, Bool.not_false, if_true, Bool.not_true]
    refine ⟨success, _, rfl, ?_, ?_⟩
    · split
      · rfl
      · split
        · rfl
        · rfl
    · split
      · exact agrees.frame _ _
      · split
        · exact agrees.frame _ _
        · exact agrees.frame _ _

variable {sent : List (List Packet)}

theorem hits_tail {rest extra : List SequencerRequest} {fuel : Nat}
    (enough : hits (request :: rest) sent ≤ fuel + 1) (few : extra.length ≤ (sent.headD []).length) :
    hits (rest ++ extra) sent.tail ≤ fuel := by
  rw [hits, List.length_cons] at enough
  rw [hits, List.length_append]
  cases sent with
  | nil =>
    have none : extra.length ≤ 0 := few
    have same : ([] : List (List Packet)).tail.flatten.length = ([] : List (List Packet)).flatten.length := rfl
    omega
  | cons first others =>
    rw [List.flatten_cons, List.length_append] at enough
    have some : extra.length ≤ first.length := few
    rw [List.tail_cons]
    omega

theorem fits_headD (fit : ∀ pkt ∈ sent.flatten, Fits cfg pkt) : ∀ pkt ∈ sent.headD [], Fits cfg pkt := by
  cases sent with
  | nil => exact fit
  | cons first others => exact fun pkt member => fit pkt (List.mem_append_left _ member)

theorem fits_tail (fit : ∀ pkt ∈ sent.flatten, Fits cfg pkt) : ∀ pkt ∈ sent.tail.flatten, Fits cfg pkt := by
  cases sent with
  | nil => exact fit
  | cons first others => exact fun pkt member => fit pkt (List.mem_append_right _ member)

/-- **The loop of `writeCallback` completes all requests of the line.** -/
theorem writeLoop {fuel : Nat} (agrees : Agrees cfg start {address} now (Function.update lines address data) seq spec)
    (fit : ∀ pkt ∈ sent.flatten, Fits cfg pkt) (enough : hits (seq.requests address) sent ≤ fuel)
    (store : rubyRequest → ∀ request ∈ (seq.requests address).head?, request.type.isLoad = false) :
    ∃ data' next spec', writeLoop cfg now address fuel rubyRequest sent data seq = some (data', next) ∧
      Agrees cfg start {address} now (Function.update lines address data') next spec' ∧ next.requests address = [] := by
  induction fuel generalizing rubyRequest sent data seq spec with
  | zero =>
    have empty : seq.requests address = [] := by
      rw [hits] at enough
      exact List.length_eq_zero_iff.mp (by omega)
    exact ⟨data, seq, spec, by rw [Sequencer.writeLoop, if_pos empty], agrees, empty⟩
  | succ fuel ih =>
    rw [Sequencer.writeLoop]
    cases front : seq.requests address with
    | nil => exact ⟨data, seq, spec, rfl, agrees, front⟩
    | cons request rest =>
      rw [front] at store enough
      have placed := agrees.placed address request (front ▸ List.mem_cons_self ..)
      obtain ⟨success, middle, prepared, same, agrees₁⟩ :=
        agrees.prepareWrite address (fun first => store first request rfl) placed.past
      obtain ⟨data₁, after, spec₁, finished, agrees₂, extra, left, few⟩ :=
        agrees₁.finishFront (same ▸ front) (fits_headD fit) success
      have fewer : hits (after.requests address) sent.tail ≤ fuel := left ▸ hits_tail enough few
      have others : false = true → ∀ request ∈ (after.requests address).head?, request.type.isLoad = false :=
        fun first => absurd first Bool.false_ne_true
      obtain ⟨data', next, spec', looped, done⟩ := ih agrees₂ (fits_tail fit) fewer others
      refine ⟨data', next, spec', ?_, done⟩
      dsimp only
      rw [prepared, Option.bind_eq_bind, Option.bind_some, finished, Option.bind_eq_bind, Option.bind_some, looped]

/-- **The loop of `readCallback` completes the loads in front of the first store**, and issues that store. -/
theorem readLoop {fuel : Nat} (agrees : Agrees cfg start {address} now (Function.update lines address data) seq spec)
    (fit : ∀ pkt ∈ sent.flatten, Fits cfg pkt) (enough : hits (seq.requests address) sent ≤ fuel)
    (load : rubyRequest → ∀ request ∈ (seq.requests address).head?, request.type.isLoad) :
    ∃ data' next spec', readLoop cfg now address fuel rubyRequest sent data seq = some (data', next) ∧
      (next.requests address = [] ∧ Agrees cfg start {address} now (Function.update lines address data') next spec' ∨
        next.requests address ≠ [] ∧ Agrees cfg start ∅ now (Function.update lines address data') next spec') := by
  induction fuel generalizing rubyRequest sent data seq spec with
  | zero =>
    have empty : seq.requests address = [] := by
      rw [hits] at enough
      exact List.length_eq_zero_iff.mp (by omega)
    exact ⟨data, seq, spec, by rw [Sequencer.readLoop, if_pos empty], .inl ⟨empty, agrees⟩⟩
  | succ fuel ih =>
    rw [Sequencer.readLoop]
    cases front : seq.requests address with
    | nil => exact ⟨data, seq, spec, rfl, .inl ⟨front, agrees⟩⟩
    | cons request rest =>
      rw [front] at load enough
      have placed := agrees.placed address request (front ▸ List.mem_cons_self ..)
      dsimp only
      cases kind : request.type.isLoad with
      | false =>
        have later : ¬ rubyRequest = true := fun first => by simp [load first request rfl] at kind
        obtain ⟨spec', issued⟩ := agrees.issue rfl front
        rw [sdiff_self] at issued
        refine ⟨data, seq.issueRequest request.pkt request.secondType, spec', ?_, .inr ⟨?_, issued⟩⟩
        · rw [if_neg fun both => later both.1, Bool.not_false, if_pos rfl]
        · exact fun empty => List.cons_ne_nil _ _ (front.symm.trans empty)
      | true =>
        have recorded : latencyRecorded now request = true := decide_eq_true placed.past
        obtain ⟨data₁, after, spec₁, finished, agrees₁, extra, left, few⟩ :=
          agrees.finishFront front (fits_headD fit) true
        have fewer : hits (after.requests address) sent.tail ≤ fuel := left ▸ hits_tail enough few
        have others : false = true → ∀ request ∈ (after.requests address).head?, request.type.isLoad :=
          fun first => absurd first Bool.false_ne_true
        obtain ⟨data', next, spec', looped, done⟩ := ih agrees₁ (fits_tail fit) fewer others
        refine ⟨data', next, spec', ?_, done⟩
        rw [if_neg (by simp), if_neg (by simp), if_neg (by simp [recorded]), finished, Option.bind_eq_bind,
          Option.bind_some, looped]

variable {msg : RubyRequest}

theorem answer (agrees : Agrees cfg start ∅ now lines seq spec) (outstanding : msg ∈ outstandingOf cfg seq address) :
    ∃ request rest spec', seq.requests address = request :: rest ∧ msg = message request ∧
      Agrees cfg start {address} now lines (seq.answer cfg address) spec' := by
  have first := agrees.front address (Set.notMem_empty _)
  cases list : seq.requests address with
  | nil =>
    rw [first, list] at outstanding
    exact absurd outstanding List.not_mem_nil
  | cons request rest =>
    rw [list] at first
    rw [first] at outstanding
    have same : msg = message request := List.mem_singleton.mp outstanding
    have emptied : outstandingOf cfg (seq.answer cfg address) address = [] := by
      have removed := filter_eraseP_self
        (fun msg : RubyRequest => decide (makeLineAddress cfg.blockBits msg.physicalAddress = address)) seq.mandatoryQ
      exact removed.trans (congrArg List.tail first)
    have others (other : Addr) (apart : other ≠ address) :
        outstandingOf cfg (seq.answer cfg address) other = outstandingOf cfg seq other := by
      refine filter_eraseP_of_disjoint (fun msg there => ?_) seq.mandatoryQ
      rw [decide_eq_true_eq] at there
      exact decide_eq_false (there ▸ apart)
    refine ⟨request, rest, { spec with busy := Function.update spec.busy address false }, rfl, same, ?_⟩
    exact { agrees with
      replay := by
        refine LineSpec.replay_snoc agrees.replay ?_
        rw [LineSpec.step, if_pos ((agrees.busy address).mpr ⟨Set.notMem_empty _, list ▸ List.cons_ne_nil _ _⟩)]
      live := fun other _ => agrees.live other (Set.notMem_empty _)
      busy := fun other => by
        show Function.update spec.busy address false other = true ↔ other ∉ ({address} : Set Addr) ∧ seq.requests other ≠ []
        by_cases apart : other = address
        · subst apart
          simp
        · rw [Function.update_of_ne apart, agrees.busy other]
          simp [apart]
      idle := fun other member => by
        obtain rfl := Set.mem_singleton_iff.mp member
        exact emptied
      front := fun other away => (others other away).trans (agrees.front other (Set.notMem_empty _)) }

theorem eraseIfEmpty (agrees : Agrees cfg start {address} now lines seq spec) (empty : seq.requests address = []) :
    Agrees cfg start ∅ now lines (seq.eraseIfEmpty address) spec := by
  rw [Sequencer.eraseIfEmpty, if_pos empty]
  have listed : ({ seq with requestTable := seq.requestTable.erase address } : Sequencer).requests = seq.requests := by
    funext other
    rw [requests, SortedMap.find?_erase]
    split
    next same => exact same ▸ empty.symm
    · rfl
  exact { agrees with
    pending := agrees.pending.trans listed.symm
    total := by
      rw [agrees.total, Sequencer.total, Sequencer.total]
      cases found : seq.requestTable.find? address with
      | none => rw [SortedMap.entries_erase_of_none found]
      | some list =>
        have none : list = [] := by rw [requests, found] at empty; exact empty
        rw [((SortedMap.entries_perm_erase found).map fun entry => entry.2.length).sum_nat, none]
        exact Nat.zero_add _
    live := fun other _ held => by
      rw [show _ = (seq.requestTable.erase address).find? other from rfl, SortedMap.find?_erase] at held
      split at held
      · exact nomatch held
      next apart => exact agrees.live other apart held
    busy := fun other => by
      rw [listed, agrees.busy other]
      by_cases same : other = address
      · subst same
        simp [empty]
      · simp [same]
    idle := fun other none => absurd none (Set.notMem_empty _)
    front := fun other _ => by
      rw [listed]
      by_cases same : other = address
      · subst same
        rw [empty]
        exact agrees.idle other rfl
      · exact agrees.front other same
    placed := fun other request member => agrees.placed other request (listed ▸ member) }

theorem find?_of_front (front : seq.requests address = request :: rest) :
    seq.requestTable.find? address = some (request :: rest) := by
  rw [requests] at front
  cases found : seq.requestTable.find? address with
  | none => rw [found] at front; exact absurd front.symm (List.cons_ne_nil _ _)
  | some list => rw [found] at front; exact congrArg some front

theorem line_eq (outstanding : msg ∈ outstandingOf cfg seq address) :
    ¬ address ≠ makeLineAddress cfg.blockBits address := by
  have inLine := of_decide_eq_true (List.mem_filter.mp outstanding).2
  rw [not_not, ← inLine, makeLineAddress, makeLineAddress, BitVec.and_assoc, BitVec.and_self]

/-- **A write callback for an issued store agrees with the specification.** -/
theorem writeCallback (agrees : Agrees cfg start ∅ now lines seq spec)
    (outstanding : msg ∈ outstandingOf cfg seq address) (store : msg.type.isLoad = false)
    (fit : ∀ pkt ∈ sent.flatten, Fits cfg pkt) :
    ∃ data next spec', (seq.answer cfg address).writeCallback cfg now address sent (lines address) = some (data, next) ∧
      Agrees cfg start ∅ now (Function.update lines address data) next spec' := by
  obtain ⟨request, rest, spec₁, front, rfl, answered⟩ := agrees.answer outstanding
  have front : (seq.answer cfg address).requests address = request :: rest := front
  have placed := answered.placed address request (front ▸ List.mem_cons_self ..)
  rw [← Function.update_eq_self address lines] at answered
  have first : true → ∀ request ∈ ((seq.answer cfg address).requests address).head?, request.type.isLoad = false := by
    rintro - other head
    rw [front] at head
    obtain rfl := Option.some.inj head
    exact placed.kind.isLoad_eq.trans store
  obtain ⟨data, middle, spec₂, looped, agrees₂, empty⟩ := answered.writeLoop fit le_rfl first
  refine ⟨data, middle.eraseIfEmpty address, spec₂, ?_, agrees₂.eraseIfEmpty empty⟩
  rw [Sequencer.writeCallback, if_neg (line_eq outstanding), find?_of_front front]
  rw [front] at looped
  dsimp only
  rw [looped]
  rfl

/-- **A read callback for an issued load agrees with the specification.** -/
theorem readCallback (agrees : Agrees cfg start ∅ now lines seq spec)
    (outstanding : msg ∈ outstandingOf cfg seq address) (load : msg.type.isLoad)
    (fit : ∀ pkt ∈ sent.flatten, Fits cfg pkt) :
    ∃ data next spec', (seq.answer cfg address).readCallback cfg now address sent (lines address) = some (data, next) ∧
      Agrees cfg start ∅ now (Function.update lines address data) next spec' := by
  obtain ⟨request, rest, spec₁, front, rfl, answered⟩ := agrees.answer outstanding
  have front : (seq.answer cfg address).requests address = request :: rest := front
  have placed := answered.placed address request (front ▸ List.mem_cons_self ..)
  rw [← Function.update_eq_self address lines] at answered
  have first : true → ∀ request ∈ ((seq.answer cfg address).requests address).head?, request.type.isLoad := by
    rintro - other head
    rw [front] at head
    obtain rfl := Option.some.inj head
    exact placed.kind.isLoad_eq.trans load
  obtain ⟨data, middle, spec₂, looped, ends⟩ := answered.readLoop fit le_rfl first
  refine ⟨data, middle.eraseIfEmpty address, spec₂, ?_, ?_⟩
  · rw [Sequencer.readCallback, if_neg (line_eq outstanding), find?_of_front front]
    rw [front] at looped
    dsimp only
    rw [looped]
    rfl
  · rcases ends with ⟨empty, agrees₂⟩ | ⟨some, agrees₂⟩
    · exact agrees₂.eraseIfEmpty empty
    · rw [Sequencer.eraseIfEmpty, if_neg some]
      exact agrees₂

theorem external (agrees : Agrees cfg start ∅ now lines seq spec) (address : Addr) (data : DataBlock) :
    ∃ spec', Agrees cfg start ∅ now (Function.update lines address data) (seq.note (.external address data)) spec' :=
  ⟨{ spec with data := Function.update spec.data address data }, { agrees with
    replay := LineSpec.replay_snoc agrees.replay rfl
    data := by rw [agrees.data] }⟩

end Agrees

end Sequencer

/-! ### Runs -/

/-- A sequencer, the cycle, and what the lines hold. -/
structure SequencerRun where
  seq : Sequencer
  now : Nat
  lines : Addr → DataBlock

/-- What happens to a sequencer. A callback comes with the packets that the processor sends at each of its hits. -/
inductive SequencerAction where
  | advance (later : Nat)
  | makeRequest (pkt : Packet)
  | readCallback (address : Addr) (sent : List (List Packet))
  | writeCallback (address : Addr) (sent : List (List Packet))
  | external (address : Addr) (data : DataBlock)
  | setLocked (address : Addr) (locked : Option Bool)

namespace SequencerRun

open Sequencer

variable {cfg : SequencerConfig} {run : SequencerRun}

def init (now : Nat) (lines : Addr → DataBlock) : SequencerRun := ⟨.init, now, lines⟩

/-- A read callback comes for an issued load, a write callback for another issued request; all packets fit. -/
def Allowed (cfg : SequencerConfig) (run : SequencerRun) : SequencerAction → Prop
  | .advance later => run.now ≤ later
  | .makeRequest pkt => Fits cfg pkt
  | .readCallback address sent =>
    (∃ msg ∈ outstandingOf cfg run.seq address, msg.type.isLoad) ∧ ∀ pkt ∈ sent.flatten, Fits cfg pkt
  | .writeCallback address sent =>
    (∃ msg ∈ outstandingOf cfg run.seq address, msg.type.isLoad = false) ∧ ∀ pkt ∈ sent.flatten, Fits cfg pkt
  | .external _ _ => True
  | .setLocked _ _ => True

instance (cfg : SequencerConfig) (run : SequencerRun) (action : SequencerAction) : Decidable (run.Allowed cfg action) := by
  cases action <;> unfold Allowed <;> infer_instance

/-- One action. A callback gets what its line holds, and leaves what the line holds then. -/
def step (cfg : SequencerConfig) (run : SequencerRun) : SequencerAction → Option SequencerRun
  | .advance later => some { run with now := later }
  | .makeRequest pkt => do
    let (_, seq) ← run.seq.makeRequest cfg run.now pkt
    some { run with seq }
  | .readCallback address sent => do
    let (data, seq) ← (run.seq.answer cfg address).readCallback cfg run.now address sent (run.lines address)
    some { run with seq, lines := Function.update run.lines address data }
  | .writeCallback address sent => do
    let (data, seq) ← (run.seq.answer cfg address).writeCallback cfg run.now address sent (run.lines address)
    some { run with seq, lines := Function.update run.lines address data }
  | .external address data =>
    some { run with seq := run.seq.note (.external address data), lines := Function.update run.lines address data }
  | .setLocked address locked =>
    some { run with seq := { run.seq with locked := Function.update run.seq.locked address locked } }

def act (cfg : SequencerConfig) (run : SequencerRun) (action : SequencerAction) : Option SequencerRun :=
  if run.Allowed cfg action then run.step cfg action else none

/-- **The invariant**: the run is one of the specification. -/
def Inv (cfg : SequencerConfig) (lines : Addr → DataBlock) (run : SequencerRun) : Prop :=
  ∃ spec, Agrees cfg (.init lines) ∅ run.now run.lines run.seq spec

/-- **An allowed action has a result, and keeps the invariant.** -/
theorem Inv.step {lines : Addr → DataBlock} (inv : run.Inv cfg lines) {action : SequencerAction}
    (allowed : run.Allowed cfg action) : ∃ next, run.step cfg action = some next ∧ next.Inv cfg lines := by
  obtain ⟨spec, agrees⟩ := inv
  cases action with
  | advance later => exact ⟨_, rfl, spec, agrees.mono allowed⟩
  | makeRequest pkt =>
    obtain ⟨status, next, spec', made, agrees', -⟩ := agrees.makeRequest allowed fun _ none => absurd none (Set.notMem_empty _)
    exact ⟨{ run with seq := next }, by rw [SequencerRun.step, made]; rfl, spec', agrees'⟩
  | readCallback address sent =>
    obtain ⟨⟨msg, outstanding, load⟩, fit⟩ := allowed
    obtain ⟨data, next, spec', called, agrees'⟩ := agrees.readCallback outstanding load fit
    refine ⟨⟨next, run.now, Function.update run.lines address data⟩, ?_, spec', agrees'⟩
    rw [SequencerRun.step, called]
    rfl
  | writeCallback address sent =>
    obtain ⟨⟨msg, outstanding, store⟩, fit⟩ := allowed
    obtain ⟨data, next, spec', called, agrees'⟩ := agrees.writeCallback outstanding store fit
    refine ⟨⟨next, run.now, Function.update run.lines address data⟩, ?_, spec', agrees'⟩
    rw [SequencerRun.step, called]
    rfl
  | external address data =>
    obtain ⟨spec', agrees'⟩ := agrees.external address data
    exact ⟨_, rfl, spec', agrees'⟩
  | setLocked address locked => exact ⟨_, rfl, spec, agrees.frame _ _⟩

theorem Inv.act {lines : Addr → DataBlock} (inv : run.Inv cfg lines) {action : SequencerAction} {next : SequencerRun}
    (done : run.act cfg action = some next) : next.Inv cfg lines := by
  rw [SequencerRun.act] at done
  split at done
  next allowed =>
    obtain ⟨after, taken, kept⟩ := inv.step allowed
    exact Option.some.inj (taken.symm.trans done) ▸ kept
  · exact nomatch done

/-- **The sequencer keeps the program order of each line.** What it does in a run is a run of the specification, which
completes the requests of a line one after another on the data of the line. The accepted requests of a line are the
completed ones and behind them those of its list, of which the first is in the caches and no other one; the count is that
of all lists and not above the maximum; and no assertion fails. -/
theorem refines_program_order (cfg : SequencerConfig) (start : Nat) (lines : Addr → DataBlock)
    (actions : List SequencerAction) (reached : tryActions (act cfg) (init start lines) actions = some run) :
    (∃ spec, (LineSpec.init lines).replay cfg run.seq.trace = some spec ∧ spec.data = run.lines ∧
      spec.pending = run.seq.requests) ∧ (∀ line, LineSpec.acceptedOf cfg line run.seq.trace =
      LineSpec.completedOf line run.seq.trace ++ run.seq.requests line) ∧
    (∀ line, outstandingOf cfg run.seq line = ((run.seq.requests line).head?.map message).toList) ∧
    run.seq.outstandingCount = run.seq.total ∧ run.seq.outstandingCount ≤ cfg.maxOutstandingRequests ∧
    ∀ action, run.Allowed cfg action → (run.step cfg action).isSome := by
  have inv : run.Inv cfg lines :=
    tryActions_invariant (Inv cfg lines) (fun _ _ _ done inv => inv.act done) reached ⟨_, .init cfg start lines⟩
  obtain ⟨spec, agrees⟩ := inv
  refine ⟨⟨spec, agrees.replay, agrees.data, agrees.pending⟩, fun line => ?_,
    fun line => agrees.front line (Set.notMem_empty _), ?_, ?_, fun action allowed => ?_⟩
  · have split := LineSpec.accepted_eq line agrees.replay
    rwa [agrees.pending] at split
  · rw [agrees.count, agrees.total]
  · rw [agrees.count]
    exact_mod_cast agrees.bounded
  · obtain ⟨next, done, -⟩ := Inv.step ⟨spec, agrees⟩ allowed
    rw [done]
    rfl

/-- Lines of 64 bytes, and room for four requests. -/
def fourRequests : SequencerConfig := ⟨6, 4, false, false⟩

def accessOf (id : Nat) (cmd : MemCmd) (data : List UInt8) : Packet := .ofRequest id (Request.make 0x48 1 0 0 0) cmd data

/-- A load and a store of a line; the hit of the load sends another load, which waits for the store. -/
def reentered : List SequencerAction :=
  [.makeRequest (accessOf 0 .readReq []), .makeRequest (accessOf 1 .writeReq [7]),
    .readCallback 0x40 [[accessOf 2 .readReq []]], .writeCallback 0x40 []]

def answersOf (events : List SequencerEvent) : List (Nat × List UInt8) :=
  events.filterMap fun
    | .completed _ request data => some (request.pkt.id, data)
    | _ => none

/-- The rule at a run with a load that is sent by a hit. -/
theorem refines_program_order_reentered : ∃ run,
    tryActions (act fourRequests) (init 0 fun _ => DataBlock.clear) reentered = some run ∧
    answersOf run.seq.trace = [(0, [0]), (1, [7]), (2, [7])] ∧
    (LineSpec.completedOf 0x40 run.seq.trace).map (·.pkt.id) = [0, 1, 2] ∧ run.seq.total = 0 := by
  have ran : (tryActions (act fourRequests) (init 0 fun _ => DataBlock.clear) reentered).map (fun run =>
      (answersOf run.seq.trace, (LineSpec.acceptedOf fourRequests 0x40 run.seq.trace).map (·.pkt.id),
        run.seq.requests 0x40, run.seq.outstandingCount)) =
      some ([(0, [0]), (1, [7]), (2, [7])], [0, 1, 2], [], 0) := by decide +kernel
  obtain ⟨run, reached, parts⟩ := Option.map_eq_some_iff.mp ran
  obtain ⟨answers, accepted, empty, count⟩ : _ ∧ _ ∧ _ ∧ _ := by
    simpa only [Prod.mk.injEq] using parts
  obtain ⟨-, split, -, total, -⟩ := refines_program_order fourRequests 0 _ reentered reached
  refine ⟨run, reached, answers, ?_, ?_⟩
  · have completed := split 0x40
    rw [empty, List.append_nil] at completed
    rw [← completed, accepted]
  · rw [count] at total
    exact_mod_cast total.symm

end SequencerRun

end Emas.Ruby

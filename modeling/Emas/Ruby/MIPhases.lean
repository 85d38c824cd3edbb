/-
**What can be in flight in the MI protocol.**

A cache is in one of a few phases, and each of them says all that is in flight to it and from it; so are the directory with
the memory, and each DMA controller.
-/

import Emas.Ruby.MISystem

namespace Emas.Ruby

/-! ### Who holds the line, and who waits for it

What the phases of the caches have in common, whatever is in flight: a cache that holds the data of the line passes it to
the next one that waits for it, and the last one is the owner that the directory knows.

* `Linked` — at most one cache holds the data, none while the directory has it; each cache that waits is the next one of
  at most one other; the owner is the last one.
* `Linked.pass`, `Linked.append`, `Linked.grant`, `Linked.write` — the data or the ownership moves.
-/

/-- A cache: it has the data, it will pass the data on to the next one, it has been made an owner, it waits for the data
from another cache, its request is at the memory, its data is, it has been asked to give up the line. -/
structure LinkView (ι : Type) where
  holds : Bool
  next : Option ι
  linked : Bool
  waiting : Bool
  fetching : Bool
  writing : Bool
  invalidated : Bool

/-- What the directory does with the line: nothing, or it fetches it for a cache, or it has made a cache the owner, and
perhaps has asked that one to give it up, or it writes the data of a cache to the memory. -/
inductive LinkRole (ι : Type) where
  | free
  | fetching (version : ι)
  | owner (version : ι) (invalidating : Bool)
  | writing (version : ι)

/-- The cache that the directory has made the owner. -/
@[grind] def LinkRole.owner? {ι : Type} : LinkRole ι → Option ι
  | .owner version _ => some version
  | _ => none

namespace LinkView

variable {ι : Type}

/-- A cache without a part in it. -/
def out : LinkView ι := ⟨false, none, false, false, false, false, false⟩

end LinkView

open LinkView

/-- **The data is in one place, and passes along the caches that wait for it to the owner.** -/
structure Linked {ι : Type} (view : ι → LinkView ι) (role : LinkRole ι) : Prop where
  unique : ∀ c c', (view c).holds → (view c').holds → c = c'
  owned : ∀ c, (view c).holds → role.owner? ≠ none
  fetching : ∀ c, (view c).fetching ↔ role = .fetching c
  writing : ∀ c, (view c).writing ↔ role = .writing c
  last : ∀ c, (view c).linked → (view c).next = none → role.owner? = some c
  owner : ∀ o, role.owner? = some o → (view o).linked ∧ (view o).next = none
  invalidated : ∀ c, (view c).invalidated → role = .owner c true
  waits : ∀ c r, (view c).next = some r → (view r).waiting
  injective : ∀ c c' r, (view c).next = some r → (view c').next = some r → c = c'
  apart : ∀ c, (view c).waiting →
    (view c).linked ∧ (view c).holds = false ∧ (view c).fetching = false ∧ (view c).writing = false

namespace Linked

variable {ι : Type} [DecidableEq ι] {view : ι → LinkView ι} {role : LinkRole ι} {c r o : ι} {b : Bool}

omit [DecidableEq ι] in
theorem init : Linked (fun _ : ι => out) .free := by
  constructor <;> simp [out, LinkRole.owner?]

theorem clear (linked : Linked view role) (c : ι) :
    Linked (Function.update view c { view c with invalidated := false }) role := by
  obtain ⟨unique, owned, fetching, writing, last, owner, invalidated, waits, injective, apart⟩ := linked
  constructor
  all_goals grind [Function.update_apply]

theorem pass (linked : Linked view role) (holds : (view c).holds) (next : (view c).next = some r) :
    Linked (Function.update (Function.update view c out) r { view r with holds := true, waiting := false }) role := by
  obtain ⟨unique, owned, fetching, writing, last, owner, invalidated, waits, injective, apart⟩ := linked
  constructor
  all_goals grind [Function.update_apply, out]

theorem fetch (linked : Linked view .free) (outside : view c = out) :
    Linked (Function.update view c { out with fetching := true }) (.fetching c) := by
  obtain ⟨unique, owned, fetching, writing, last, owner, invalidated, waits, injective, apart⟩ := linked
  constructor
  all_goals grind [Function.update_apply, out]

theorem grant (linked : Linked view (.fetching c)) :
    Linked (Function.update view c { out with holds := true, linked := true }) (.owner c false) := by
  obtain ⟨unique, owned, fetching, writing, last, owner, invalidated, waits, injective, apart⟩ := linked
  constructor
  all_goals grind [Function.update_apply, out]

theorem append (linked : Linked view (.owner o false)) (outside : view c = out) :
    Linked (Function.update (Function.update view o { view o with next := some c }) c
      { out with linked := true, waiting := true }) (.owner c false) := by
  obtain ⟨unique, owned, fetching, writing, last, owner, invalidated, waits, injective, apart⟩ := linked
  constructor
  all_goals grind [Function.update_apply, out]

theorem write (linked : Linked view (.owner c b)) (holds : (view c).holds) :
    Linked (Function.update view c { out with writing := true }) (.writing c) := by
  obtain ⟨unique, owned, fetching, writing, last, owner, invalidated, waits, injective, apart⟩ := linked
  constructor
  all_goals grind [Function.update_apply, out]

theorem finish (linked : Linked view (.writing c)) : Linked (Function.update view c out) .free := by
  obtain ⟨unique, owned, fetching, writing, last, owner, invalidated, waits, injective, apart⟩ := linked
  constructor
  all_goals grind [Function.update_apply, out]

theorem invalidate (linked : Linked view (.owner o false)) :
    Linked (Function.update view o { view o with invalidated := true }) (.owner o true) := by
  obtain ⟨unique, owned, fetching, writing, last, owner, invalidated, waits, injective, apart⟩ := linked
  constructor
  all_goals grind [Function.update_apply]

end Linked

variable {ι κ : Type}

/-! ### Messages -/

namespace RequestMsg

def getx (version : ι) : RequestMsg ι κ := { type := .GETX, requestor := .l1Cache version }
def putx (version : ι) (data : DataBlock) : RequestMsg ι κ := ⟨.PUTX, .l1Cache version, data⟩
def inv : RequestMsg ι κ := { type := .INV, requestor := .directory }
def wbAck (version : ι) : RequestMsg ι κ := { type := .WB_ACK, requestor := .l1Cache version }
def wbNack (version : ι) : RequestMsg ι κ := { type := .WB_NACK, requestor := .l1Cache version }

end RequestMsg

/-- What the directory has forwarded to a cache that has the line or waits for it. -/
inductive Forwarded (ι : Type) where
  | nothing
  | invalidation
  | request (next : ι)

namespace Forwarded

/-- The messages that are forwarded to the cache. -/
def messages : Forwarded ι → List (RequestMsg ι κ)
  | nothing => []
  | invalidation => [.inv]
  | request next => [.getx next]

/-- The cache that the line is to be passed to. -/
def next : Forwarded ι → Option ι
  | request next => some next
  | _ => none

/-- An invalidation is on its way. -/
def invalidated : Forwarded ι → Bool
  | invalidation => true
  | _ => false

end Forwarded

/-! ### The phases of a cache -/

/-- A cache has nothing to do with the line; its request is in flight; the directory fetches the line for it; it waits for
the data from another cache; the data is in flight to it; it has the line; it writes the line back as the owner or before
it knows of the next one; it has been refused, or will be; it has passed the data on while its writeback is in flight, or
has then been refused; the directory writes its data to the memory; the acknowledgement is in flight. -/
inductive Phase (ι : Type) where
  | idle
  | asking
  | fetching
  | waiting (fwd : Forwarded ι)
  | granted (data : DataBlock) (fwd : Forwarded ι)
  | modified (data : DataBlock) (fwd : Forwarded ι)
  | evicting (data : DataBlock) (fwd : Forwarded ι)
  | refused (nack : Bool) (data : DataBlock) (next : ι)
  | passed (data : DataBlock)
  | rejected
  | writing (inv : Bool)
  | acked (inv : Bool)

namespace Phase

/-- A request is under way. -/
def Pending (cache : L1Cache) : Prop :=
  ∃ state data old, (state = .IS ∨ state = .IM) ∧ cache = ⟨some ⟨state, data⟩, some ⟨state, old⟩⟩

/-- The data is in a TBE. -/
def Leaving (state : L1State) (cache : L1Cache) : Prop := ∃ data, cache = ⟨none, some ⟨state, data⟩⟩

/-- The entry and the TBE. -/
def Cache : Phase ι → L1Cache → Prop
  | idle, cache => cache = ⟨none, none⟩ ∨ ∃ data, cache = ⟨some ⟨.I, data⟩, none⟩
  | asking, cache | fetching, cache | waiting _, cache | granted _ _, cache => Pending cache
  | modified data _, cache => cache = ⟨some ⟨.M, data⟩, none⟩
  | evicting data _, cache => cache = ⟨none, some ⟨.MI, data⟩⟩
  | refused nack data _, cache => cache = ⟨none, some ⟨if nack then .MI else .MII, data⟩⟩
  | passed _, cache | rejected, cache => Leaving .II cache
  | writing _, cache | acked _, cache => Leaving .MI cache

/-- The requests from the cache that are in flight. -/
def requests (version : ι) : Phase ι → List (RequestMsg ι κ)
  | asking => [.getx version]
  | evicting data _ | passed data => [.putx version data]
  | _ => []

/-- The messages on the forward network to the cache. -/
def forwards (version : ι) : Phase ι → List (RequestMsg ι κ)
  | waiting fwd | granted _ fwd | modified _ fwd | evicting _ fwd => fwd.messages
  | refused nack _ next => .getx next :: if nack then [.wbNack version] else []
  | rejected => [.wbNack version]
  | writing inv => if inv then [.inv] else []
  | acked inv => (if inv then [.inv] else []) ++ [.wbAck version]
  | _ => []

/-- The responses to the cache that are in flight. -/
def responses : Phase ι → List ResponseMsg
  | granted data _ => [⟨data⟩]
  | _ => []

/-- The data of the line, if it is with the cache. -/
def data? : Phase ι → Option DataBlock
  | granted data _ | modified data _ | evicting data _ | refused _ data _ => some data
  | _ => none

/-- What the phase means for who holds the line. -/
def view : Phase ι → LinkView ι
  | idle | asking | passed _ | rejected | acked _ => .out
  | fetching => { (LinkView.out : LinkView ι) with fetching := true }
  | waiting fwd =>
    { (LinkView.out : LinkView ι) with next := fwd.next, linked := true, waiting := true, invalidated := fwd.invalidated }
  | granted _ fwd | modified _ fwd | evicting _ fwd =>
    { (LinkView.out : LinkView ι) with holds := true, next := fwd.next, linked := true, invalidated := fwd.invalidated }
  | refused _ _ next => { (LinkView.out : LinkView ι) with holds := true, next := some next, linked := true }
  | writing _ => { (LinkView.out : LinkView ι) with writing := true }

/-- An invalidation is left from before the data went to the memory. -/
def stale : Phase ι → Bool
  | writing inv | acked inv => inv
  | _ => false

/-- A cache with its buffers is in a phase. -/
structure Holds (version : ι) (phase : Phase ι) (node : L1Node ι κ) : Prop where
  cache : phase.Cache node.cache
  requests : node.requestFromCache = phase.requests version
  forwards : node.forwardToCache = phase.forwards version
  responses : node.responseToCache = phase.responses

theorem holds_eq (phase : Phase ι) : phase.view.holds = phase.data?.isSome := by
  cases phase <;> rfl

variable {phase : Phase ι}

theorem fetching_of_view (fetches : phase.view.fetching) : phase = .fetching := by
  cases phase with
  | fetching => rfl
  | _ => exact absurd fetches Bool.false_ne_true

theorem writing_of_view (writes : phase.view.writing) : ∃ inv, phase = .writing inv := by
  cases phase with
  | writing inv => exact ⟨inv, rfl⟩
  | _ => exact absurd writes Bool.false_ne_true

theorem waiting_of_view (waits : phase.view.waiting) : ∃ fwd, phase = .waiting fwd := by
  cases phase with
  | waiting fwd => exact ⟨fwd, rfl⟩
  | _ => exact absurd waits Bool.false_ne_true

end Phase

/-! ### The phases of the directory -/

/-- A part of the line, in a block that is clear around it. -/
def InLine (blockSize offset len : Nat) (block : DataBlock) : Prop :=
  offset + len ≤ blockSize ∧ ∀ i, ¬ (offset ≤ i ∧ i < offset + len) → block i = 0

/-- Which data a cache gives back: it evicts the line, or a DMA controller reads it, or writes it. -/
inductive Return (κ : Type) where
  | evicted
  | read
  | written (version : κ)

/-- The directory has the line; it fetches it for a cache; a cache is the owner; the owner is asked to give up the line for
a DMA controller; the data of a cache is written; a DMA controller reads, or writes. -/
inductive DirectoryPhase (ι κ : Type) where
  | idle
  | fetching (version : ι)
  | owned (version : ι)
  | invalidating (version : ι) (dma : κ) (write : Bool)
  | writing (version : ι) (back : Return κ)
  | dmaReading (dma : κ)
  | dmaWriting (dma : κ)

variable {phase : DirectoryPhase ι κ}

namespace DirectoryPhase

/-- What the phase of the directory means for that. -/
def role : DirectoryPhase ι κ → LinkRole ι
  | idle | dmaReading _ | dmaWriting _ => .free
  | fetching version => .fetching version
  | owned version => .owner version false
  | invalidating version _ _ => .owner version true
  | writing version _ => .writing version

/-- The DMA controller that waits for the directory, and whether it writes. -/
def serves : DirectoryPhase ι κ → Option (κ × Bool)
  | invalidating _ dma write => some (dma, write)
  | writing _ (.written dma) => some (dma, true)
  | dmaReading dma => some (dma, false)
  | dmaWriting dma => some (dma, true)
  | _ => none

/-- Without DMA. -/
def Plain : DirectoryPhase ι κ → Prop
  | idle | fetching _ | owned _ | writing _ .evicted => True
  | _ => False

/-- Nothing is under way but a write of a DMA controller to the memory. -/
def Settling : DirectoryPhase ι κ → Prop
  | idle | writing _ (.written _) | dmaWriting _ => True
  | _ => False

def Busy (dir : Directory ι κ) (state : DirectoryState) (owner : List (MachineID ι κ))
    (fits : DirectoryTBE ι κ → Prop) : Prop :=
  ∃ tbe, fits tbe ∧ dir = ⟨state, owner, some { tbe with tbeState := state }⟩

/-- The entry and the TBE. -/
def Directory (blockSize : Nat) (phase : DirectoryPhase ι κ) (dir : Directory ι κ) : Prop :=
  match phase with
  | idle => dir = ⟨.I, [], none⟩
  | fetching version => Busy dir .IM [.l1Cache version] fun _ => True
  | owned version => dir = ⟨.M, [.l1Cache version], none⟩
  | invalidating version dma write => Busy dir (if write then .M_DWR else .M_DRD) [.l1Cache version] fun tbe =>
    tbe.dmaRequestor = some (.dma dma) ∧ InLine blockSize tbe.physicalAddress tbe.len tbe.dataBlk
  | writing _ .evicted => Busy dir .MI [] fun _ => True
  | writing _ .read => Busy dir .M_DRDI [] fun _ => True
  | writing _ (.written dma) => Busy dir .M_DWRI [] fun tbe => tbe.dmaRequestor = some (.dma dma)
  | dmaReading dma => Busy dir .ID [] fun tbe => tbe.dmaRequestor = some (.dma dma)
  | dmaWriting dma => Busy dir .ID_W [] fun tbe => tbe.dmaRequestor = some (.dma dma)

/-- The state that the directory is in. -/
def state : DirectoryPhase ι κ → DirectoryState
  | idle => .I
  | fetching _ => .IM
  | owned _ => .M
  | invalidating _ _ write => if write then .M_DWR else .M_DRD
  | writing _ .evicted => .MI
  | writing _ .read => .M_DRDI
  | writing _ (.written _) => .M_DWRI
  | dmaReading _ => .ID
  | dmaWriting _ => .ID_W

theorem Directory.state {blockSize : Nat} {dir : Ruby.Directory ι κ}
    (fits : phase.Directory blockSize dir) : dir.getState = phase.state := by
  cases phase with
  | idle | owned =>
    rw [fits]
    rfl
  | writing version back =>
    cases back with
    | evicted | read | written =>
      obtain ⟨tbe, -, rfl⟩ := fits
      rfl
  | fetching | invalidating | dmaReading | dmaWriting =>
    obtain ⟨tbe, -, rfl⟩ := fits
    rfl

theorem Directory.busy {blockSize : Nat} {dir : Ruby.Directory ι κ}
    (fits : phase.Directory blockSize dir) (apart : (phase.state != .M && phase.state != .I) = true) :
    ∃ tbe : DirectoryTBE ι κ, dir = ⟨phase.state, dir.owner, some { tbe with tbeState := phase.state }⟩ := by
  cases phase with
  | idle | owned => cases apart
  | writing version back =>
    cases back with
    | evicted | read | written =>
      obtain ⟨tbe, -, rfl⟩ := fits
      exact ⟨tbe, rfl⟩
  | fetching | invalidating | dmaReading | dmaWriting =>
    obtain ⟨tbe, -, rfl⟩ := fits
    exact ⟨tbe, rfl⟩

end DirectoryPhase

/-- The line after an access. -/
def MemoryAccess.applied (memory : DataBlock) : MemoryAccess → DataBlock
  | .read => memory
  | .write block => block
  | .writePartial offset bytes => memory.overwrite bytes offset bytes.length

theorem MemoryAccess.applied_bytes (memory block : DataBlock) (len : Nat) :
    MemoryAccess.applied memory (.writePartial 0 (block.bytes 0 len)) = memory.overwrite (block.bytes 0 len) 0 len := by
  rw [applied, DataBlock.bytes, List.length_map, List.length_range]

namespace DirectoryPhase

/-- The memory reads the line for that machine. -/
def Reading (current : DataBlock) (id : MachineID ι κ) (s : MISystem ι κ) : Prop :=
  s.memory = current ∧ (s.memoryRequests = [⟨id, .read⟩] ∧ s.responseFromMemory = [] ∨
    s.memoryRequests = [] ∧ s.responseFromMemory = [⟨.MEMORY_READ, id, current⟩])

/-- A write of the memory is under way, and the memory is current when it is done. -/
def Writing (current : DataBlock) (id : MachineID ι κ) (s : MISystem ι κ) : Prop :=
  (∃ access, access ≠ .read ∧ access.applied s.memory = current ∧ s.memoryRequests = [⟨id, access⟩] ∧
      s.responseFromMemory = []) ∨
    s.memory = current ∧ s.memoryRequests = [] ∧
      s.responseFromMemory = [{ type := .MEMORY_WB, originalRequestorMachId := id }]

/-- The memory and its buffers. -/
def Memory (current : DataBlock) (s : MISystem ι κ) : DirectoryPhase ι κ → Prop
  | idle => s.memory = current ∧ s.memoryRequests = [] ∧ s.responseFromMemory = []
  | owned _ | invalidating _ _ _ => s.memoryRequests = [] ∧ s.responseFromMemory = []
  | fetching version => Reading current (.l1Cache version) s
  | dmaReading dma => Reading current (.dma dma) s
  | writing version _ => Writing current (.l1Cache version) s
  | dmaWriting dma => Writing current (.dma dma) s

theorem Memory.congr {current : DataBlock} {s s' : MISystem ι κ}
    (fits : phase.Memory current s) (memory : s'.memory = s.memory)
    (requests : s'.memoryRequests = s.memoryRequests) (responses : s'.responseFromMemory = s.responseFromMemory) :
    phase.Memory current s' := by
  cases phase with
  | idle | owned | invalidating => simpa only [Memory, memory, requests, responses] using fits
  | fetching | dmaReading => simpa only [Memory, Reading, memory, requests, responses] using fits
  | writing | dmaWriting => simpa only [Memory, Writing, memory, requests, responses] using fits

end DirectoryPhase

/-! ### The phases of a DMA controller -/

/-- A DMA controller has no request; its request is in flight; the directory serves it; the response is in flight. -/
inductive DMAPhase where
  | ready
  | asking (write : Bool)
  | served (write : Bool)
  | answered (write : Bool)

namespace DMAPhase

def Busy (write : Bool) (tbe : Option DMATBE) : Prop := ∃ data, tbe = some ⟨if write then .BUSY_WR else .BUSY_RD, data⟩

/-- A DMA controller with its buffers is in the phase. -/
def Holds (blockSize : Nat) (version : κ) (node : DMANode ι κ) : DMAPhase → Prop
  | ready => node = ⟨none, [], []⟩
  | asking write => Busy write node.tbe ∧ node.responseFromDir = [] ∧ ∃ offset data len,
      InLine blockSize offset len data ∧
        node.requestToDir = [⟨if write then .WRITE else .READ, offset, .dma version, data, len⟩]
  | served write => Busy write node.tbe ∧ node.requestToDir = [] ∧ node.responseFromDir = []
  | answered write => Busy write node.tbe ∧ node.requestToDir = [] ∧
      ∃ data, node.responseFromDir = [⟨if write then .ACK else .DATA, data⟩]

end DMAPhase

end Emas.Ruby

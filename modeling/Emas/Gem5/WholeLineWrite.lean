/-
**Whole-line writes.**

Where the targets of a miss write a whole line, the cache requests the line without its data. `serviceTargets` does what the
response does to the bytes of the line: `satisfyRequest` of `mem/cache/base.cc` for each target in the order of the list.
What a swap leaves of the bytes that it takes is a parameter. `Sound` says that nothing depends on the bytes that the line
had.

* A target is an access in the sense of `Emas.Access` (`serviceTarget_eq`), so that `Sound` is definite assignment
  (`sound_iff_assigned`).
* **`whole_line_sound_iff`** — a line that counts as written whole may be requested without data if and only if every byte
  is written, by a write that proceeds and enables it, before a target takes it, and every byte by some target.
-/

import Emas.Gem5.CacheBlk
import Emas.Gem5.MSHR
import Emas.Lib.DefiniteAssignment
import Emas.Lib.PartialRun
import Mathlib.Data.List.GetD
import Mathlib.Order.Interval.Set.Defs

namespace Emas.Gem5

/-- The bytes of a line by their offset. -/
abbrev Line := Nat → UInt8

/-! ### The bytes of a packet -/

namespace Packet

variable (pkt : Packet) (blkSize : Nat)

/-- The packet covers the byte of the line. -/
def covers (offset : Nat) : Bool :=
  pkt.getOffset blkSize ≤ offset && offset < pkt.getOffset blkSize + pkt.size

/-- `writeData( p )` writes the byte of the line: disabled bytes stay untouched. -/
def enables (offset : Nat) : Bool :=
  pkt.covers blkSize offset && (!pkt.isMaskedWrite || pkt.req.byteEnable.getD (offset - pkt.getOffset blkSize) false)

/-- `setDataFromBlock( blk_data, blkSize )`. -/
def dataFromBlock (line : Line) : List UInt8 :=
  (List.range pkt.size).map fun i => line (pkt.getOffset blkSize + i)

def writeDataToBlock (line : Line) : Line := fun offset =>
  if pkt.enables blkSize offset then pkt.data.getD (offset - pkt.getOffset blkSize) 0 else line offset

/-- A swap leaves other bytes. -/
def storeSwapped (bytes : List UInt8) (line : Line) : Line := fun offset =>
  if pkt.covers blkSize offset then bytes.getD (offset - pkt.getOffset blkSize) 0 else line offset

theorem dataFromBlock_eq_iff {line line' : Line} :
    pkt.dataFromBlock blkSize line = pkt.dataFromBlock blkSize line' ↔
      ∀ offset, pkt.covers blkSize offset → line offset = line' offset := by
  rw [dataFromBlock, dataFromBlock, List.map_inj_left]
  constructor
  · intro same offset covered
    simp only [covers, Bool.and_eq_true, decide_eq_true_eq] at covered
    have taken := same (offset - pkt.getOffset blkSize) (List.mem_range.mpr (by omega))
    rwa [Nat.add_sub_cancel' covered.1] at taken
  · intro same i member
    have bound := List.mem_range.mp member
    exact same _ (by simp only [covers, Bool.and_eq_true, decide_eq_true_eq]; omega)

end Packet

/-! ### Servicing the targets -/

section Service

variable (swap : Packet → List UInt8 → List UInt8) (blkSize : Nat)

/-- What `satisfyRequest( pkt, blk )` does to a block and its bytes, with the data of the response. Of the requests that
neither read nor write, none changes a byte. -/
def satisfyRequest (pkt : Packet) (blk : CacheBlk) (line : Line) : Option (List UInt8 × CacheBlk × Line) :=
  if pkt.cmd = .swapReq then
    let old := pkt.dataFromBlock blkSize line
    some (old, blk, pkt.storeSwapped blkSize (swap pkt old) line)
  else if pkt.isWrite then
    (blk.checkWrite pkt).map fun (proceeds, blk) =>
      ([], blk, if proceeds then pkt.writeDataToBlock blkSize line else line)
  else if pkt.isRead then
    (if pkt.isLLSC then blk.trackLoadLocked pkt else some blk).map fun blk =>
      (pkt.dataFromBlock blkSize line, blk, line)
  else some ([], blk, line)

/-- The target is answered from the block. A prefetch is not. -/
def Target.served (t : Target) : Bool := t.source = .fromCPU && !t.pkt.cmd.test .isSWPrefetch

/-- What `serviceMSHRTargets` does for a target. -/
def serviceTarget (t : Target) (blk : CacheBlk) (line : Line) : Option (List UInt8 × CacheBlk × Line) :=
  if t.served then satisfyRequest swap blkSize t.pkt blk line else some ([], blk, line)

/-- The targets are serviced in the order of the list: the data of their responses, and the line in the end. -/
def serviceTargets : List Target → CacheBlk → Line → Option (List (List UInt8) × Line)
  | [], _, line => some ([], line)
  | t :: rest, blk, line =>
    (serviceTarget swap blkSize t blk line).bind fun (data, blk, line) =>
      (serviceTargets rest blk line).map fun (others, line) => (data :: others, line)

/-- From two lines, the targets are given the same data, and leave the same line. -/
def SameService (targets : List Target) (blk : CacheBlk) (line line' : Line) : Prop :=
  ∃ data final final', serviceTargets swap blkSize targets blk line = some (data, final) ∧
    serviceTargets swap blkSize targets blk line' = some (data, final') ∧
    ∀ offset < blkSize, final offset = final' offset

/-- **Whatever the line held, the targets are given the same data and leave the same line.** -/
def Sound (targets : List Target) (blk : CacheBlk) : Prop :=
  ∀ line line', SameService swap blkSize targets blk line line'

/-! ### Targets as accesses -/

/-- The target is given the bytes that it covers. -/
def Target.takes (t : Target) : Bool :=
  t.served && (t.pkt.cmd = .swapReq || (!t.pkt.isWrite && t.pkt.isRead))

/-- The target writes the byte of the line. -/
def Target.stores (t : Target) (blk : CacheBlk) (offset : Nat) : Bool :=
  t.served &&
    if t.pkt.cmd = .swapReq then t.pkt.covers blkSize offset
    else t.pkt.isWrite && (blk.checkWrite t.pkt).any Prod.fst && t.pkt.enables blkSize offset

/-- The block after the target was serviced: only its locks change. -/
def Target.locked (t : Target) (blk : CacheBlk) : CacheBlk :=
  if !t.served || t.pkt.cmd = .swapReq then blk
  else if t.pkt.isWrite then ((blk.checkWrite t.pkt).map Prod.snd).getD blk
  else if t.pkt.isRead && t.pkt.isLLSC then (blk.trackLoadLocked t.pkt).getD blk
  else blk

/-- The bytes that a target writes. -/
def Target.stored (t : Target) (line : Line) (offset : Nat) : UInt8 :=
  if t.pkt.cmd = .swapReq then
    (swap t.pkt (t.pkt.dataFromBlock blkSize line)).getD (offset - t.pkt.getOffset blkSize) 0
  else t.pkt.data.getD (offset - t.pkt.getOffset blkSize) 0

/-- A target as an access to the bytes of the line. -/
def accessOf (t : Target) (blk : CacheBlk) : Access Nat UInt8 where
  reads := {offset | t.takes ∧ t.pkt.covers blkSize offset}
  writes := {offset | t.stores blkSize blk offset}
  value := t.stored swap blkSize
  value_eq line line' same offset written := by
    simp only [Target.stored]
    split
    · next exchange =>
      have served : t.served := (Bool.and_eq_true_iff.mp written).1
      have takes : t.takes := by simp [Target.takes, served, exchange]
      rw [(t.pkt.dataFromBlock_eq_iff blkSize).mpr fun i covered => same i ⟨takes, covered⟩]
    · rfl

def accessesOf : List Target → CacheBlk → List (Access Nat UInt8)
  | [], _ => []
  | t :: rest, blk => accessOf swap blkSize t blk :: accessesOf rest (t.locked blk)

variable {swap blkSize}

theorem perform_eq {t : Target} {blk : CacheBlk} {line final : Line}
    (stored : ∀ offset, final offset = if t.stores blkSize blk offset then t.stored swap blkSize line offset
      else line offset) : final = (accessOf swap blkSize t blk).perform line := by
  funext offset
  rw [stored offset]
  split
  · next written => exact ((accessOf swap blkSize t blk).perform_of_mem line written).symm
  · next kept => exact ((accessOf swap blkSize t blk).perform_of_notMem line kept).symm

/-- **A target is its access.** -/
theorem serviceTarget_eq (t : Target) (blk : CacheBlk) (line : Line) :
    serviceTarget swap blkSize t blk line =
      some (if t.takes then t.pkt.dataFromBlock blkSize line else [], t.locked blk,
        (accessOf swap blkSize t blk).perform line) := by
  unfold serviceTarget
  cases served : t.served with
  | false =>
    have kept : line = (accessOf swap blkSize t blk).perform line :=
      perform_eq fun offset => by simp [Target.stores, served]
    simp [Target.takes, Target.locked, served, ← kept]
  | true =>
    simp only [if_true, satisfyRequest]
    by_cases exchange : t.pkt.cmd = .swapReq
    · have final : t.pkt.storeSwapped blkSize (swap t.pkt (t.pkt.dataFromBlock blkSize line)) line =
          (accessOf swap blkSize t blk).perform line :=
        perform_eq fun offset => by simp [Target.stores, Target.stored, served, exchange, Packet.storeSwapped]
      simp [Target.takes, Target.locked, served, exchange, final]
    rw [if_neg exchange]
    cases write : t.pkt.isWrite with
    | true =>
      obtain ⟨⟨proceeds, after⟩, checked⟩ : ∃ result, blk.checkWrite t.pkt = some result := by
        unfold CacheBlk.checkWrite
        rw [if_pos write]
        split
        · exact ⟨_, rfl⟩
        · split <;> exact ⟨_, rfl⟩
      have final : (if proceeds then t.pkt.writeDataToBlock blkSize line else line) =
          (accessOf swap blkSize t blk).perform line := by
        refine perform_eq fun offset => ?_
        cases proceeds <;>
          simp [Target.stores, Target.stored, served, exchange, write, checked, Packet.writeDataToBlock]
      simp [Target.takes, Target.locked, served, exchange, write, checked, ← final]
    | false =>
      have kept : line = (accessOf swap blkSize t blk).perform line :=
        perform_eq fun offset => by simp [Target.stores, served, exchange, write]
      cases read : t.pkt.isRead with
      | false => simp [Target.takes, Target.locked, served, exchange, write, read, ← kept]
      | true =>
        cases locked : t.pkt.isLLSC with
        | false => simp [Target.takes, Target.locked, served, exchange, write, read, locked, ← kept]
        | true =>
          simp [Target.takes, Target.locked, served, exchange, write, read, locked, CacheBlk.trackLoadLocked, ← kept]

theorem serviceTargets_cons (t : Target) (rest : List Target) (blk : CacheBlk) (line : Line) :
    serviceTargets swap blkSize (t :: rest) blk line =
      (serviceTargets swap blkSize rest (t.locked blk) ((accessOf swap blkSize t blk).perform line)).map
        fun (others, final) => ((if t.takes then t.pkt.dataFromBlock blkSize line else []) :: others, final) := by
  rw [serviceTargets, serviceTarget_eq]
  rfl

theorem sameService_iff (targets : List Target) (blk : CacheBlk) (line line' : Line) :
    SameService swap blkSize targets blk line line' ↔
      Access.SameObservations (Set.Iio blkSize) (accessesOf swap blkSize targets blk) line line' := by
  induction targets generalizing blk line line' with
  | nil =>
    constructor
    · rintro ⟨data, final, final', ends, ends', same⟩
      cases ends
      cases ends'
      exact same
    · exact fun same => ⟨[], line, line', rfl, rfl, same⟩
  | cons t rest ih =>
    have taken : (if t.takes then t.pkt.dataFromBlock blkSize line else []) =
        (if t.takes then t.pkt.dataFromBlock blkSize line' else []) ↔
        ∀ offset ∈ (accessOf swap blkSize t blk).reads, line offset = line' offset := by
      by_cases takes : t.takes
      · rw [if_pos takes, if_pos takes, Packet.dataFromBlock_eq_iff]
        exact ⟨fun same offset member => same offset member.2, fun same offset covered => same offset ⟨takes, covered⟩⟩
      · rw [if_neg takes, if_neg takes]
        exact ⟨fun _ _ member => absurd member.1 takes, fun _ => rfl⟩
    show SameService .. ↔ (∀ offset ∈ (accessOf swap blkSize t blk).reads, line offset = line' offset) ∧
      Access.SameObservations _ (accessesOf swap blkSize rest (t.locked blk)) _ _
    rw [← taken, ← ih]
    unfold SameService
    simp only [serviceTargets_cons, Option.map_eq_some_iff, Prod.exists, Prod.mk.injEq]
    constructor
    · rintro ⟨data, final, final', ⟨others, _, ends, rfl, rfl⟩, ⟨others', _, ends', same, rfl⟩, agree⟩
      obtain ⟨head, tail⟩ := List.cons.inj same
      exact ⟨head.symm, others, _, _, ends, tail ▸ ends', agree⟩
    · rintro ⟨head, others, final, final', ends, ends', agree⟩
      exact ⟨_, final, final', ⟨others, final, ends, rfl, rfl⟩, ⟨others, final', ends', by rw [head], rfl⟩, agree⟩

instance nontrivialByte : Nontrivial UInt8 := ⟨0, 1, by decide⟩

/-- **Nothing depends on the line if and only if each byte is written before it is taken, and in the end.** -/
theorem sound_iff_assigned (targets : List Target) (blk : CacheBlk) :
    Sound swap blkSize targets blk ↔ Access.Assigned (Set.Iio blkSize) (accessesOf swap blkSize targets blk) ∅ := by
  unfold Sound
  simp only [sameService_iff]
  exact Access.sameObservations_iff_assigned _

end Service

/-! ### The bytes that count as written -/

/-- The targets whose bytes are marked: a first write, and the others that may be merged. -/
def marking : List Target → List Target
  | [] => []
  | first :: rest =>
    (if first.source ≠ .fromPrefetcher && first.pkt.isWrite then [first] else []) ++
      rest.filter fun t => TargetList.compatWrite t.pkt

/-- The writes that are marked cover the line. -/
def FillsLine (blkSize : Nat) (targets : List Target) : Prop :=
  ∀ offset < blkSize, ∃ t ∈ marking targets, t.pkt.covers blkSize offset

namespace TargetList

/-- The bitmap of a list has the bytes that its writes cover. -/
structure Marked (targets : TargetList) (blkSize : Nat) : Prop where
  blkSize_eq : targets.blkSize = blkSize
  length_eq : targets.writesBitmap.length = blkSize
  marks : ∀ offset < blkSize,
    targets.writesBitmap.getD offset false ↔ ∃ t ∈ marking targets.list, t.pkt.covers blkSize offset

variable {targets : TargetList} {blkSize : Nat}

theorem Marked.isWholeLineWrite_iff (marked : targets.Marked blkSize) :
    targets.isWholeLineWrite ↔ FillsLine blkSize targets.list := by
  unfold isWholeLineWrite FillsLine
  rw [List.all_eq_true]
  constructor
  · intro all offset bound
    refine (marked.marks offset bound).mp ?_
    rw [List.getD_eq_getElem _ _ (marked.length_eq ▸ bound)]
    exact all _ (List.getElem_mem _)
  · intro fills written member
    obtain ⟨offset, bound, rfl⟩ := List.getElem_of_mem member
    have inside : offset < blkSize := marked.length_eq ▸ bound
    rw [← List.getD_eq_getElem _ false bound]
    exact (marked.marks offset inside).mpr (fills offset inside)

theorem updateWriteFlags_length (targets : TargetList) (pkt : Packet) :
    (targets.updateWriteFlags pkt).writesBitmap.length = targets.writesBitmap.length := by
  unfold updateWriteFlags
  split
  · rfl
  · dsimp only
    split
    · exact List.length_mapIdx
    · rfl

theorem updateWriteFlags_marks (targets : TargetList) (pkt : Packet) {offset : Nat}
    (bound : offset < targets.writesBitmap.length) :
    (targets.updateWriteFlags pkt).writesBitmap.getD offset false ↔
      targets.writesBitmap.getD offset false ∨
        ((pkt.isWrite && targets.list.length == 0) || compatWrite pkt) ∧ pkt.covers targets.blkSize offset := by
  unfold updateWriteFlags
  split
  · next whole =>
    have written : targets.writesBitmap.getD offset false := by
      rw [List.getD_eq_getElem _ _ bound]
      exact List.all_eq_true.mp whole _ (List.getElem_mem _)
    exact iff_of_true written (.inl written)
  · dsimp only
    split
    · next counts =>
      rw [List.getD_eq_getElem _ _ (by rwa [List.length_mapIdx]), List.getElem_mapIdx,
        List.getD_eq_getElem _ _ bound, Bool.or_eq_true]
      exact or_congr_right (by simp only [counts, true_and, Packet.covers])
    · next ignored => simp [ignored]

theorem updateWriteFlags_congr {targets targets' : TargetList} (pkt : Packet) (list : targets.list = targets'.list)
    (blkSize : targets.blkSize = targets'.blkSize) (bitmap : targets.writesBitmap = targets'.writesBitmap) :
    (targets.updateWriteFlags pkt).writesBitmap = (targets'.updateWriteFlags pkt).writesBitmap := by
  have whole : targets.isWholeLineWrite = targets'.isWholeLineWrite := by rw [isWholeLineWrite, bitmap]; rfl
  unfold updateWriteFlags
  rw [whole]
  split
  · exact bitmap
  · simp only [list, blkSize, bitmap]

theorem updateWriteFlags_blkSize (targets : TargetList) (pkt : Packet) :
    (targets.updateWriteFlags pkt).blkSize = targets.blkSize := by
  unfold updateWriteFlags
  split <;> rfl

theorem add_marks (targets : TargetList) (curTick : Nat) (pkt : Packet) (readyTime order : Nat)
    (markPending allocOnFill : Bool) :
    (targets.add curTick pkt readyTime order .fromCPU markPending allocOnFill).blkSize = targets.blkSize ∧
      (targets.add curTick pkt readyTime order .fromCPU markPending allocOnFill).writesBitmap =
        (targets.updateWriteFlags pkt).writesBitmap :=
  ⟨updateWriteFlags_blkSize .., updateWriteFlags_congr pkt rfl rfl rfl⟩

theorem Marked.add (marked : targets.Marked blkSize) (nonempty : targets.list ≠ []) (curTick : Nat) (pkt : Packet)
    (readyTime order : Nat) (markPending allocOnFill : Bool) :
    (targets.add curTick pkt readyTime order .fromCPU markPending allocOnFill).Marked blkSize := by
  obtain ⟨sameSize, bitmap⟩ := targets.add_marks curTick pkt readyTime order markPending allocOnFill
  obtain ⟨first, rest, list⟩ := List.exists_cons_of_ne_nil nonempty
  refine ⟨sameSize.trans marked.blkSize_eq, ?_, fun offset bound => ?_⟩
  · rw [bitmap, updateWriteFlags_length, marked.length_eq]
  · rw [bitmap, updateWriteFlags_marks _ _ (marked.length_eq ▸ bound), marked.marks offset bound, marked.blkSize_eq,
      add_list, list]
    simp only [marking, List.cons_append, List.filter_append, ← List.append_assoc]
    cases compat : compatWrite pkt <;> simp [compat, or_and_right, exists_or, or_assoc]

theorem Marked.first (targets : TargetList) (empty : targets.list = []) (blkAddr : Addr) (blkSize : Nat)
    (curTick : Nat) (pkt : Packet) (readyTime order : Nat) (source : Source) (request : source ≠ .fromSnoop)
    (markPending allocOnFill : Bool) :
    ((targets.init blkAddr blkSize).add curTick pkt readyTime order source markPending allocOnFill).Marked
      blkSize := by
  have start : (targets.init blkAddr blkSize).writesBitmap = List.replicate blkSize false := List.map_replicate
  have size : (targets.init blkAddr blkSize).blkSize = blkSize := rfl
  cases source with
  | fromSnoop => exact absurd rfl request
  | fromPrefetcher =>
    refine ⟨rfl, (congrArg List.length start).trans List.length_replicate, fun offset bound => ?_⟩
    have unmarked : ((targets.init blkAddr blkSize).add curTick pkt readyTime order .fromPrefetcher markPending
        allocOnFill).writesBitmap = List.replicate blkSize false := start
    rw [unmarked, add_list, init_list, empty]
    simp [marking]
  | fromCPU =>
    obtain ⟨sameSize, bitmap⟩ :=
      (targets.init blkAddr blkSize).add_marks curTick pkt readyTime order markPending allocOnFill
    refine ⟨sameSize, ?_, fun offset bound => ?_⟩
    · rw [bitmap, updateWriteFlags_length, start, List.length_replicate]
    · rw [bitmap, updateWriteFlags_marks _ _ (by rwa [start, List.length_replicate]), start, size, add_list, init_list,
        empty]
      have compatible : compatWrite pkt → pkt.isWrite := fun compat => (Bool.and_eq_true_iff.mp compat).1
      have cleared : (List.replicate blkSize false).getD offset false = false := by
        rw [List.getD_eq_getElem _ _ (by rwa [List.length_replicate]), List.getElem_replicate]
      rw [cleared]
      cases write : pkt.isWrite with
      | true => simp [marking, write]
      | false =>
        have not : compatWrite pkt = false := Bool.eq_false_iff.mpr fun compat => by simp [compatible compat] at write
        simp [marking, write, not]

end TargetList

/-! ### Collecting the targets -/

/-- A request for the block, with the tick at which it comes. -/
structure Call where
  curTick : Nat
  pkt : Packet
  whenReady : Nat
  order : Nat
  allocOnFill : Bool

namespace Call

/-- The target of a request, before the register is in service. -/
def target (source : Source) (call : Call) : Target :=
  ⟨call.curTick, call.whenReady, call.order, call.pkt, source, call.pkt.fromMshr, call.allocOnFill⟩

/-- The targets that wait for the block: the first request, and the others up to the first cache maintenance request. -/
def waiting (first : Call) (rest : List Call) : List Target :=
  first.target (MSHR.sourceOf first.pkt) ::
    if first.pkt.req.isCacheMaintenance then []
    else (rest.takeWhile fun call => !call.pkt.req.isCacheMaintenance).map (target .fromCPU)

end Call

namespace MSHR

/-- A further request. -/
def join (mshr : MSHR) (call : Call) : Option MSHR :=
  mshr.allocateTarget call.curTick call.pkt call.whenReady call.order call.allocOnFill

/-- The register after a first request and others, before it is in service. -/
def collect (mshr : MSHR) (blkAddr : Addr) (blkSize : Nat) (first : Call) (rest : List Call) : Option MSHR :=
  (mshr.allocate first.curTick blkAddr blkSize first.pkt first.whenReady first.order first.allocOnFill).bind fun mshr =>
    tryActions join mshr rest

variable {mshr next final : MSHR}

theorem join_spec {call : Call} (notSent : mshr.inService = false) (done : mshr.join call = some next) :
    ∃ front rest, mshr.targets.list = front :: rest ∧ next.inService = false ∧
      if call.pkt.req.isCacheMaintenance || front.pkt.req.isCacheMaintenance || !mshr.deferredTargets.list.isEmpty then
        next.targets = mshr.targets ∧ next.deferredTargets.list ≠ []
      else
        next.targets = mshr.targets.add call.curTick call.pkt call.whenReady call.order .fromCPU true call.allocOnFill ∧
          next.deferredTargets = mshr.deferredTargets := by
  unfold join allocateTarget at done
  split at done
  · cases done
  split at done
  · cases done
  next front rest targets =>
  refine ⟨front, rest, targets, ?_⟩
  have same : mshr.defers call.pkt front.pkt = (call.pkt.req.isCacheMaintenance ||
      front.pkt.req.isCacheMaintenance || !mshr.deferredTargets.list.isEmpty) := by
    simp [defers, notSent]
  rw [same] at done
  split at done
  · next behind =>
    cases done
    rw [if_pos behind]
    exact ⟨notSent, rfl, by simp⟩
  · next direct =>
    cases done
    rw [if_neg direct]
    exact ⟨notSent, by simp [notSent], rfl⟩

theorem join_deferred {calls : List Call} (notSent : mshr.inService = false)
    (behind : mshr.deferredTargets.list ≠ [] ∨ ∀ front ∈ mshr.targets.list.head?, front.pkt.req.isCacheMaintenance)
    (done : tryActions join mshr calls = some final) : final.targets = mshr.targets := by
  induction calls generalizing mshr with
  | nil => cases done; rfl
  | cons call rest ih =>
    obtain ⟨next, joined, onward⟩ := tryActions_cons done
    obtain ⟨front, others, targets, notSent', spec⟩ := join_spec notSent joined
    have deferred : (call.pkt.req.isCacheMaintenance || front.pkt.req.isCacheMaintenance ||
        !mshr.deferredTargets.list.isEmpty) = true := by
      rcases behind with deferred | first
      · simp [deferred]
      · simp [first front (by rw [targets]; rfl)]
    rw [if_pos deferred] at spec
    exact (ih notSent' (.inl spec.2) onward).trans spec.1

theorem join_all {blkSize : Nat} {calls : List Call} (notSent : mshr.inService = false)
    (empty : mshr.deferredTargets.list = []) (nonempty : mshr.targets.list ≠ [])
    (ordinary : ∀ front ∈ mshr.targets.list.head?, front.pkt.req.isCacheMaintenance = false)
    (marked : mshr.targets.Marked blkSize) (done : tryActions join mshr calls = some final) :
    final.targets.Marked blkSize ∧ final.targets.list = mshr.targets.list ++
      (calls.takeWhile fun call => !call.pkt.req.isCacheMaintenance).map (Call.target .fromCPU) := by
  induction calls generalizing mshr with
  | nil =>
    cases done
    exact ⟨marked, (List.append_nil _).symm⟩
  | cons call rest ih =>
    obtain ⟨next, joined, onward⟩ := tryActions_cons done
    obtain ⟨front, others, targets, notSent', spec⟩ := join_spec notSent joined
    have first := ordinary front (by rw [targets]; rfl)
    cases maintenance : call.pkt.req.isCacheMaintenance with
    | true =>
      simp only [maintenance, Bool.true_or, if_true] at spec
      have stays := join_deferred notSent' (.inl spec.2) onward
      rw [List.takeWhile_cons_of_neg (by simp [maintenance]), stays, spec.1]
      exact ⟨marked, (List.append_nil _).symm⟩
    | false =>
      simp only [maintenance, first, empty, Bool.false_or, List.isEmpty_nil, Bool.not_true] at spec
      obtain ⟨added, kept⟩ := spec
      have list : next.targets.list = mshr.targets.list ++ [call.target .fromCPU] := by
        rw [added, TargetList.add_list]
        rfl
      obtain ⟨marked', whole⟩ := ih notSent' (kept ▸ empty) (by simp [list])
        (by rw [list, targets]; exact fun other found => by cases found; exact first)
        (added ▸ marked.add nonempty ..) onward
      refine ⟨marked', ?_⟩
      rw [whole, list, List.takeWhile_cons_of_pos (by simp [maintenance]), List.map_cons, List.append_assoc]
      rfl

theorem allocate_spec {blkAddr : Addr} {blkSize : Nat} {call : Call} (free : mshr.getNumTargets = 0)
    (done : mshr.allocate call.curTick blkAddr blkSize call.pkt call.whenReady call.order call.allocOnFill = some next) :
    next.inService = false ∧ next.deferredTargets.list = [] ∧
      next.targets.list = [call.target (sourceOf call.pkt)] ∧ next.targets.Marked blkSize := by
  obtain ⟨noTargets, noDeferred⟩ : mshr.targets.list = [] ∧ mshr.deferredTargets.list = [] := by
    simpa [getNumTargets] using free
  have request : sourceOf call.pkt ≠ .fromSnoop := by
    unfold sourceOf
    split <;> exact nofun
  unfold allocate at done
  split at done
  · cases done
  dsimp only at done
  split at done
  · cases done
    refine ⟨rfl, noDeferred, ?_, .first mshr.targets noTargets blkAddr blkSize call.curTick call.pkt call.whenReady
      call.order (sourceOf call.pkt) request true call.allocOnFill⟩
    rw [TargetList.add_list, TargetList.init_list, noTargets]
    rfl
  · cases done

/-- **What waits for the block before the request is sent**, and when the line counts as written whole. -/
theorem collect_spec {blkAddr : Addr} {blkSize : Nat} {first : Call} {rest : List Call} (free : mshr.getNumTargets = 0)
    (done : mshr.collect blkAddr blkSize first rest = some final) :
    final.targets.list = Call.waiting first rest ∧
      (final.isWholeLineWrite ↔ FillsLine blkSize (Call.waiting first rest)) := by
  obtain ⟨begun, allocated, onward⟩ := Option.bind_eq_some_iff.mp done
  obtain ⟨notSent, noDeferred, list, marked⟩ := allocate_spec free allocated
  suffices spec : final.targets.Marked blkSize ∧ final.targets.list = Call.waiting first rest by
    exact ⟨spec.2, spec.2 ▸ spec.1.isWholeLineWrite_iff⟩
  cases maintenance : first.pkt.req.isCacheMaintenance with
  | true =>
    have alone : ∀ front ∈ begun.targets.list.head?, front.pkt.req.isCacheMaintenance := by
      rw [list]
      exact fun front found => by cases found; exact maintenance
    rw [join_deferred notSent (.inr alone) onward]
    exact ⟨marked, list.trans (by simp [Call.waiting, maintenance])⟩
  | false =>
    have ordinary : ∀ front ∈ begun.targets.list.head?, front.pkt.req.isCacheMaintenance = false := by
      rw [list]
      exact fun front found => by cases found; exact maintenance
    obtain ⟨marked', whole⟩ :=
      join_all notSent noDeferred (by rw [list]; exact List.cons_ne_nil _ _) ordinary marked onward
    exact ⟨marked', whole.trans (by rw [list]; simp [Call.waiting, maintenance])⟩

/-- **When a line that counts as written whole may be requested without its data**: if and only if each byte is written
before a target takes it, and in the end. -/
theorem whole_line_sound_iff (swap : Packet → List UInt8 → List UInt8) {blkAddr : Addr} {blkSize : Nat} {first : Call}
    {rest : List Call} (free : mshr.getNumTargets = 0) (done : mshr.collect blkAddr blkSize first rest = some final)
    (blk : CacheBlk) :
    (final.isWholeLineWrite → Sound swap blkSize final.targets.list blk) ↔
      (FillsLine blkSize (Call.waiting first rest) →
        Access.Assigned (Set.Iio blkSize) (accessesOf swap blkSize (Call.waiting first rest) blk) ∅) := by
  obtain ⟨list, whole⟩ := collect_spec free done
  rw [whole, list, sound_iff_assigned]

/-- A read of some bytes of a line. -/
def readCall : Call := ⟨10, .ofRequest 1 (.make 0 8 0 0 0) .readReq [], 12, 1, true⟩

def lineCall : Call := ⟨20, .ofRequest 2 (.make 0 64 0 0 0) .writeReq (List.replicate 64 7), 22, 2, true⟩

theorem whole_line_sound_iff_write :
    ∃ final, MSHR.create.collect 0 64 lineCall [readCall] = some final ∧
      ((final.isWholeLineWrite → Sound (fun _ bytes => bytes) 64 final.targets.list .create) ↔
        (FillsLine 64 (Call.waiting lineCall [readCall]) → Access.Assigned (Set.Iio 64)
            (accessesOf (fun _ bytes => bytes) 64 (Call.waiting lineCall [readCall]) .create) ∅)) := by
  obtain ⟨final, done⟩ : ∃ final, MSHR.create.collect 0 64 lineCall [readCall] = some final := ⟨_, rfl⟩
  exact ⟨final, done, whole_line_sound_iff _ rfl done .create⟩

/-- A read that came before the write of the whole line is given what the line held. -/
theorem read_before_write :
    ∃ final, MSHR.create.collect 0 64 readCall [lineCall] = some final ∧ final.isWholeLineWrite ∧
      ¬ Sound (fun _ bytes => bytes) 64 final.targets.list .create := by
  refine ⟨_, rfl, by decide, fun sound => ?_⟩
  obtain ⟨data, final, final', ends, ends', -⟩ := sound (fun _ => 0) fun _ => 1
  have taken := congrArg (Option.map fun service => service.1.headD []) ends
  have taken' := congrArg (Option.map fun service => service.1.headD []) ends'
  have same : some (List.replicate 8 (0 : UInt8)) = some (List.replicate 8 1) := taken.trans taken'.symm
  exact absurd same (by decide)

end MSHR

end Emas.Gem5

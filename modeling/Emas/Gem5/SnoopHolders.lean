/-
**The snoop filter misses no holder.**

Runs of requests from caches, evictions, responses, snoops and snoop responses, with the ports that have a request
outstanding and the ports whose caches may hold the line.

* `SnoopFilter.lookupRequest_eq`, `finishRequest_eq`, `lookupSnoop_eq`, `updateResponse_eq` and so on — what a call does
  to the items of the lines, if the request or response belongs to what the filter has recorded.
-/

import Emas.Gem5.SnoopFilter
import Emas.Lib.PartialRun

namespace Emas.Gem5

namespace SnoopFilter

variable {n : Nat} {cfg : FilterConfig} {filter : SnoopFilter n} {pkt : SnoopPacket}

/-! ### The items of the lines -/

theorem item_setItem (line line' : Addr) (new : SnoopItem n) :
    (filter.setItem line new).item line' = if line' = line then new else filter.item line' := by
  rw [item, setItem, SortedMap.find?_insert]
  split <;> rfl

theorem item_eraseIfNullEntry (line line' : Addr) : (filter.eraseIfNullEntry line).item line' = filter.item line' := by
  rw [eraseIfNullEntry]
  split
  next => rfl
  next found stored =>
    split
    next null =>
      rw [item, SortedMap.find?_erase]
      split
      next same =>
        obtain ⟨requested, holder⟩ := Finset.union_eq_empty.mp null
        rw [item, same, stored, Option.getD_some, Option.getD_none]
        exact SnoopItem.ext requested.symm holder.symm
      next => rfl
    next => rfl

theorem mem_maskToPortList {ports : Finset (Fin n)} {port : Fin n} : port ∈ maskToPortList ports ↔ port ∈ ports := by
  rw [maskToPortList, List.mem_filter]
  simp

theorem lineOf_addr : lineOf cfg pkt.addr pkt.isSecure = lineAddr cfg pkt := rfl

/-! ### Requests -/

/-- The ports of the line behind the request of a port from a cache: the port waits for a response, unless a cache above it
already responds, or its caches have evicted the line. -/
def requestItem (pkt : SnoopPacket) (port : Option (Fin n)) (before : SnoopItem n) : SnoopItem n :=
  if !allocates pkt port then before
  else if pkt.needsResponse then
    if pkt.cacheResponding then before else { before with requested := before.requested ∪ portToMask port }
  else if pkt.isBlockCached then before else { before with holder := before.holder \ portToMask port }

/-- What is recorded allows the request: it is the only one of its port if it will wait for a response, and otherwise
comes from a holder. -/
def AllowsRequest (pkt : SnoopPacket) (port : Option (Fin n)) (before : SnoopItem n) : Prop :=
  allocates pkt port → if pkt.needsResponse ∧ !pkt.cacheResponding then before.requested ∩ portToMask port = ∅
    else before.holder ∩ portToMask port ≠ ∅ ∧ (pkt.needsResponse ∨ pkt.isEviction)

theorem item_emplace (line line' : Addr) :
    (if (filter.cachedLocations.find? line).isNone then filter.setItem line ⟨∅, ∅⟩ else filter).item line' =
      filter.item line' := by
  split
  next absent =>
    rw [item_setItem]
    split
    next same =>
      rw [item, same, Option.isNone_iff_eq_none.mp absent]
      rfl
    next => rfl
  next => rfl

theorem ports_lookupRequest {port : Option (Fin n)} {ports : List (Fin n)} {looked : SnoopFilter n}
    (done : filter.lookupRequest cfg pkt port = .ok (ports, looked)) :
    ports = maskToPortList (((filter.item (lineAddr cfg pkt)).holder ∪ (filter.item (lineAddr cfg pkt)).requested) \
      portToMask port) := by
  simp only [lookupRequest] at done
  split at done
  next absent =>
    cases done
    rw [item, Option.isNone_iff_eq_none.mp absent.1]
    simp [maskToPortList]
  next =>
    split_ifs at done
    all_goals
      cases done
      rfl

theorem lookupRequest_eq {port : Option (Fin n)} (allowed : AllowsRequest pkt port (filter.item (lineAddr cfg pkt))) :
    ∃ ports looked, filter.lookupRequest cfg pkt port = .ok (ports, looked) ∧
      ((looked.lookupIt = none ∧ looked.cachedLocations = filter.cachedLocations ∧ allocates pkt port = false) ∨
        (looked.lookupIt = some (lineAddr cfg pkt) ∧ looked.retryItem = filter.item (lineAddr cfg pkt) ∧
          ∀ line, looked.item line = if line = lineAddr cfg pkt then
            requestItem pkt port (filter.item (lineAddr cfg pkt)) else filter.item line)) := by
  simp only [lookupRequest]
  split
  next absent => exact ⟨_, _, rfl, .inl ⟨rfl, rfl, by simpa using absent.2⟩⟩
  next =>
    have kept : ∀ (it : Option Addr) (retry : SnoopItem n) (line : Addr),
        item { (if (filter.cachedLocations.find? (lineAddr cfg pkt)).isNone then filter.setItem (lineAddr cfg pkt) ⟨∅, ∅⟩
          else filter) with lookupIt := it, retryItem := retry } line = filter.item line :=
      fun it retry line => item_emplace (lineAddr cfg pkt) line
    have same : ∀ (it : Option Addr) (retry : SnoopItem n),
        requestItem pkt port (filter.item (lineAddr cfg pkt)) = filter.item (lineAddr cfg pkt) → ∀ line,
        item { (if (filter.cachedLocations.find? (lineAddr cfg pkt)).isNone then filter.setItem (lineAddr cfg pkt) ⟨∅, ∅⟩
          else filter) with lookupIt := it, retryItem := retry } line =
        if line = lineAddr cfg pkt then requestItem pkt port (filter.item (lineAddr cfg pkt)) else filter.item line := by
      intro it retry noChange line
      rw [kept, noChange]
      split
      next here => rw [here]
      next => rfl
    cases alloc : allocates pkt port with
    | false => exact ⟨_, _, if_pos rfl, .inr ⟨rfl, rfl, same _ _ (by rw [requestItem, alloc]; rfl)⟩⟩
    | true =>
      have records := allowed alloc
      simp only [Bool.not_true, Bool.false_eq_true, if_false]
      cases response : pkt.needsResponse with
      | true =>
        simp only [if_true]
        cases responding : pkt.cacheResponding with
        | false =>
          simp only [response, responding, Bool.not_false, and_self, if_true] at records ⊢
          refine ⟨_, _, if_neg (Finset.not_nonempty_iff_eq_empty.mpr records), .inr ⟨rfl, rfl, fun line => ?_⟩⟩
          rw [item_setItem, kept]
          simp [requestItem, alloc, response, responding, item]
        | true =>
          simp only [response, responding, Bool.not_true, Bool.false_eq_true, and_false, if_false] at records ⊢
          exact ⟨_, _, if_neg records.1, .inr ⟨rfl, rfl, same _ _ (by simp [requestItem, alloc, response, responding])⟩⟩
      | false =>
        simp only [response, Bool.false_eq_true, false_and, if_false, false_or] at records ⊢
        rw [if_neg (by simp [records.2]), if_neg records.1]
        cases cached : pkt.isBlockCached with
        | false =>
          refine ⟨_, _, if_pos rfl, .inr ⟨rfl, rfl, fun line => ?_⟩⟩
          rw [item_setItem, kept]
          simp [requestItem, alloc, response, cached, item]
        | true =>
          exact ⟨_, _, if_neg (by simp), .inr ⟨rfl, rfl, same _ _ (by simp [requestItem, alloc, response, cached])⟩⟩

theorem finishRequest_eq (willRetry : Bool) (looked : filter.lookupIt = some (lineAddr cfg pkt)) :
    ∃ next, filter.finishRequest cfg willRetry pkt.addr pkt.isSecure = .ok next ∧
      ∀ line, next.item line = if line = lineAddr cfg pkt ∧ willRetry then filter.retryItem else filter.item line := by
  rw [finishRequest, looked]
  dsimp only
  refine ⟨_, if_neg (not_not_intro lineOf_addr.symm), fun line => ?_⟩
  rw [item_eraseIfNullEntry]
  cases willRetry with
  | false => simp
  | true => simp [item_setItem]

/-- **A request that is allowed is recorded, unless it will be retried.** -/
theorem request_eq {port : Option (Fin n)} (willRetry : Bool)
    (allowed : AllowsRequest pkt port (filter.item (lineAddr cfg pkt))) :
    ∃ ports looked next, filter.lookupRequest cfg pkt port = .ok (ports, looked) ∧
      looked.finishRequest cfg willRetry pkt.addr pkt.isSecure = .ok next ∧
      ∀ line, next.item line = if line = lineAddr cfg pkt ∧ !willRetry then
        requestItem pkt port (filter.item (lineAddr cfg pkt)) else filter.item line := by
  obtain ⟨ports, looked, done, ⟨none, same, skips⟩ | ⟨some, retry, items⟩⟩ := lookupRequest_eq allowed
  · refine ⟨ports, looked, looked, done, by rw [finishRequest, none], fun line => ?_⟩
    rw [requestItem, skips, item, same]
    split
    next here => rw [here.1]; rfl
    next => rfl
  · obtain ⟨next, finished, after⟩ := finishRequest_eq willRetry some
    refine ⟨ports, looked, next, done, finished, fun line => ?_⟩
    rw [after, items, retry]
    cases willRetry with
    | false => simp
    | true =>
      by_cases here : line = lineAddr cfg pkt
      · simp [here]
      · simp [here]

/-! ### Snoops and responses -/

theorem ports_lookupSnoop {ports : List (Fin n)} {next : SnoopFilter n}
    (done : filter.lookupSnoop cfg pkt = .ok (ports, next)) :
    ports = maskToPortList ((filter.item (lineAddr cfg pkt)).holder ∪ (filter.item (lineAddr cfg pkt)).requested) := by
  simp only [lookupSnoop] at done
  split at done
  · exact nomatch done
  · split at done
    next absent =>
      split at done
      · exact nomatch done
      · cases done
        rw [item, absent]
        simp [maskToPortList]
    next found stored =>
      rw [item, stored]
      split_ifs at done
      all_goals
        cases done
        rfl

/-- A snoop of a kind that the filter expects. -/
def IsSnoop (pkt : SnoopPacket) : Prop :=
  pkt.isRequest ∧ (pkt.isWriteback || pkt.req.isUncacheable || (pkt.isInvalidate == pkt.needsWritable) ||
    pkt.req.isCacheMaintenance)

instance (pkt : SnoopPacket) : Decidable (IsSnoop pkt) := inferInstanceAs (Decidable (_ ∧ _))

theorem lookupSnoop_eq (cfg : FilterConfig) (filter : SnoopFilter n) (expected : IsSnoop pkt) :
    (filter.lookupSnoop cfg pkt = .error .exceededCapacity ∧ filter.cachedLocations.find? (lineAddr cfg pkt) = none ∧
      cfg.maxEntryCount ≤ filter.cachedLocations.entries.length) ∨
    ∃ ports next, filter.lookupSnoop cfg pkt = .ok (ports, next) ∧ ∀ line, next.item line =
      if line = lineAddr cfg pkt ∧ pkt.isInvalidate ∧ (filter.item line).requested = ∅ then ⟨∅, ∅⟩
      else filter.item line := by
  simp only [lookupSnoop]
  rw [if_neg (by simp [expected.1])]
  cases found : filter.cachedLocations.find? (lineAddr cfg pkt) with
  | none =>
    dsimp only
    split
    next full => exact .inl ⟨rfl, rfl, full⟩
    next =>
      refine .inr ⟨_, _, rfl, fun line => ?_⟩
      split
      next here => rw [here.1, item, found, Option.getD_none]
      next => rfl
  | some stored =>
    have recorded : filter.item (lineAddr cfg pkt) = stored := by rw [item, found, Option.getD_some]
    dsimp only
    rw [if_neg (by rw [expected.2]; exact Bool.false_ne_true)]
    split
    next clears =>
      refine .inr ⟨_, _, rfl, fun line => ?_⟩
      rw [item_eraseIfNullEntry, item_setItem]
      by_cases here : line = lineAddr cfg pkt
      · rw [if_pos here, if_pos ⟨here, clears.1, by rw [here, recorded]; exact clears.2⟩, clears.2]
      · rw [if_neg here, if_neg (fun all => here all.1)]
    next keeps =>
      refine .inr ⟨_, _, rfl, fun line => ?_⟩
      rw [if_neg]
      rintro ⟨rfl, invalidates, none⟩
      exact keeps ⟨invalidates, recorded ▸ none⟩

theorem isEviction_of_isResponse (response : pkt.isResponse = true) : pkt.isEviction = false := by
  revert response
  rw [Packet.isResponse, Packet.isEviction]
  cases pkt.cmd <;> decide

theorem updateSnoopResponse_eq {rsp req : Fin n} (response : pkt.isResponse) (responding : pkt.cacheResponding)
    (cacheable : pkt.req.isUncacheable = false) (holds : rsp ∈ (filter.item (lineAddr cfg pkt)).holder)
    (waits : req ∈ (filter.item (lineAddr cfg pkt)).requested) :
    ∃ next, filter.updateSnoopResponse cfg pkt (some rsp) (some req) = .ok next ∧ ∀ line, next.item line =
      if line = lineAddr cfg pkt then
        ⟨(filter.item line).requested \ {req}, (if pkt.hasSharers then (filter.item line).holder else ∅) ∪ {req}⟩
      else filter.item line := by
  have noWriteback : pkt.isWriteback = false := by
    rw [Packet.isWriteback, show pkt.cmd.test .isEviction = false from isEviction_of_isResponse response, Bool.false_and]
  have source : (filter.item (lineAddr cfg pkt)).holder ∩ portToMask (some rsp) ≠ ∅ :=
    Finset.nonempty_iff_ne_empty.mp ⟨rsp, Finset.mem_inter.mpr ⟨holds, Finset.mem_singleton_self rsp⟩⟩
  have original : (filter.item (lineAddr cfg pkt)).requested ∩ portToMask (some req) ≠ ∅ :=
    Finset.nonempty_iff_ne_empty.mp ⟨req, Finset.mem_inter.mpr ⟨waits, Finset.mem_singleton_self req⟩⟩
  simp only [updateSnoopResponse]
  rw [if_neg (by simp [response]), if_neg (by simp [responding]), if_neg (by simp [cacheable]), if_neg source,
    if_neg original, if_neg (by simp [noWriteback]), if_neg]
  · refine ⟨_, rfl, fun line => ?_⟩
    rw [item_setItem]
    split
    next here =>
      rw [here]
      cases pkt.hasSharers <;> rfl
    next => rfl
  · refine Finset.nonempty_iff_ne_empty.mp ⟨req, Finset.mem_union_right _ (Finset.mem_union_right _ ?_)⟩
    exact Finset.mem_singleton_self req

theorem updateSnoopForward_eq (cfg : FilterConfig) (filter : SnoopFilter n) (response : pkt.isResponse) (responding : pkt.cacheResponding) :
    ∃ next, filter.updateSnoopForward cfg pkt = .ok next ∧ ∀ line, next.item line =
      if line = lineAddr cfg pkt ∧ !pkt.hasSharers then { filter.item line with holder := ∅ } else filter.item line := by
  simp only [updateSnoopForward]
  rw [if_neg (by simp [response]), if_neg (by simp [responding])]
  cases found : filter.cachedLocations.find? (lineAddr cfg pkt) with
  | none =>
    refine ⟨filter, rfl, fun line => ?_⟩
    split
    next here => rw [here.1, item, found, Option.getD_none]
    next => rfl
  | some stored =>
    have recorded : filter.item (lineAddr cfg pkt) = stored := by rw [item, found, Option.getD_some]
    dsimp only
    split
    next alone =>
      refine ⟨_, rfl, fun line => ?_⟩
      rw [item_eraseIfNullEntry, item_setItem]
      by_cases here : line = lineAddr cfg pkt
      · rw [if_pos here, if_pos ⟨here, alone⟩, here, recorded]
      · rw [if_neg here, if_neg (fun all => here all.1)]
    next shared => exact ⟨filter, rfl, fun line => by rw [if_neg (fun all => shared all.2)]⟩

theorem updateResponse_eq {port : Fin n} (response : pkt.isResponse) (cacheable : pkt.req.isUncacheable = false)
    (waits : port ∈ (filter.item (lineAddr cfg pkt)).requested) :
    ∃ next, filter.updateResponse cfg pkt (some port) = .ok next ∧ ∀ line, next.item line =
      if line = lineAddr cfg pkt then
        ⟨(filter.item line).requested \ {port},
          if pkt.req.isCacheMaintenance then
            if pkt.isInvalidate then (filter.item line).holder \ {port} else (filter.item line).holder
          else (filter.item line).holder ∪ {port}⟩
      else filter.item line := by
  simp only [updateResponse]
  rw [if_neg (by simp [response]), if_neg (by simp [cacheable])]
  cases found : filter.cachedLocations.find? (lineAddr cfg pkt) with
  | none =>
    rw [item, found] at waits
    exact absurd waits (Finset.notMem_empty port)
  | some stored =>
    have recorded : filter.item (lineAddr cfg pkt) = stored := by rw [item, found, Option.getD_some]
    have original : stored.requested ∩ portToMask (some port) ≠ ∅ :=
      Finset.nonempty_iff_ne_empty.mp ⟨port, Finset.mem_inter.mpr ⟨recorded ▸ waits, Finset.mem_singleton_self port⟩⟩
    dsimp only
    rw [if_neg original]
    split
    next maintains =>
      refine ⟨_, rfl, fun line => ?_⟩
      rw [item_eraseIfNullEntry, item_setItem]
      split
      next here =>
        rw [here, recorded]
        cases pkt.isInvalidate <;> rfl
      next => rfl
    next =>
      rw [if_neg]
      · refine ⟨_, rfl, fun line => ?_⟩
        rw [item_setItem]
        split
        next here =>
          rw [here, recorded]
          rfl
        next => rfl
      · refine Finset.nonempty_iff_ne_empty.mp ⟨port, Finset.mem_union_left _ (Finset.mem_union_right _ ?_)⟩
        exact Finset.mem_singleton_self port

end SnoopFilter

/-! ### Runs -/

/-- What happens at the filter of a crossbar: a request of a slave port that may have to be retried, a response from
below, a snoop response that becomes a response or goes down, and a snoop from below. A cache may also drop a line. -/
inductive SnoopEvent (n : Nat) where
  | request (pkt : SnoopPacket) (port : Option (Fin n)) (willRetry : Bool)
  | response (pkt : SnoopPacket) (port : Option (Fin n))
  | snoopResponse (pkt : SnoopPacket) (rspPort : Fin n) (reqPort : Option (Fin n))
  | snoopForward (pkt : SnoopPacket)
  | snoop (pkt : SnoopPacket)
  | drop (line : Addr) (port : Fin n)

/-- A filter, and for each line the ports that have a request outstanding and those whose caches may hold it. -/
structure SnoopRun (n : Nat) where
  filter : SnoopFilter n
  outstanding : Addr → Finset (Fin n)
  holding : Addr → Finset (Fin n)

namespace SnoopRun

variable {n : Nat} {cfg : FilterConfig} {run next : SnoopRun n}

open SnoopFilter

/-- The start of a run. -/
def init (n : Nat) : SnoopRun n := ⟨.init n, fun _ => ∅, fun _ => ∅⟩

/-- The ports of a line behind an event. -/
def setPorts (run : SnoopRun n) (filter : SnoopFilter n) (line : Addr) (outstanding holding : Finset (Fin n)) :
    SnoopRun n where
  filter := filter
  outstanding := Function.update run.outstanding line outstanding
  holding := Function.update run.holding line holding

/-- What the caches and the crossbar allow: a request from the caches of a port that will wait for a response is the only
one of the port, any other one comes from a port that may hold the line; a response goes to a port that waits for it, and
a snoop response comes from a port that may hold the line. -/
def Allowed (cfg : FilterConfig) (run : SnoopRun n) : SnoopEvent n → Prop
  | .request pkt port _ => allocates pkt port → port.any fun port =>
      if pkt.needsResponse ∧ !pkt.cacheResponding then port ∉ run.outstanding (lineAddr cfg pkt)
      else port ∈ run.holding (lineAddr cfg pkt) ∧ (pkt.needsResponse ∨ pkt.isEviction)
  | .response pkt port => pkt.isResponse ∧
      (pkt.req.isUncacheable ∨ port.all fun port => port ∈ run.outstanding (lineAddr cfg pkt))
  | .snoopResponse pkt rspPort reqPort => pkt.isResponse ∧ pkt.cacheResponding ∧ (pkt.req.isUncacheable ∨
      reqPort.all fun port => rspPort ∈ run.holding (lineAddr cfg pkt) ∧ port ∈ run.outstanding (lineAddr cfg pkt))
  | .snoopForward pkt => pkt.isResponse ∧ pkt.cacheResponding
  | .snoop pkt => IsSnoop pkt
  | .drop _ _ => True

instance (cfg : FilterConfig) (run : SnoopRun n) (event : SnoopEvent n) : Decidable (run.Allowed cfg event) := by
  cases event <;> unfold Allowed <;> infer_instance

/-- An event at the filter, with what it means for the caches: a request that is not retried waits, or takes the line out
of the caches of its port; a response brings it, or for a maintenance request may take it; a snoop response without
sharers leaves no other copy, nor does an invalidating snoop while nobody waits. -/
def step (cfg : FilterConfig) (run : SnoopRun n) : SnoopEvent n → Except SnoopPanic (SnoopRun n)
  | .request pkt port willRetry => do
    let (_, looked) ← run.filter.lookupRequest cfg pkt port
    let filter ← looked.finishRequest cfg willRetry pkt.addr pkt.isSecure
    let line := lineAddr cfg pkt
    let after := if willRetry then ⟨run.outstanding line, run.holding line⟩
      else requestItem pkt port ⟨run.outstanding line, run.holding line⟩
    .ok (run.setPorts filter line after.requested after.holder)
  | .response pkt port => do
    let filter ← run.filter.updateResponse cfg pkt port
    let line := lineAddr cfg pkt
    if pkt.req.isUncacheable then .ok { run with filter := filter }
    else .ok (run.setPorts filter line (run.outstanding line \ portToMask port)
      (if pkt.req.isCacheMaintenance then
        if pkt.isInvalidate then run.holding line \ portToMask port else run.holding line
      else run.holding line ∪ portToMask port))
  | .snoopResponse pkt rspPort reqPort => do
    let filter ← run.filter.updateSnoopResponse cfg pkt (some rspPort) reqPort
    let line := lineAddr cfg pkt
    if pkt.req.isUncacheable || reqPort.isNone then .ok { run with filter := filter }
    else .ok (run.setPorts filter line (run.outstanding line \ portToMask reqPort)
      ((if pkt.hasSharers then run.holding line else ∅) ∪ portToMask reqPort))
  | .snoopForward pkt => do
    let filter ← run.filter.updateSnoopForward cfg pkt
    let line := lineAddr cfg pkt
    .ok (run.setPorts filter line (run.outstanding line) (if pkt.hasSharers then run.holding line else ∅))
  | .snoop pkt => do
    let (_, filter) ← run.filter.lookupSnoop cfg pkt
    let line := lineAddr cfg pkt
    .ok (run.setPorts filter line (run.outstanding line)
      (if pkt.isInvalidate ∧ run.outstanding line = ∅ then ∅ else run.holding line))
  | .drop line port => .ok (run.setPorts run.filter line (run.outstanding line) (run.holding line \ {port}))

/-- What an event leaves, unless the filter panics. -/
def act (cfg : FilterConfig) (run : SnoopRun n) (event : SnoopEvent n) : Option (SnoopRun n) :=
  if run.Allowed cfg event then (run.step cfg event).toOption else none

/-- **The requested ports are exactly those that wait, and the holders include all ports that may hold the line.** -/
def Inv (run : SnoopRun n) : Prop :=
  ∀ line, (run.filter.item line).requested = run.outstanding line ∧ run.holding line ⊆ (run.filter.item line).holder

theorem inv_init : (init n).Inv := fun _ => ⟨rfl, Finset.empty_subset _⟩

theorem Inv.setPorts (inv : run.Inv) {filter : SnoopFilter n} {line : Addr} {outstanding holding : Finset (Fin n)}
    (here : (filter.item line).requested = outstanding ∧ holding ⊆ (filter.item line).holder)
    (others : ∀ line', line' ≠ line → filter.item line' = run.filter.item line') :
    (run.setPorts filter line outstanding holding).Inv := by
  intro line'
  show (filter.item line').requested = Function.update run.outstanding line outstanding line' ∧
    Function.update run.holding line holding line' ⊆ (filter.item line').holder
  rcases eq_or_ne line' line with rfl | apart
  · rwa [Function.update_self, Function.update_self]
  · rw [Function.update_of_ne apart, Function.update_of_ne apart, others line' apart]
    exact inv line'

theorem Inv.allowsRequest (inv : run.Inv) {pkt : SnoopPacket} {port : Option (Fin n)} {willRetry : Bool}
    (allowed : run.Allowed cfg (.request pkt port willRetry)) :
    AllowsRequest pkt port (run.filter.item (lineAddr cfg pkt)) := by
  intro allocated
  have fits := allowed allocated
  obtain ⟨requested, holder⟩ := inv (lineAddr cfg pkt)
  cases port with
  | none => exact nomatch fits
  | some port =>
    rw [Option.any_some] at fits
    split at fits
    next waits =>
      rw [if_pos waits, requested]
      exact Finset.inter_singleton_of_notMem (of_decide_eq_true fits)
    next held =>
      have fits := of_decide_eq_true fits
      rw [if_neg held]
      refine ⟨Finset.nonempty_iff_ne_empty.mp ⟨port, Finset.mem_inter.mpr ⟨holder fits.1, ?_⟩⟩, fits.2⟩
      exact Finset.mem_singleton_self port

theorem requestItem_holds {pkt : SnoopPacket} {port : Option (Fin n)} {before : SnoopItem n}
    {outstanding holding : Finset (Fin n)} (requested : before.requested = outstanding) (holder : holding ⊆ before.holder) :
    (requestItem pkt port before).requested = (requestItem pkt port ⟨outstanding, holding⟩).requested ∧
      (requestItem pkt port ⟨outstanding, holding⟩).holder ⊆ (requestItem pkt port before).holder := by
  subst requested
  simp only [requestItem]
  split_ifs
  all_goals first
    | exact ⟨rfl, holder⟩
    | exact ⟨rfl, Finset.sdiff_subset_sdiff holder le_rfl⟩

/-- **Every event that is allowed keeps the records right**, and only a snoop at full capacity ends the program. -/
theorem Inv.step (inv : run.Inv) {event : SnoopEvent n} (allowed : run.Allowed cfg event) :
    (∃ next, run.step cfg event = .ok next ∧ next.Inv) ∨
      (run.step cfg event = .error .exceededCapacity ∧ ∃ pkt, event = .snoop pkt ∧
        run.filter.cachedLocations.find? (lineAddr cfg pkt) = none ∧
        cfg.maxEntryCount ≤ run.filter.cachedLocations.entries.length) := by
  cases event with
  | request pkt port willRetry =>
    obtain ⟨ports, looked, after, done, finished, items⟩ := request_eq willRetry (inv.allowsRequest allowed)
    obtain ⟨requested, holder⟩ := inv (lineAddr cfg pkt)
    left
    rw [SnoopRun.step, done]
    change ∃ next, (looked.finishRequest cfg willRetry pkt.addr pkt.isSecure).bind _ = .ok next ∧ _
    rw [finished]
    refine ⟨_, rfl, inv.setPorts ?_ fun line apart => by rw [items, if_neg (fun all => apart all.1)]⟩
    rw [items]
    cases willRetry with
    | false => simpa using requestItem_holds requested holder
    | true => simpa using ⟨requested, holder⟩
  | response pkt port =>
    left
    obtain ⟨response, waits⟩ := allowed
    obtain ⟨requested, holder⟩ := inv (lineAddr cfg pkt)
    cases cacheable : pkt.req.isUncacheable with
    | true =>
      have done : run.filter.updateResponse cfg pkt port = .ok run.filter := by
        rw [updateResponse, if_neg (by simp [response]), cacheable, Bool.true_or, if_pos rfl]
      rw [SnoopRun.step, done]
      exact ⟨_, if_pos cacheable, inv⟩
    | false =>
      cases port with
      | none =>
        have done : run.filter.updateResponse cfg pkt none = .ok run.filter := by
          rw [updateResponse, if_neg (by simp [response]), Option.isNone_none, Bool.or_true, if_pos rfl]
        rw [SnoopRun.step, done]
        refine ⟨_, if_neg (by simp [cacheable]), inv.setPorts ?_ fun _ _ => rfl⟩
        simpa [portToMask] using ⟨requested, holder⟩
      | some port =>
        have waits : port ∈ run.outstanding (lineAddr cfg pkt) := by simpa [cacheable] using waits
        obtain ⟨after, done, items⟩ := updateResponse_eq response cacheable (requested ▸ waits)
        rw [SnoopRun.step, done]
        refine ⟨_, if_neg (by simp [cacheable]), inv.setPorts ?_ fun line apart => by rw [items, if_neg apart]⟩
        rw [items, if_pos rfl, requested]
        refine ⟨rfl, ?_⟩
        dsimp only [portToMask, Option.elim]
        split_ifs
        · exact Finset.sdiff_subset_sdiff holder le_rfl
        · exact holder
        · exact Finset.union_subset_union_left holder
  | snoopResponse pkt rspPort reqPort =>
    left
    obtain ⟨response, responding, waits⟩ := allowed
    obtain ⟨requested, holder⟩ := inv (lineAddr cfg pkt)
    cases early : pkt.req.isUncacheable || reqPort.isNone with
    | true =>
      have done : run.filter.updateSnoopResponse cfg pkt (some rspPort) reqPort = .ok run.filter := by
        rw [updateSnoopResponse, if_neg (by simp [response]), if_neg (by simp [responding]), early, if_pos rfl]
      rw [SnoopRun.step, done]
      exact ⟨_, if_pos early, inv⟩
    | false =>
      obtain ⟨cacheable, snoops⟩ := Bool.or_eq_false_iff.mp early
      obtain ⟨port, rfl⟩ := Option.isSome_iff_exists.mp (Option.isNone_eq_false_iff.mp snoops)
      have fits : rspPort ∈ run.holding (lineAddr cfg pkt) ∧ port ∈ run.outstanding (lineAddr cfg pkt) := by
        simpa [cacheable] using waits
      obtain ⟨after, done, items⟩ :=
        updateSnoopResponse_eq response responding cacheable (holder fits.1) (requested ▸ fits.2)
      rw [SnoopRun.step, done]
      refine ⟨_, if_neg (by simp [cacheable]), inv.setPorts ?_ fun line apart => by rw [items, if_neg apart]⟩
      rw [items, if_pos rfl, requested]
      refine ⟨rfl, Finset.union_subset_union_left ?_⟩
      split_ifs
      · exact holder
      · exact le_rfl
  | snoopForward pkt =>
    left
    obtain ⟨response, responding⟩ := allowed
    obtain ⟨requested, holder⟩ := inv (lineAddr cfg pkt)
    obtain ⟨after, done, items⟩ := updateSnoopForward_eq cfg run.filter response responding
    rw [SnoopRun.step, done]
    refine ⟨_, rfl, inv.setPorts ?_ fun line apart => by rw [items, if_neg (fun all => apart all.1)]⟩
    rw [items]
    cases pkt.hasSharers with
    | true => simpa using ⟨requested, holder⟩
    | false => simpa using requested
  | snoop pkt =>
    obtain ⟨requested, holder⟩ := inv (lineAddr cfg pkt)
    rcases lookupSnoop_eq cfg run.filter allowed with ⟨full, absent, capacity⟩ | ⟨ports, after, done, items⟩
    · right
      refine ⟨?_, pkt, rfl, absent, capacity⟩
      rw [SnoopRun.step, full]
      rfl
    · left
      rw [SnoopRun.step, done]
      refine ⟨_, rfl, inv.setPorts ?_ fun line apart => by rw [items, if_neg (fun all => apart all.1)]⟩
      rw [items, requested]
      split
      next clears => rw [if_pos clears.2]; exact ⟨clears.2.2.symm, le_rfl⟩
      next keeps => rw [if_neg (fun all => keeps ⟨rfl, all⟩)]; exact ⟨requested, holder⟩
  | drop line port =>
    left
    obtain ⟨requested, holder⟩ := inv line
    exact ⟨_, rfl, inv.setPorts ⟨requested, Finset.sdiff_subset.trans holder⟩ fun _ _ => rfl⟩

theorem Inv.act (inv : run.Inv) {event : SnoopEvent n} (done : run.act cfg event = some next) : next.Inv := by
  rw [SnoopRun.act] at done
  split at done
  next allowed =>
    rcases inv.step allowed with ⟨after, called, kept⟩ | ⟨full, -⟩
    · rw [called] at done
      obtain rfl := Option.some.inj done
      exact kept
    · rw [full] at done
      exact nomatch done
  next => exact nomatch done

/-- **The snoop filter misses no holder.** In every run the requested ports are those that wait and the holders include
those that may hold the line, no panic ends the program but the one of a snoop for an untracked line at full capacity,
and the ports to snoop include every other holder. -/
theorem misses_no_holder (cfg : FilterConfig) (events : List (SnoopEvent n))
    (reached : tryActions (act cfg) (init n) events = some run) :
    (∀ line, (run.filter.item line).requested = run.outstanding line ∧
      run.holding line ⊆ (run.filter.item line).holder) ∧
    (∀ event failure, run.Allowed cfg event → run.step cfg event = .error failure →
      failure = .exceededCapacity ∧ ∃ pkt, event = .snoop pkt ∧
        run.filter.cachedLocations.find? (lineAddr cfg pkt) = none ∧
        cfg.maxEntryCount ≤ run.filter.cachedLocations.entries.length) ∧
    (∀ pkt port ports looked, run.filter.lookupRequest cfg pkt port = .ok (ports, looked) →
      ∀ holder ∈ run.holding (lineAddr cfg pkt), some holder ≠ port → holder ∈ ports) ∧
    (∀ pkt ports looked, run.filter.lookupSnoop cfg pkt = .ok (ports, looked) →
      ∀ holder ∈ run.holding (lineAddr cfg pkt), holder ∈ ports) := by
  have inv : run.Inv := tryActions_invariant Inv (fun _ _ _ done inv => inv.act done) reached inv_init
  refine ⟨inv, fun event failure allowed failed => ?_, fun pkt port ports looked done holder holds other => ?_,
    fun pkt ports looked done holder holds => ?_⟩
  · rcases inv.step allowed with ⟨after, called, -⟩ | ⟨full, snoop⟩
    · exact nomatch failed.symm.trans called
    · exact ⟨(Except.error.inj (full.symm.trans failed)).symm, snoop⟩
  · rw [ports_lookupRequest done, mem_maskToPortList]
    refine Finset.mem_sdiff.mpr ⟨Finset.mem_union_left _ ((inv _).2 holds), fun same => ?_⟩
    cases port with
    | none => exact Finset.notMem_empty _ same
    | some port => exact other (congrArg some (Finset.mem_singleton.mp same))
  · rw [ports_lookupSnoop done, mem_maskToPortList]
    exact Finset.mem_union_left _ ((inv _).2 holds)

/-- A packet for a line of 64 bytes. -/
def packetFor (addr : Addr) (cmd : MemCmd) (cacheResponding : Bool) : SnoopPacket where
  toPacket := { Packet.ofRequest 0 (Request.make addr 64 0 0 0) cmd [] with cacheResponding := cacheResponding }
  isBlockCached := false

/-- Lines of 64 bytes, and an entry for one of them. -/
def oneEntry : FilterConfig := ⟨64, 1⟩

/-- A line is read by a cache and goes over to another one that will write it. -/
def handedOver (reader writer : Fin 2) : List (SnoopEvent 2) :=
  [.request (packetFor 0x40 .readSharedReq false) (some reader) false,
    .response (packetFor 0x40 .readResp false) (some reader), .request (packetFor 0x40 .readExReq false) (some writer) false,
    .snoopResponse (packetFor 0x40 .readExResp true) reader (some writer)]

/-- The rule at a run with a snoop response. -/
theorem misses_no_holder_handedOver : ∃ run, tryActions (act oneEntry) (init 2) (handedOver 0 1) = some run ∧
    run.holding 0x40 = {1} ∧ ∀ ports looked,
      run.filter.lookupSnoop oneEntry (packetFor 0x40 .readSharedReq false) = .ok (ports, looked) → 1 ∈ ports := by
  have holds : (tryActions (act oneEntry) (init 2) (handedOver 0 1)).map (fun run => run.holding 0x40) = some {1} := by
    decide +kernel
  obtain ⟨run, reached, holding⟩ := Option.map_eq_some_iff.mp holds
  refine ⟨run, reached, holding, fun ports looked done => ?_⟩
  refine (misses_no_holder oneEntry (handedOver 0 1) reached).2.2.2 _ ports looked done 1 ?_
  rw [show lineAddr oneEntry (packetFor 0x40 .readSharedReq false) = 0x40 by decide, holding]
  exact Finset.mem_singleton_self 1

/-- **Two panics can end the program**: that of a snoop for a line without an entry while another line has the only one,
and that of the response to a request that does not come from a cache, for a line that another port has an entry for. -/
theorem panics :
    ((tryActions (act oneEntry) (init 2) [.request (packetFor 0x40 .readSharedReq false) (some 0) false]).map fun run =>
      (run.step oneEntry (.snoop (packetFor 0x80 .readSharedReq false))).map fun _ => ()) =
        some (.error .exceededCapacity) ∧
    ((tryActions (act oneEntry) (init 2) [.request (packetFor 0x40 .readSharedReq false) (some 0) false,
      .request (packetFor 0x40 .readReq false) (some 1) false]).map fun run =>
      (run.filter.updateResponse oneEntry (packetFor 0x40 .readResp false) (some 1)).map fun _ => ()) =
        some (.error .missingRequestBit) := by
  decide +kernel

end SnoopRun

/-! ### Retried requests

A crossbar asks the snoop filter before it knows whether the request can go on, and tells the filter afterwards
whether the request will come again. `lookupRequest` keeps the line that it looked up and what was recorded of it;
`finishRequest` goes by these.

* `SnoopFilter.lookupRequest_cases` — what a lookup leaves behind, whatever the packet: nothing, or a filter that
  differs at one line only, with the old item of that line set aside.
* `SnoopFilter.retry_restores` — so a request that will be retried leaves the filter as it was, and any other one no
  entry without ports.
-/

namespace SnoopFilter

variable {n : Nat} {cfg : FilterConfig} {filter looked : SnoopFilter n} {pkt : SnoopPacket} {port : Option (Fin n)}
  {ports : List (Fin n)}

/-- Every entry has a port. -/
def NoNulls (filter : SnoopFilter n) : Prop :=
  ∀ line item, filter.cachedLocations.find? line = some item → item.requested ∪ item.holder ≠ ∅

/-- The filter `looked` is `filter` but for the line. -/
structure LookedUp (filter : SnoopFilter n) (line : Addr) (looked : SnoopFilter n) : Prop where
  lookupIt : looked.lookupIt = some line
  retryItem : looked.retryItem = filter.item line
  others : ∀ other, other ≠ line → looked.cachedLocations.find? other = filter.cachedLocations.find? other

theorem find?_setItem_self (line : Addr) (item : SnoopItem n) :
    (filter.setItem line item).cachedLocations.find? line = some item :=
  SortedMap.find?_insert_self ..

theorem find?_setItem_ne {line other : Addr} (item : SnoopItem n) (elsewhere : other ≠ line) :
    (filter.setItem line item).cachedLocations.find? other = filter.cachedLocations.find? other := by
  rw [setItem, SortedMap.find?_insert, if_neg elsewhere]

theorem find?_erase_self (line : Addr) : (filter.eraseIfNullEntry line).cachedLocations.find? line =
    if (filter.item line).requested ∪ (filter.item line).holder = ∅ then none
    else filter.cachedLocations.find? line := by
  unfold eraseIfNullEntry item
  cases found : filter.cachedLocations.find? line with
  | none =>
    dsimp only
    rw [found, ite_self]
  | some item =>
    dsimp only [Option.getD_some]
    split
    next => rw [SortedMap.find?_erase, if_pos rfl]
    next => exact found

theorem find?_erase_ne {line other : Addr} (elsewhere : other ≠ line) :
    (filter.eraseIfNullEntry line).cachedLocations.find? other = filter.cachedLocations.find? other := by
  unfold eraseIfNullEntry
  split
  next => rfl
  next =>
    split
    next => rw [SortedMap.find?_erase, if_neg elsewhere]
    next => rfl

theorem NoNulls.find?_eq (filled : filter.NoNulls) (line : Addr) : filter.cachedLocations.find? line
    = if (filter.item line).requested ∪ (filter.item line).holder = ∅ then none else some (filter.item line) := by
  unfold item
  cases found : filter.cachedLocations.find? line with
  | none => exact (if_pos rfl).symm
  | some item => exact (if_neg (filled line item found)).symm

/-- **What a lookup leaves behind.** -/
theorem lookupRequest_cases (done : filter.lookupRequest cfg pkt port = .ok (ports, looked)) :
    (looked.lookupIt = none ∧ looked.cachedLocations = filter.cachedLocations) ∨
      filter.LookedUp (lineAddr cfg pkt) looked := by
  have emplaced : ∀ other, other ≠ lineAddr cfg pkt →
      (if (filter.cachedLocations.find? (lineAddr cfg pkt)).isNone then filter.setItem (lineAddr cfg pkt) ⟨∅, ∅⟩
        else filter).cachedLocations.find? other = filter.cachedLocations.find? other := by
    intro other elsewhere
    split
    · exact find?_setItem_ne _ elsewhere
    · rfl
  simp only [lookupRequest] at done
  split at done
  · cases done
    exact .inl ⟨rfl, rfl⟩
  · refine .inr ?_
    generalize (if (filter.cachedLocations.find? (lineAddr cfg pkt)).isNone then filter.setItem (lineAddr cfg pkt) ⟨∅, ∅⟩
      else filter) = hit at emplaced done
    -- a call that returns has changed nothing more, or the item of the line
    split_ifs at done
    all_goals cases done
    all_goals refine ⟨rfl, rfl, fun other elsewhere => ?_⟩
    all_goals first
      | exact emplaced other elsewhere
      | exact (find?_setItem_ne _ elsewhere).trans (emplaced other elsewhere)

/-- **A retried request leaves the filter as it was**; any other one leaves no entry without ports. -/
theorem retry_restores (filled : filter.NoNulls) (done : filter.lookupRequest cfg pkt port = .ok (ports, looked)) :
    (∃ after, looked.finishRequest cfg true pkt.addr pkt.isSecure = .ok after ∧
      after.cachedLocations = filter.cachedLocations) ∧
    ∃ after, looked.finishRequest cfg false pkt.addr pkt.isSecure = .ok after ∧ after.NoNulls := by
  rcases lookupRequest_cases done with ⟨none, same⟩ | lookedUp
  · refine ⟨⟨looked, by rw [finishRequest, none], same⟩, looked, by rw [finishRequest, none], ?_⟩
    rw [NoNulls, same]
    exact filled
  · have finished : ∀ willRetry, looked.finishRequest cfg willRetry pkt.addr pkt.isSecure
        = .ok ((if willRetry then looked.setItem (lineAddr cfg pkt) looked.retryItem else looked).eraseIfNullEntry
          (lineAddr cfg pkt)) := fun willRetry => by
      rw [finishRequest, lookedUp.lookupIt]
      exact if_neg (not_not_intro rfl)
    refine ⟨⟨_, finished true, SortedMap.ext_find? fun line => ?_⟩, _, finished false, fun line item found => ?_⟩
    · rw [if_pos rfl]
      by_cases here : line = lineAddr cfg pkt
      · have restored : (looked.setItem (lineAddr cfg pkt) looked.retryItem).item (lineAddr cfg pkt)
            = filter.item (lineAddr cfg pkt) := by
          rw [item, find?_setItem_self, Option.getD_some, lookedUp.retryItem]
        rw [here, find?_erase_self, restored, find?_setItem_self, lookedUp.retryItem, filled.find?_eq]
      · rw [find?_erase_ne here, find?_setItem_ne _ here, lookedUp.others line here]
    · rw [if_neg Bool.false_ne_true] at found
      by_cases here : line = lineAddr cfg pkt
      · subst here
        rw [find?_erase_self] at found
        split at found
        next => cases found
        next ported => rwa [SnoopFilter.item, found, Option.getD_some] at ported
      · rw [find?_erase_ne here, lookedUp.others line here] at found
        exact filled line item found

open SnoopRun in
/-- The first request for a line, which gets an entry unless it will come again. -/
theorem retry_restores_first : ∃ ports looked,
    (init 2).lookupRequest oneEntry (packetFor 0x40 .readSharedReq false) (some 0) = .ok (ports, looked) ∧
      (∃ after, looked.finishRequest oneEntry true 0x40 false = .ok after ∧
        after.cachedLocations = (init 2).cachedLocations) ∧
      ∃ after, looked.finishRequest oneEntry false 0x40 false = .ok after ∧ after.NoNulls := by
  have allowed : AllowsRequest (packetFor 0x40 .readSharedReq false) (some 0)
      ((init 2).item (lineAddr oneEntry (packetFor 0x40 .readSharedReq false))) :=
    fun _ => Finset.empty_inter _
  obtain ⟨ports, looked, done, -⟩ := lookupRequest_eq allowed
  exact ⟨ports, looked, done, retry_restores (fun line item found => by cases found) done⟩

end SnoopFilter

end Emas.Gem5

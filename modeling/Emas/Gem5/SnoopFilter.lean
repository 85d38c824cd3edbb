/-
**The snoop filter.**

`class SnoopFilter` of `mem/snoop_filter.cc`: for each line, the ports that have a request for it outstanding and those
whose caches may hold it.

* A mask is the set of the snooping ports that have a bit; `setSlavePorts` checks that there are enough bits. A slave
  port that does not snoop is `none`, and its mask is empty.
* `reqLookupResult` is the line that its iterator stands at, and the item to restore.
* A panic, or an assertion that fails, ends the program. Latencies and statistics are not part of the model.
-/

import Emas.Gem5.Packet
import Emas.Lib.SortedMap
import Mathlib.Data.Fintype.Basic

namespace Emas.Gem5

/-- A packet with the flag `BLOCK_CACHED`. -/
structure SnoopPacket extends Packet where
  isBlockCached : Bool
  deriving DecidableEq

namespace Packet

variable (pkt : Packet)

def isResponse : Bool := pkt.cmd.test .isResponse
def isEviction : Bool := pkt.cmd.test .isEviction
def isWriteback : Bool := pkt.cmd.test .isEviction && pkt.cmd.test .hasData

end Packet

/-- The panics, by their texts, and the assertions. -/
inductive SnoopPanic where
  | doubleRequest | needToHold | notAHolder | exceededCapacity | doesNotHaveTheLine | missingOriginalRequest
  | missingRequestBit | assertion
  deriving DecidableEq, Repr

/-- `struct SnoopItem`. -/
@[ext]
structure SnoopItem (n : Nat) where
  requested : Finset (Fin n)
  holder : Finset (Fin n)
  deriving DecidableEq

/-- The parameters of a filter. -/
structure FilterConfig where
  linesize : Nat
  maxEntryCount : Nat

/-- `class SnoopFilter`, of a crossbar with `n` snooping ports. -/
structure SnoopFilter (n : Nat) where
  cachedLocations : SortedMap Addr (SnoopItem n)
  lookupIt : Option Addr
  retryItem : SnoopItem n

namespace SnoopFilter

variable {n : Nat} (cfg : FilterConfig) (filter : SnoopFilter n)

/-- The filter at the start. -/
def init (n : Nat) : SnoopFilter n := ⟨.empty, none, ⟨∅, ∅⟩⟩

/-- `line_addr` of an address: its block, with `LineSecure`. -/
def lineOf (addr : Addr) (isSecure : Bool) : Addr :=
  (addr &&& ~~~ BitVec.ofNat 64 (cfg.linesize - 1)) ||| if isSecure then 1 else 0

/-- `line_addr` of a packet. -/
def lineAddr (pkt : SnoopPacket) : Addr := pkt.getBlockAddr cfg.linesize ||| if pkt.isSecure then 1 else 0

def portToMask (port : Option (Fin n)) : Finset (Fin n) := port.elim ∅ fun port => {port}

def maskToPortList (ports : Finset (Fin n)) : List (Fin n) := (List.finRange n).filter (· ∈ ports)

/-- What is recorded of a line; a new item is empty. -/
def item (lineAddr : Addr) : SnoopItem n := (filter.cachedLocations.find? lineAddr).getD ⟨∅, ∅⟩

def setItem (lineAddr : Addr) (item : SnoopItem n) : SnoopFilter n :=
  { filter with cachedLocations := filter.cachedLocations.insert lineAddr item }

def eraseIfNullEntry (lineAddr : Addr) : SnoopFilter n :=
  match filter.cachedLocations.find? lineAddr with
  | none => filter
  | some item =>
    if item.requested ∪ item.holder = ∅ then
      { filter with cachedLocations := filter.cachedLocations.erase lineAddr }
    else filter

/-! ### Requests -/

/-- The request may allocate an entry. -/
def allocates (pkt : SnoopPacket) (slavePort : Option (Fin n)) : Bool :=
  !pkt.req.isUncacheable && slavePort.isSome && pkt.fromCache

/-- `lookupRequest( cpkt, slave_port )`: the ports to snoop. -/
def lookupRequest (pkt : SnoopPacket) (slavePort : Option (Fin n)) : Except SnoopPanic (List (Fin n) × SnoopFilter n) :=
  let line := lineAddr cfg pkt
  let reqPort := portToMask slavePort
  let found := filter.cachedLocations.find? line
  if found.isNone ∧ !allocates pkt slavePort then .ok ([], { filter with lookupIt := none })
  else
    let hit := if found.isNone then filter.setItem line ⟨∅, ∅⟩ else filter
    let item := filter.item line
    let looked := { hit with lookupIt := some line, retryItem := item }
    let ports := maskToPortList ((item.holder ∪ item.requested) \ reqPort)
    if !allocates pkt slavePort then .ok (ports, looked)
    else if pkt.needsResponse then
      if !pkt.cacheResponding then
        if (item.requested ∩ reqPort).Nonempty then .error .doubleRequest
        else .ok (ports, looked.setItem line { item with requested := item.requested ∪ reqPort })
      else if item.holder ∩ reqPort = ∅ then .error .needToHold
      else .ok (ports, looked)
    else if !pkt.isEviction then .error .assertion
    else if item.holder ∩ reqPort = ∅ then .error .notAHolder
    else if !pkt.isBlockCached then .ok (ports, looked.setItem line { item with holder := item.holder \ reqPort })
    else .ok (ports, looked)

def finishRequest (willRetry : Bool) (addr : Addr) (isSecure : Bool) : Except SnoopPanic (SnoopFilter n) :=
  match filter.lookupIt with
  | none => .ok filter
  | some line =>
    if ¬ line = lineOf cfg addr isSecure then .error .assertion
    else .ok ((if willRetry then filter.setItem line filter.retryItem else filter).eraseIfNullEntry line)

/-! ### Snoops -/

/-- `lookupSnoop( cpkt )`: the ports to snoop. -/
def lookupSnoop (pkt : SnoopPacket) : Except SnoopPanic (List (Fin n) × SnoopFilter n) :=
  if !pkt.isRequest then .error .assertion
  else
    let line := lineAddr cfg pkt
    match filter.cachedLocations.find? line with
    | none =>
      if cfg.maxEntryCount ≤ filter.cachedLocations.entries.length then .error .exceededCapacity
      else .ok ([], filter)
    | some item =>
      let ports := maskToPortList (item.holder ∪ item.requested)
      if !(pkt.isWriteback || pkt.req.isUncacheable || (pkt.isInvalidate == pkt.needsWritable) ||
          pkt.req.isCacheMaintenance) then .error .assertion
      else if pkt.isInvalidate ∧ item.requested = ∅ then
        .ok (ports, (filter.setItem line { item with holder := ∅ }).eraseIfNullEntry line)
      else .ok (ports, filter)

def updateSnoopResponse (pkt : SnoopPacket) (rspPort reqPort : Option (Fin n)) : Except SnoopPanic (SnoopFilter n) :=
  if !pkt.isResponse then .error .assertion
  else if !pkt.cacheResponding then .error .assertion
  else if pkt.req.isUncacheable || reqPort.isNone then .ok filter
  else
    let line := lineAddr cfg pkt
    let item := filter.item line
    let reqMask := portToMask reqPort
    if item.holder ∩ portToMask rspPort = ∅ then .error .doesNotHaveTheLine
    else if item.requested ∩ reqMask = ∅ then .error .missingOriginalRequest
    else if pkt.isWriteback then .error .assertion
    else
      let holder := if !pkt.hasSharers then ∅ else item.holder
      let item := { item with holder := holder ∪ reqMask, requested := item.requested \ reqMask }
      if item.requested ∪ item.holder = ∅ then .error .assertion
      else .ok (filter.setItem line item)

def updateSnoopForward (pkt : SnoopPacket) : Except SnoopPanic (SnoopFilter n) :=
  if !pkt.isResponse then .error .assertion
  else if !pkt.cacheResponding then .error .assertion
  else
    let line := lineAddr cfg pkt
    match filter.cachedLocations.find? line with
    | none => .ok filter
    | some item =>
      if !pkt.hasSharers then .ok ((filter.setItem line { item with holder := ∅ }).eraseIfNullEntry line)
      else .ok filter

def updateResponse (pkt : SnoopPacket) (slavePort : Option (Fin n)) : Except SnoopPanic (SnoopFilter n) :=
  if !pkt.isResponse then .error .assertion
  else if pkt.req.isUncacheable || slavePort.isNone then .ok filter
  else
    let line := lineAddr cfg pkt
    match filter.cachedLocations.find? line with
    | none => .ok filter
    | some item =>
      let slaveMask := portToMask slavePort
      if item.requested ∩ slaveMask = ∅ then .error .missingRequestBit
      else
        let item := { item with requested := item.requested \ slaveMask }
        if pkt.req.isCacheMaintenance then
          let item := if pkt.isInvalidate then { item with holder := item.holder \ slaveMask } else item
          .ok ((filter.setItem line item).eraseIfNullEntry line)
        else
          let item := { item with holder := item.holder ∪ slaveMask }
          if item.holder ∪ item.requested = ∅ then .error .assertion
          else .ok (filter.setItem line item)

end SnoopFilter

end Emas.Gem5

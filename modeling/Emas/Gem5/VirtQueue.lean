/-
**VirtIO queues.**

`dev/virtio/base.cc` up to the chains of descriptors that a queue hands to a device. The guest's memory is
a function from addresses to bytes; descriptors are read from it into the queue's own copies (`update`),
and everything after that works on the copies.

* A loop takes its bound as fuel; it may also run into a `Fault`. A failed assertion and a panic stop the
  simulator with a message (`Fault.aborts`). An index outside `descriptors` and a division by zero are
  undefined behaviour.
* Descriptors are named by their index; `&descriptors[index]` is `getDescriptor`.
-/

import Emas.Lib.Outcome
import Mathlib.Algebra.Group.Nat.Defs

namespace Emas.Gem5

/-! ### Guest memory -/

/-- `enum ByteOrder`. -/
inductive ByteOrder where
  | little
  | big
  deriving DecidableEq, Repr

/-- Addresses are 64 bits wide. -/
def addrLimit : Nat := 2 ^ 64

abbrev GuestMemory := Nat → UInt8

def GuestMemory.readBlob (memory : GuestMemory) (addr size : Nat) : List UInt8 :=
  (List.range size).map fun i => memory ((addr + i) % addrLimit)

def GuestMemory.writeBlob (memory : GuestMemory) (addr : Nat) (data : List UInt8) : GuestMemory := fun at' =>
  data.getD ((at' + addrLimit - addr % addrLimit) % addrLimit) (memory at')

/-- `gtoh( .., order )`: the number that the bytes of the guest stand for. -/
def gtoh (order : ByteOrder) (bytes : List UInt8) : Nat :=
  match order with
  | .little => bytes.foldr (fun byte rest => byte.toNat + 256 * rest) 0
  | .big => bytes.foldl (fun rest byte => 256 * rest + byte.toNat) 0

/-- A number of `size` bytes at an address. -/
def GuestMemory.readNumber (memory : GuestMemory) (order : ByteOrder) (addr size : Nat) : Nat :=
  gtoh order (memory.readBlob addr size)

/-! ### Descriptors -/

/-- `vring_desc`. -/
structure VringDesc where
  addr : Nat
  len : Nat
  flags : Nat
  next : Nat
  deriving DecidableEq, Repr

/-- `sizeof( vring_desc )`. -/
def VringDesc.bytes : Nat := 16

/-- The descriptor at an address of the guest. -/
def GuestMemory.readDesc (memory : GuestMemory) (order : ByteOrder) (addr : Nat) : VringDesc where
  addr := memory.readNumber order addr 8
  len := memory.readNumber order (addr + 8) 4
  flags := memory.readNumber order (addr + 12) 2
  next := memory.readNumber order (addr + 14) 2

namespace VringDesc

variable (desc : VringDesc)

/-- `desc.flags & VRING_DESC_F_NEXT`. -/
def hasNext : Bool := desc.flags.testBit 0

/-- `desc.flags & VRING_DESC_F_WRITE`. -/
def isOutgoing : Bool := desc.flags.testBit 1

def isIncoming : Bool := !desc.isOutgoing

end VringDesc

/-- How the code may end other than by returning. -/
inductive Fault where
  /-- A failed `assert`. -/
  | assertion
  /-- "Loop in descriptor chain!" -/
  | loopInChain
  /-- "Trying to read from outgoing buffer" -/
  | readOutgoing
  /-- "Trying to write to incoming buffer" -/
  | writeIncoming
  /-- "Failed to read %i bytes from chain of %i bytes @ offset %i" -/
  | failedRead (size chainSize offset : Nat)
  /-- "Failed to write %i bytes into chain of %i bytes @ offset %i" -/
  | failedWrite (size chainSize offset : Nat)
  /-- `descriptors[index]` outside the vector. -/
  | outOfBounds (index : Nat)
  | divisionByZero
  deriving DecidableEq, Repr

/-- The simulator stops with a message. -/
def Fault.aborts : Fault → Bool
  | .outOfBounds _ | .divisionByZero => false
  | _ => true

/-! ### Queues -/

/-- `VirtQueue`, with the rings' base addresses and what was last read of the available ring. -/
structure VirtQueue where
  byteOrder : ByteOrder
  size : Nat
  address : Nat
  availBase : Nat
  usedBase : Nat
  availIndex : Nat
  availRing : List Nat
  lastAvail : Nat
  descriptors : Nat → VringDesc

namespace VirtQueue

/-- `VirtQueue( proxy, bo, size )`. -/
def make (byteOrder : ByteOrder) (size : Nat) : VirtQueue where
  byteOrder := byteOrder
  size := size
  address := 0
  availBase := 0
  usedBase := 0
  availIndex := 0
  availRing := List.replicate size 0
  lastAvail := 0
  descriptors _ := ⟨0, 0, 0, 0⟩

variable (queue : VirtQueue) (memory : GuestMemory)

/-- `setAddress( address )`, with `ALIGN_SIZE` = 4096. -/
def setAddress (address : Nat) : VirtQueue :=
  let addrAvail := (address + queue.size * VringDesc.bytes) % addrLimit
  let addrAvailEnd := (addrAvail + 4 + queue.size * 2) % addrLimit
  let addrUsed := (addrAvailEnd + 2 + (4096 - 1)) % addrLimit / 4096 * 4096
  { queue with address := address, availBase := addrAvail, usedBase := addrUsed }

def getDescriptor (index : Nat) : Except Fault Nat :=
  if index < queue.size then .ok index else .error (.outOfBounds index)

def update (index : Nat) : Outcome Fault VirtQueue :=
  if queue.address = 0 then .done queue
  else if index < queue.size then
    let descAddr := queue.address + VringDesc.bytes * index
    let desc := memory.readDesc queue.byteOrder descAddr
    .done { queue with descriptors := fun other => if other = index then desc else queue.descriptors other }
  else .fault .assertion queue

def next (index : Nat) : Except Fault (Option Nat) :=
  let desc := queue.descriptors index
  if desc.hasNext then (queue.getDescriptor desc.next).map some else .ok none

/-- The loop of `updateChain`. -/
def updateChainFrom (head : Nat) : Nat → VirtQueue → Nat → Outcome Fault VirtQueue
  | 0, queue, _ => .outOfFuel queue
  | fuel + 1, queue, desc =>
    (queue.update memory desc).bind fun queue =>
      match queue.next desc with
      | .error cause => .fault cause queue
      | .ok none => .done queue
      | .ok (some next) =>
        if next = head then .fault .loopInChain queue else updateChainFrom head fuel queue next

def updateChain (fuel head : Nat) : Outcome Fault VirtQueue :=
  updateChainFrom memory head fuel queue head

/-- `avail.read( )`, past its assertion. -/
def readAvail : VirtQueue :=
  { queue with
    availIndex := memory.readNumber queue.byteOrder (queue.availBase + 2) 2
    availRing := (List.range queue.size).map fun i =>
      memory.readNumber queue.byteOrder (queue.availBase + 4 + 2 * i) 2 }

/-- `consumeDescriptor( )`: the queue, and the descriptor or nothing. -/
def consumeDescriptor (fuel : Nat) : Outcome Fault (VirtQueue × Option Nat) :=
  if queue.availBase = 0 then .fault .assertion (queue, none)
  else
    let queue := queue.readAvail memory
    if queue.lastAvail = queue.availIndex then .done (queue, none)
    else if queue.size = 0 then .fault .divisionByZero (queue, none)
    else
      let index := queue.availRing.getD (queue.lastAvail % queue.size) 0
      let queue := { queue with lastAvail := (queue.lastAvail + 1) % 2 ^ 16 }
      match queue.getDescriptor index with
      | .error cause => .fault cause (queue, none)
      | .ok d => (queue.updateChain memory fuel d).map id fun queue => (queue, some d)

/-! ### What a device does with a chain -/

/-- `VirtDescriptor::read( offset, dst, size )`: the bytes for `dst`. -/
def read (index offset size : Nat) : Except Fault (List UInt8) :=
  let desc := queue.descriptors index
  if desc.len - offset < size then .error .assertion
  else if desc.isOutgoing then .error .readOutgoing
  else .ok (memory.readBlob (desc.addr + offset) size)

/-- `VirtDescriptor::write( offset, src, size )`: the memory afterwards. -/
def write (index offset : Nat) (src : List UInt8) : Except Fault GuestMemory :=
  let desc := queue.descriptors index
  if desc.len - offset < src.length then .error .assertion
  else if desc.isIncoming then .error .writeIncoming
  else .ok (memory.writeBlob (desc.addr + offset) src)

/-- The loop of `chainSize`. -/
def chainSizeFrom : Nat → Nat → Nat → Outcome Fault Nat
  | 0, size, _ => .outOfFuel size
  | fuel + 1, size, desc =>
    let size := (size + (queue.descriptors desc).len) % addrLimit
    match queue.next desc with
    | .error cause => .fault cause size
    | .ok none => .done size
    | .ok (some next) => chainSizeFrom fuel size next

def chainSize (fuel this : Nat) : Outcome Fault Nat := queue.chainSizeFrom fuel 0 this

/-- Where a transfer is: the buffer, and what is left of `offset` and `size`. -/
structure Transfer (σ : Type) where
  buffer : σ
  offset : Nat
  size : Nat

variable {σ : Type}

def transferStep (access : Nat → Nat → Nat → σ → Except Fault σ) (desc : Nat) (transfer : Transfer σ) :
    Except Fault (Transfer σ) :=
  let len := (queue.descriptors desc).len
  if transfer.offset < len then
    let chunkSize := min (len - transfer.offset) transfer.size
    (access desc transfer.offset chunkSize transfer.buffer).map fun buffer =>
      ⟨buffer, 0, transfer.size - chunkSize⟩
  else .ok { transfer with offset := transfer.offset - len }

/-- The loop of `chainRead` and `chainWrite`: `access` transfers a chunk, `continues` is asked of the next
descriptor. -/
def transferFrom (access : Nat → Nat → Nat → σ → Except Fault σ) (continues : VringDesc → Bool) :
    Nat → Nat → Transfer σ → Outcome Fault (Transfer σ)
  | 0, _, transfer => .outOfFuel transfer
  | fuel + 1, desc, transfer =>
    match queue.transferStep access desc transfer with
    | .error cause => .fault cause transfer
    | .ok transfer =>
      match queue.next desc with
      | .error cause => .fault cause transfer
      | .ok none => .done transfer
      | .ok (some next) =>
        if continues (queue.descriptors next) && decide (0 < transfer.size) then
          transferFrom access continues fuel next transfer
        else .done transfer

/-- A transfer that fails to get everything across panics, and asks for the size of the chain for that. -/
def transfer (access : Nat → Nat → Nat → σ → Except Fault σ) (continues : VringDesc → Bool)
    (failed : Nat → Nat → Nat → Fault) (fuel this offset size : Nat) (buffer : σ) : Outcome Fault (Transfer σ) :=
  (queue.transferFrom access continues fuel this ⟨buffer, offset, size⟩).bind fun transfer =>
    if transfer.size = 0 then .done transfer
    else match queue.chainSize fuel this with
      | .done total => .fault (failed size total transfer.offset) transfer
      | .fault cause _ => .fault cause transfer
      | .outOfFuel _ => .outOfFuel transfer

/-- `VirtDescriptor::chainRead( offset, dst, size )`; the buffer is `dst` so far. -/
def chainRead (fuel this offset size : Nat) : Outcome Fault (Transfer (List UInt8)) :=
  queue.transfer
    (fun desc offset chunkSize dst => (queue.read memory desc offset chunkSize).map (dst ++ ·))
    VringDesc.isIncoming .failedRead fuel this offset size []

/-- `VirtDescriptor::chainWrite( offset, src, size )`; the buffer is the memory, with what is left of `src`. -/
def chainWrite (fuel this offset : Nat) (src : List UInt8) : Outcome Fault (Transfer (GuestMemory × List UInt8)) :=
  queue.transfer
    (fun desc offset chunkSize buffer =>
      (queue.write buffer.1 desc offset (buffer.2.take chunkSize)).map fun memory =>
        (memory, buffer.2.drop chunkSize))
    (fun _ => true) .failedWrite fuel this offset src.length (memory, src)

end VirtQueue

end Emas.Gem5

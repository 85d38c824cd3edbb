/-
**Circular buffers as byte streams.**

`CircleBuf` and `Fifo` of `base/circlebuf.hh`: elements are copied into and out of a `CircularQueue` through its
iterators, and `advance_tail` and `pop_front` move its ends afterwards.

* An array that is written is the list of its elements, and the result of a read is the list that is copied out. The
  offset of `peek`, an `off_t`, is not negative.
* There is no result (`none`) where the program panics, an assertion fails, an element outside of the vector is read, or
  the `int` that counts the steps of `advance_tail` overflows.
* A run saves its buffer into a checkpoint with `arrayParamOut` and restores it with `arrayParamIn`, one of them any time
  after the other.
-/

import Emas.Gem5.Checkpoint
import Emas.Gem5.QueueIterators
import Emas.Lib.PartialRun

namespace Emas.Gem5

namespace CircularQueue

variable {T : Type} (buf : CircularQueue T)

/-- `std::copy( in, in + len, it )`. -/
def copyIn (buf : CircularQueue T) : List T → Spot → CircularQueue T
  | [], _ => buf
  | value :: rest, it => copyIn { buf with slots := buf.slots.set it.slot value } rest (buf.next it)

/-- `std::copy( it, last, out )`, with `last - it` elements. -/
def copyOut : Nat → Spot → Option (List T)
  | 0, _ => some []
  | n + 1, it => buf.slots[it.slot]?.bind fun value => (copyOut n (buf.next it)).map (value :: ·)

/-- `advance_tail( len )`: the loop counts in an `int`. -/
def advanceTailBy (len : Nat) : Option (CircularQueue T) := if len < 2 ^ 31 then some (advanceTail^[len] buf) else none

end CircularQueue

namespace CircleBuf

variable {T : Type} (buf : CircularQueue T)

/-- `peek( out, offset, len )`: the sum of the check is one of words of 64 bits. -/
def peek (offset len : Nat) : Option (List T) :=
  if (offset + len) % (word * word) > buf.size then none
  else
    let first := buf.advance buf.beginIt offset
    let last := buf.advance first len
    buf.copyOut (buf.difference last first).toNat first

def read (len : Nat) : Option (List T × CircularQueue T) :=
  (peek buf 0 len).bind fun out => (buf.popFront len).map (out, ·)

/-- `write( in, len )`: of a longer array only the last part is written. -/
def write (values : List T) : Option (CircularQueue T) :=
  let values := if values.length > buf.capacity then values.drop (values.length - buf.capacity) else values
  (buf.copyIn values buf.endIt).advanceTailBy values.length

end CircleBuf

namespace Fifo

variable {T : Type} (buf : CircularQueue T)

def write (values : List T) : Option (CircularQueue T) :=
  if buf.size + values.length > buf.capacity then none else CircleBuf.write buf values

end Fifo

/-! ### Runs -/

/-- The two classes. A `Fifo` has a `CircleBuf` for its only member, and differs in `write`. -/
inductive BufferClass where
  | circleBuf
  | fifo
  deriving DecidableEq

namespace BufferClass

variable (cls : BufferClass)

def write {T : Type} (buf : CircularQueue T) (values : List T) : Option (CircularQueue T) :=
  match cls with
  | circleBuf => CircleBuf.write buf values
  | fifo => Fifo.write buf values

def arrayParamOut (entry : Checkpoint.Entry) (param : CircularQueue UInt8) : Option (List Char) :=
  (CircleBuf.peek param 0 param.size).map (Checkpoint.checkpoint entry)

/-- `arrayParamIn( cp, name, param )`: a `Fifo` checks the size. -/
def arrayParamIn (entry : Checkpoint.Entry) (text : List Char) (param : CircularQueue UInt8) :
    Option (CircularQueue UInt8) :=
  (Checkpoint.arrayParamIn entry text).bind fun temp =>
    if cls = fifo ∧ param.capacity < temp.length then none else cls.write param.flush temp

end BufferClass

/-- A call of a buffer; a `Fifo` is peeked at from its first element on. -/
inductive BufferCall where
  | write (values : List UInt8)
  | peek (offset len : Nat)
  | read (len : Nat)
  | flush
  | save
  | restore
  deriving DecidableEq

/-- A buffer of bytes, the text of the checkpoint, and what the calls have copied out. -/
structure BufferRun where
  buf : CircularQueue UInt8
  checkpoint : List Char
  copied : List (List UInt8)

namespace BufferRun

def create (capacity : Nat) : BufferRun := ⟨.create capacity, [], []⟩

variable (cls : BufferClass) (entry : Checkpoint.Entry)

def act (run : BufferRun) : BufferCall → Option BufferRun
  | .write values => (cls.write run.buf values).map fun buf => { run with buf := buf }
  | .peek offset len => (CircleBuf.peek run.buf offset len).map fun out => { run with copied := run.copied ++ [out] }
  | .read len => (CircleBuf.read run.buf len).map fun result =>
      { run with buf := result.2, copied := run.copied ++ [result.1] }
  | .flush => some { run with buf := run.buf.flush }
  | .save => (BufferClass.arrayParamOut entry run.buf).map fun text => { run with checkpoint := text }
  | .restore => (cls.arrayParamIn entry run.checkpoint run.buf).map fun buf => { run with buf := buf }

end BufferRun

/-! ### The bounded stream -/

/-- A bounded byte stream, the contents that were saved last, and what the calls have copied out. -/
structure StreamRun where
  contents : List UInt8
  saved : Option (List UInt8)
  copied : List (List UInt8)

namespace StreamRun

def start : StreamRun := ⟨[], none, []⟩

/-- What is written is appended: a `CircleBuf` keeps the last elements, a `Fifo` refuses what does not fit. -/
def write {T : Type} (cls : BufferClass) (capacity : Nat) (contents values : List T) : Option (List T) :=
  match cls with
  | .circleBuf => some ((contents ++ values).rtake capacity)
  | .fifo => if contents.length + values.length > capacity then none else some (contents ++ values)

/-- What is shown are the elements from the offset on, if there are so many. -/
def peek {T : Type} (contents : List T) (offset len : Nat) : Option (List T) :=
  if offset + len > contents.length then none else some ((contents.drop offset).take len)

def act (cls : BufferClass) (capacity : Nat) (run : StreamRun) : BufferCall → Option StreamRun
  | .write values => (write cls capacity run.contents values).map fun contents => { run with contents := contents }
  | .peek offset len => (peek run.contents offset len).map fun out => { run with copied := run.copied ++ [out] }
  | .read len => (peek run.contents 0 len).map fun out =>
      { run with contents := run.contents.drop len, copied := run.copied ++ [out] }
  | .flush => some { run with contents := [] }
  | .save => some { run with saved := some run.contents }
  | .restore => run.saved.map fun saved => { run with contents := saved }

end StreamRun

end Emas.Gem5

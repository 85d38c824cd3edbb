/-
**Functional accesses.**

`Packet::trySatisfyFunctional` of `mem/packet.cc` and `mem/packet.hh`: a packet that reads or writes at once is
compared with every value that is on its way through the memory system, and `PacketQueue::trySatisfyFunctional`
of `mem/packet_queue.cc` does so with the packets of a queue.

* The arithmetic is that of 64-bit addresses with inclusive ends; the size of a value is an `int`.
* A payload has one byte for each byte of its packet. What a label or a print request prints is not part of the
  model.

### Reading the code by addresses

`byteAt base bytes a` is the byte at the address `a` of bytes that start at `base`. `memcpy_overlap` says what
the three offsets of a call do to the byte at every address, and `scan_mark` what the call returns.
-/

import Emas.Gem5.Packet

namespace Emas.Gem5

def Packet.isPrint (pkt : Packet) : Bool := pkt.cmd.test .isPrint

/-- A packet with `bytesValid`. -/
structure FunctionalPacket extends Packet where
  bytesValid : List Bool
  deriving DecidableEq

/-- A memory value: a base, a security bit, a size and an array of data, or `nullptr`. -/
structure MemoryValue where
  base : Addr
  isSecure : Bool
  size : BitVec 32
  data : Option (List UInt8)
  deriving DecidableEq

/-- How a call may end other than by returning. -/
inductive FunctionalFailure where
  /-- `assert( !_data )` of a print request. -/
  | printsData
  /-- "Don't know how to handle command" -/
  | unknownCommand
  | outOfBounds
  deriving DecidableEq, Repr

/-! ### The call -/

section Arrays

variable {α : Type}

/-- `memcpy( dst + offset, src + offset', count )`: the array at `dst` afterwards. -/
def memcpy (dst : List α) (offset : Nat) (src : List α) (offset' count : Nat) : Option (List α) :=
  if offset + count ≤ dst.length ∧ offset' + count ≤ src.length then
    some (dst.take offset ++ (src.drop offset').take count ++ dst.drop (offset + count))
  else none

/-- `for (; all && i < i + count; ++i) all &= valid[i];` -/
def scanValid (valid : List Bool) : Nat → Nat → Bool → Bool
  | 0, _, all => all
  | count + 1, i, all => if all then scanValid valid count (i + 1) (all && valid.getD i false) else all

/-- `for (; i < i + count; ++i) valid[i] = true;` -/
def markValid : Nat → Nat → List Bool → List Bool
  | 0, _, valid => valid
  | count + 1, i, valid => markValid count (i + 1) (valid.set i true)

end Arrays

namespace FunctionalPacket

/-- The start of the value, or of the part of it that the packet covers. -/
def offsetFrom (start other : Addr) : Addr := if other < start then start - other else 0

variable (pkt : FunctionalPacket)

/-- What a call does with the overlap. -/
def exchange (value : MemoryValue) (data : List UInt8) (valOffset funcOffset overlapSize : Nat) :
    Except FunctionalFailure (Bool × FunctionalPacket × MemoryValue) :=
  if pkt.isRead then
    match memcpy pkt.data funcOffset data valOffset overlapSize with
    | none => .error .outOfBounds
    | some copied =>
      let bytesValid := if pkt.bytesValid = [] then List.replicate pkt.size false else pkt.bytesValid
      let before := scanValid bytesValid funcOffset 0 true
      let bytesValid := markValid overlapSize funcOffset bytesValid
      let all := scanValid bytesValid (pkt.size - (funcOffset + overlapSize)) (funcOffset + overlapSize) before
      .ok (all, { pkt with data := copied, bytesValid := bytesValid }, value)
  else if pkt.isWrite then
    match memcpy data valOffset pkt.data funcOffset overlapSize with
    | none => .error .outOfBounds
    | some copied => .ok (false, pkt, { value with data := some copied })
  else .error .unknownCommand

/-- `trySatisfyFunctional( obj, addr, is_secure, size, _data )`: whether the packet is satisfied, the packet and the
value. -/
def trySatisfy (value : MemoryValue) : Except FunctionalFailure (Bool × FunctionalPacket × MemoryValue) :=
  let funcStart := pkt.addr
  let funcEnd := pkt.addr + BitVec.ofNat 64 pkt.size - 1
  let valStart := value.base
  let valEnd := valStart + value.size.signExtend 64 - 1
  if value.isSecure ≠ pkt.isSecure ∨ valEnd < funcStart ∨ funcEnd < valStart then .ok (false, pkt, value)
  else if pkt.isPrint then if value.data.isSome then .error .printsData else .ok (false, pkt, value)
  else match value.data with
    | none => .ok (false, pkt, value)
    | some data =>
      let valOffset := offsetFrom funcStart valStart
      let funcOffset := offsetFrom valStart funcStart
      let overlapSize := min valEnd funcEnd + 1 - max valStart funcStart
      pkt.exchange value data valOffset.toNat funcOffset.toNat overlapSize.toNat

/-- `trySatisfyFunctional( other )`: whether the packet is satisfied, the packet and the payload of the other one. -/
def trySatisfyFunctional (other : Packet) : Except FunctionalFailure (Bool × FunctionalPacket × List UInt8) :=
  if other.isMaskedWrite then .ok (false, pkt, other.data)
  else
    (pkt.trySatisfy
      ⟨other.addr, other.isSecure, BitVec.ofNat 32 other.size, if other.hasData then some other.data else none⟩).map
      fun (found, pkt, value) => (found, pkt, value.data.getD other.data)

end FunctionalPacket

/-- The loop of `PacketQueue::trySatisfyFunctional( pkt )` over the packets of the list. -/
def trySatisfyList : FunctionalPacket → List DeferredPacket →
    Except FunctionalFailure (Bool × FunctionalPacket × List DeferredPacket)
  | pkt, [] => .ok (false, pkt, [])
  | pkt, i :: rest =>
    match pkt.trySatisfyFunctional i.pkt.toPacket with
    | .error failure => .error failure
    | .ok (found, pkt, data) =>
      let i := { i with pkt := { i.pkt with data := data } }
      if found then .ok (true, pkt, i :: rest)
      else (trySatisfyList pkt rest).map fun (found, pkt, rest) => (found, pkt, i :: rest)

def PacketQueue.trySatisfyFunctional (queue : PacketQueue) (pkt : FunctionalPacket) :
    Except FunctionalFailure (Bool × FunctionalPacket × PacketQueue) :=
  (trySatisfyList pkt queue.transmitList).map fun (found, pkt, list) => (found, pkt, { queue with transmitList := list })

/-! ### Bytes by their addresses -/

section ByteAt

variable {α β : Type} {base base' a : Nat} {bytes dst src : List α}

/-- What is at an address of an array that starts at `base`. -/
def byteAt (base : Nat) (bytes : List α) (a : Nat) : Option α := if base ≤ a then bytes[a - base]? else none

/-- Two arrays share an address, or one is empty inside of the other. -/
def Meets (base : Nat) (bytes : List α) (base' : Nat) (bytes' : List β) : Prop :=
  base < base' + bytes'.length ∧ base' < base + bytes.length

instance (bytes' : List β) : Decidable (Meets base bytes base' bytes') := inferInstanceAs (Decidable (_ ∧ _))

theorem byteAt_eq_some_iff {value : α} : byteAt base bytes a = some value ↔ base ≤ a ∧ bytes[a - base]? = some value := by
  rw [byteAt]
  split
  next from' => rw [and_iff_right from']
  next before => simp [before]

theorem byteAt_isSome : (byteAt base bytes a).isSome ↔ base ≤ a ∧ a < base + bytes.length := by
  rw [byteAt]
  split
  next from' =>
    rw [Option.isSome_iff_ne_none, ne_eq, List.getElem?_eq_none_iff]
    omega
  next before => simp [before]

theorem byteAt_eq_none : byteAt base bytes a = none ↔ ¬(base ≤ a ∧ a < base + bytes.length) := by
  rw [← byteAt_isSome, Bool.not_eq_true, Option.isSome_eq_false_iff, Option.isNone_iff_eq_none]

theorem byteAt_of_apart {bytes' : List β} (apart : ¬Meets base bytes base' bytes')
    (inside : (byteAt base bytes a).isSome) : byteAt base' bytes' a = none := by
  rw [byteAt_isSome] at inside
  rw [byteAt_eq_none]
  unfold Meets at apart
  omega

theorem memcpy_getElem? {offset offset' count : Nat} {copied : List α}
    (done : memcpy dst offset src offset' count = some copied) (j : Nat) :
    copied[j]? = if offset ≤ j ∧ j < offset + count then src[offset' + (j - offset)]? else dst[j]? := by
  unfold memcpy at done
  split at done
  next inside =>
    obtain rfl := Option.some.inj done
    have first : (dst.take offset).length = offset := by
      rw [List.length_take]
      omega
    have middle : ((src.drop offset').take count).length = count := by
      rw [List.length_take, List.length_drop]
      omega
    rcases Nat.lt_or_ge j offset with before | after
    · rw [if_neg (by omega), List.append_assoc, List.getElem?_append_left (by omega), List.getElem?_take_of_lt before]
    rcases Nat.lt_or_ge j (offset + count) with within | beyond
    · rw [if_pos ⟨after, within⟩, List.append_assoc, List.getElem?_append_right (by omega), first,
        List.getElem?_append_left (by omega), List.getElem?_take_of_lt (by omega), List.getElem?_drop]
    · rw [if_neg (by omega), List.getElem?_append_right (by rw [List.length_append]; omega), List.length_append, first,
        middle, List.getElem?_drop]
      congr 1
      omega
  next => cases done

/-- **A copy of the overlap** changes the bytes that both arrays have. -/
theorem memcpy_overlap (meets : Meets base dst base' src) :
    ∃ copied, memcpy dst (base' - base) src (base - base')
        (min (base' + src.length) (base + dst.length) - max base' base) = some copied ∧
      copied.length = dst.length ∧ ∀ a, byteAt base copied a = (byteAt base dst a).map fun old =>
        (byteAt base' src a).getD old := by
  obtain ⟨left, right⟩ := meets
  have inside : base' - base + (min (base' + src.length) (base + dst.length) - max base' base) ≤ dst.length ∧
      base - base' + (min (base' + src.length) (base + dst.length) - max base' base) ≤ src.length := by
    omega
  obtain ⟨copied, done⟩ : ∃ copied, memcpy dst (base' - base) src (base - base')
      (min (base' + src.length) (base + dst.length) - max base' base) = some copied := ⟨_, if_pos inside⟩
  have length : copied.length = dst.length := by
    rw [memcpy, if_pos inside] at done
    obtain rfl := Option.some.inj done
    simp only [List.length_append, List.length_take, List.length_drop]
    omega
  refine ⟨copied, done, length, fun a => ?_⟩
  cases old : byteAt base dst a with
  | none =>
    rw [byteAt_eq_none] at old
    rw [Option.map_none, byteAt_eq_none, length]
    exact old
  | some value =>
    have within := byteAt_isSome.mp (Option.isSome_of_eq_some old)
    obtain ⟨from', value_at⟩ := byteAt_eq_some_iff.mp old
    rw [Option.map_some, byteAt, if_pos from', memcpy_getElem? done]
    cases new : byteAt base' src a with
    | none =>
      rw [byteAt_eq_none] at new
      rw [if_neg (by omega), Option.getD_none, value_at]
    | some value' =>
      have within' := byteAt_isSome.mp (Option.isSome_of_eq_some new)
      have index : base - base' + (a - base - (base' - base)) = a - base' := by omega
      rw [if_pos (by omega), Option.getD_some, index, (byteAt_eq_some_iff.mp new).2]

end ByteAt

/-! ### Valid bytes -/

section Valid

variable {valid : List Bool}

theorem scanValid_true (count i : Nat) (all : Bool) :
    scanValid valid count i all ↔ all ∧ ∀ j, i ≤ j → j < i + count → valid.getD j false := by
  induction count generalizing i all with
  | zero =>
    refine ⟨fun all => ⟨all, fun j from' below => absurd below (by omega)⟩, And.left⟩
  | succ count ih =>
    cases all with
    | false => simp [scanValid]
    | true =>
      rw [scanValid, if_pos rfl, Bool.true_and, ih]
      refine ⟨fun ⟨here, later⟩ => ⟨rfl, fun j from' below => ?_⟩, fun ⟨_, each⟩ => ⟨each i (Nat.le_refl i) (by omega), ?_⟩⟩
      · rcases Nat.eq_or_lt_of_le from' with rfl | more
        · exact here
        · exact later j more (by omega)
      · exact fun j from' below => each j (by omega) (by omega)

theorem length_markValid (count i : Nat) (valid : List Bool) : (markValid count i valid).length = valid.length := by
  induction count generalizing i valid with
  | zero => rfl
  | succ count ih => rw [markValid, ih, List.length_set]

theorem getD_markValid {count i : Nat} (fits : i + count ≤ valid.length) (j : Nat) :
    (markValid count i valid).getD j false = (decide (i ≤ j ∧ j < i + count) || valid.getD j false) := by
  induction count generalizing i valid with
  | zero => rw [markValid, decide_eq_false (by omega), Bool.false_or]
  | succ count ih =>
    rw [markValid, ih (by rw [List.length_set]; omega), List.getD_eq_getElem?_getD, List.getD_eq_getElem?_getD,
      List.getElem?_set]
    by_cases here : i = j
    · subst here
      rw [if_pos rfl, if_pos (by omega), Option.getD_some, Bool.or_true, decide_eq_true (by omega), Bool.true_or]
    · have same : (i + 1 ≤ j ∧ j < i + 1 + count) ↔ (i ≤ j ∧ j < i + (count + 1)) := by omega
      rw [if_neg here, decide_eq_decide.mpr same]

/-- **The two scans around the marks** tell whether every byte is valid afterwards. -/
theorem scan_mark {offset count : Nat} (fits : offset + count ≤ valid.length) :
    scanValid (markValid count offset valid) (valid.length - (offset + count)) (offset + count)
        (scanValid valid offset 0 true) ↔ ∀ j, j < valid.length → (markValid count offset valid).getD j false := by
  rw [scanValid_true, scanValid_true]
  simp only [getD_markValid fits, Bool.or_eq_true, decide_eq_true_eq, true_and]
  constructor
  · rintro ⟨before, after⟩ j inside
    rcases Nat.lt_or_ge j offset with less | from'
    · exact Or.inr (before j (Nat.zero_le j) (by omega))
    rcases Nat.lt_or_ge j (offset + count) with within | beyond
    · exact Or.inl ⟨from', within⟩
    · exact after j beyond (by omega)
  · intro each
    refine ⟨fun j _ below => ?_, fun j from' below => each j (by omega)⟩
    exact (each j (by omega)).resolve_left (by omega)

end Valid

/-! ### One call -/

/-- Bytes on their way, which do not wrap: their last one has an address. -/
structure DataBuffer where
  base : Addr
  isSecure : Bool
  data : List UInt8
  short : data.length < 2 ^ 31
  ends : 0 < base.toNat + data.length
  spans : base.toNat + data.length ≤ 2 ^ 64

namespace DataBuffer

variable (buffer : DataBuffer)

/-- The arguments of a call with the buffer. -/
def value : MemoryValue := ⟨buffer.base, buffer.isSecure, BitVec.ofNat 32 buffer.data.length, some buffer.data⟩

def byte (a : Nat) : Option UInt8 := byteAt buffer.base.toNat buffer.data a

/-- What an access to this address space finds at an address. -/
def byteFor (isSecure : Bool) (a : Nat) : Option UInt8 := if buffer.isSecure = isSecure then buffer.byte a else none

/-- Other bytes in the same place. -/
def withData (data : List UInt8) (length : data.length = buffer.data.length) : DataBuffer where
  base := buffer.base
  isSecure := buffer.isSecure
  data := data
  short := length ▸ buffer.short
  ends := length ▸ buffer.ends
  spans := length ▸ buffer.spans

end DataBuffer

namespace FunctionalPacket

variable {pkt : FunctionalPacket} (buffer : DataBuffer)

def byte (pkt : FunctionalPacket) (a : Nat) : Option UInt8 := byteAt pkt.addr.toNat pkt.data a

/-- A packet with a payload that does not wrap, and a bit for each byte once one was filled. -/
structure Sound (pkt : FunctionalPacket) : Prop where
  length : pkt.data.length = pkt.size
  ends : 0 < pkt.addr.toNat + pkt.size
  spans : pkt.addr.toNat + pkt.size ≤ 2 ^ 64
  valid : pkt.bytesValid = [] ∨ pkt.bytesValid.length = pkt.size

/-- The call does not return early: the packet and the buffer are in one address space and meet. -/
def Reaches (pkt : FunctionalPacket) (buffer : DataBuffer) : Prop :=
  buffer.isSecure = pkt.isSecure ∧ Meets pkt.addr.toNat pkt.data buffer.base.toNat buffer.data

instance : Decidable (pkt.Reaches buffer) := inferInstanceAs (Decidable (_ ∧ _))

theorem toNat_end {base : Addr} {size : Nat} (ends : 0 < base.toNat + size) (spans : base.toNat + size ≤ 2 ^ 64) :
    (base + BitVec.ofNat 64 size - 1).toNat = base.toNat + size - 1 := by
  have one : (1 : Addr).toNat = 1 := rfl
  rw [BitVec.toNat_sub, BitVec.toNat_add, BitVec.toNat_ofNat, one]
  omega

theorem signExtend_length {length : Nat} (short : length < 2 ^ 31) :
    (BitVec.ofNat 32 length).signExtend 64 = BitVec.ofNat 64 length := by
  have msb : (BitVec.ofNat 32 length).msb = false := by
    rw [BitVec.msb_eq_false_iff_two_mul_lt, BitVec.toNat_ofNat]
    omega
  rw [BitVec.signExtend_eq_setWidth_of_msb_false msb]
  apply BitVec.eq_of_toNat_eq
  rw [BitVec.toNat_setWidth, BitVec.toNat_ofNat, BitVec.toNat_ofNat]
  omega

theorem toNat_offsetFrom (start other : Addr) : (offsetFrom start other).toNat = start.toNat - other.toNat := by
  unfold offsetFrom
  split
  next less => rw [BitVec.toNat_sub_of_le (BitVec.le_of_lt less)]
  next notLess =>
    have := BitVec.not_lt.mp notLess
    rw [BitVec.le_def] at this
    show 0 = _
    omega

theorem reaches_iff (sound : pkt.Sound) : ¬(buffer.isSecure ≠ pkt.isSecure ∨
    buffer.base + (BitVec.ofNat 32 buffer.data.length).signExtend 64 - 1 < pkt.addr ∨
    pkt.addr + BitVec.ofNat 64 pkt.size - 1 < buffer.base) ↔ pkt.Reaches buffer := by
  have ends := buffer.ends
  have ends' := sound.ends
  rw [signExtend_length buffer.short, BitVec.lt_def, BitVec.lt_def, toNat_end buffer.ends buffer.spans,
    toNat_end sound.ends sound.spans, Reaches, Meets, sound.length]
  by_cases secure : buffer.isSecure = pkt.isSecure
  · simp only [secure, ne_eq, not_true_eq_false, false_or, true_and]
    omega
  · simp [secure]

theorem toNat_min (a b : Addr) : (min a b).toNat = min a.toNat b.toNat := by
  rcases le_total a b with le | le
  · rw [min_eq_left le, min_eq_left (BitVec.le_def.mp le)]
  · rw [min_eq_right le, min_eq_right (BitVec.le_def.mp le)]

theorem toNat_max (a b : Addr) : (max a b).toNat = max a.toNat b.toNat := by
  rcases le_total a b with le | le
  · rw [max_eq_right le, max_eq_right (BitVec.le_def.mp le)]
  · rw [max_eq_left le, max_eq_left (BitVec.le_def.mp le)]

theorem toNat_overlapSize (sound : pkt.Sound) (meets : Meets pkt.addr.toNat pkt.data buffer.base.toNat buffer.data) :
    (min (buffer.base + (BitVec.ofNat 32 buffer.data.length).signExtend 64 - 1)
        (pkt.addr + BitVec.ofNat 64 pkt.size - 1) + 1 - max buffer.base pkt.addr).toNat
      = min (buffer.base.toNat + buffer.data.length) (pkt.addr.toNat + pkt.data.length)
        - max buffer.base.toNat pkt.addr.toNat := by
  obtain ⟨left, right⟩ := meets
  have short := buffer.short
  have ends := buffer.ends
  have spans := buffer.spans
  have ends' := sound.ends
  have spans' := sound.spans
  have one : (1 : Addr).toNat = 1 := rfl
  rw [sound.length] at right ⊢
  rw [signExtend_length buffer.short, BitVec.toNat_sub, BitVec.toNat_add, toNat_min, toNat_max, one,
    toNat_end buffer.ends buffer.spans, toNat_end sound.ends sound.spans]
  omega

theorem not_isPrint {attrib : MemCmd.Attribute} (kind : attrib = .isRead ∨ attrib = .isWrite)
    (has : pkt.cmd.test attrib) : pkt.isPrint = false := by
  rcases kind with rfl | rfl <;> cases cmd : pkt.cmd <;> rw [cmd] at has <;>
    first | (exact absurd has (by decide)) | (rw [Packet.isPrint, cmd]; rfl)

theorem trySatisfy_reaches (sound : pkt.Sound) (reaches : pkt.Reaches buffer) (notPrint : pkt.isPrint = false) :
    pkt.trySatisfy buffer.value = pkt.exchange buffer.value buffer.data (pkt.addr.toNat - buffer.base.toNat)
      (buffer.base.toNat - pkt.addr.toNat)
      (min (buffer.base.toNat + buffer.data.length) (pkt.addr.toNat + pkt.data.length)
        - max buffer.base.toNat pkt.addr.toNat) := by
  have goesOn := (reaches_iff buffer sound).mpr reaches
  have hasData : ¬pkt.isPrint := by rw [notPrint]; exact Bool.false_ne_true
  rw [← toNat_overlapSize buffer sound reaches.2, ← toNat_offsetFrom, ← toNat_offsetFrom]
  exact (if_neg goesOn).trans (if_neg hasData)

theorem trySatisfy_apart (sound : pkt.Sound) (apart : ¬pkt.Reaches buffer) :
    pkt.trySatisfy buffer.value = .ok (false, pkt, buffer.value) :=
  if_pos (not_not.mp fun goesOn => apart ((reaches_iff buffer sound).mp goesOn))

theorem byteFor_of_apart (apart : ¬pkt.Reaches buffer) {a : Nat} (inside : (pkt.byte a).isSome) :
    buffer.byteFor pkt.isSecure a = none := by
  unfold DataBuffer.byteFor
  split
  next secure => exact byteAt_of_apart (fun meets => apart ⟨secure, meets⟩) inside
  next => rfl

/-- The bits of a packet, once there are any. -/
def validBits (pkt : FunctionalPacket) : List Bool :=
  if pkt.bytesValid = [] then List.replicate pkt.size false else pkt.bytesValid

/-- The byte `i` of the packet has been filled. -/
def Valid (pkt : FunctionalPacket) (i : Nat) : Prop := pkt.bytesValid.getD i false = true

theorem length_validBits (sound : pkt.Sound) : pkt.validBits.length = pkt.size := by
  unfold validBits
  split
  next => exact List.length_replicate
  next filled => exact sound.valid.resolve_left filled

theorem getD_validBits (i : Nat) : pkt.validBits.getD i false = true ↔ pkt.Valid i := by
  unfold validBits Valid
  split
  next empty =>
    rw [empty, List.getD_nil, List.getD_eq_getElem?_getD, List.getElem?_replicate]
    split <;> rfl
  next => rfl

/-- **A read** takes the bytes of the buffer, and is satisfied if it reaches the buffer and has all of its bytes then. -/
theorem trySatisfy_read (sound : pkt.Sound) (reads : pkt.isRead) : ∃ found after,
    pkt.trySatisfy buffer.value = .ok (found, after, buffer.value) ∧ after.Sound ∧
      after.toPacket = { pkt.toPacket with data := after.data } ∧
      (∀ a, after.byte a = (pkt.byte a).map fun old => (buffer.byteFor pkt.isSecure a).getD old) ∧
      (∀ i, i < pkt.size → (after.Valid i ↔ pkt.Valid i ∨ (buffer.byteFor pkt.isSecure (pkt.addr.toNat + i)).isSome)) ∧
      (found ↔ pkt.Reaches buffer ∧ ∀ i, i < pkt.size → after.Valid i) := by
  by_cases reaches : pkt.Reaches buffer
  · obtain ⟨copied, done, length, bytes⟩ := memcpy_overlap reaches.2
    have bits := length_validBits sound
    obtain ⟨left, right⟩ := reaches.2
    have size := sound.length
    have fits : buffer.base.toNat - pkt.addr.toNat
        + (min (buffer.base.toNat + buffer.data.length) (pkt.addr.toNat + pkt.data.length)
          - max buffer.base.toNat pkt.addr.toNat) ≤ pkt.validBits.length := by
      omega
    have scanned := scan_mark fits
    have marked := getD_markValid fits
    have call := trySatisfy_reaches buffer sound reaches (not_isPrint (.inl rfl) reads)
    rw [exchange, if_pos reads, done] at call
    rw [bits] at scanned
    refine ⟨_, _, call, ⟨length.trans size, sound.ends, sound.spans, .inr ?_⟩, rfl, fun a => ?_, fun i inside => ?_, ?_⟩
    · exact (length_markValid _ _ _).trans bits
    · rw [DataBuffer.byteFor, if_pos reaches.1]
      exact bytes a
    · rw [DataBuffer.byteFor, if_pos reaches.1]
      show (markValid _ _ pkt.validBits).getD i false = true ↔ pkt.Valid i ∨ _
      rw [marked, Bool.or_eq_true, decide_eq_true_eq, or_comm, DataBuffer.byte, byteAt_isSome, getD_validBits]
      exact or_congr Iff.rfl (by omega)
    · exact scanned.trans (and_iff_right reaches).symm
  · refine ⟨false, pkt, trySatisfy_apart buffer sound reaches, sound, rfl, fun a => ?_, fun i inside => ?_, ?_⟩
    · cases byte : pkt.byte a with
      | none => rfl
      | some old => rw [byteFor_of_apart buffer reaches (Option.isSome_of_eq_some byte)]; rfl
    · have covered : (pkt.byte (pkt.addr.toNat + i)).isSome :=
        byteAt_isSome.mpr ⟨Nat.le_add_right _ _, by rw [sound.length]; omega⟩
      rw [byteFor_of_apart buffer reaches covered]
      simp
    · simp [reaches]

/-- **A write** gives its bytes to the buffer, and is never satisfied. -/
theorem trySatisfy_write (sound : pkt.Sound) (writes : pkt.isWrite) (only : pkt.isRead = false) :
    ∃ after : DataBuffer, pkt.trySatisfy buffer.value = .ok (false, pkt, after.value) ∧ after.base = buffer.base ∧
      after.isSecure = buffer.isSecure ∧ after.data.length = buffer.data.length ∧
      ∀ a, after.byte a = (buffer.byte a).map fun old =>
        (if buffer.isSecure = pkt.isSecure then pkt.byte a else none).getD old := by
  by_cases reaches : pkt.Reaches buffer
  · obtain ⟨copied, done, length, bytes⟩ := memcpy_overlap (And.symm reaches.2)
    have call := trySatisfy_reaches buffer sound reaches (not_isPrint (.inr rfl) writes)
    rw [exchange, only, if_neg Bool.false_ne_true, if_pos writes, Nat.min_comm, Nat.max_comm, done] at call
    refine ⟨buffer.withData copied length, ?_, rfl, rfl, length, fun a => ?_⟩
    · rw [call, DataBuffer.value, DataBuffer.value, ← length]
      rfl
    · rw [if_pos reaches.1]
      exact bytes a
  · refine ⟨buffer, trySatisfy_apart buffer sound reaches, rfl, rfl, rfl, fun a => ?_⟩
    cases byte : buffer.byte a with
    | none => rfl
    | some old =>
      split
      next secure =>
        have apart : ¬Meets buffer.base.toNat buffer.data pkt.addr.toNat pkt.data :=
          fun meets => reaches ⟨secure, meets.symm⟩
        have outside : pkt.byte a = none := byteAt_of_apart apart (Option.isSome_of_eq_some byte)
        rw [outside]
        rfl
      next => rfl

end FunctionalPacket

end Emas.Gem5

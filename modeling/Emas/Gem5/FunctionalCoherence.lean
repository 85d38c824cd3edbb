/-
**Functional accesses are coherent.**

A functional write is offered to every buffer that holds a part of the memory on its way, and a functional read
after it, in any order, must find what was written.

* `offers_write`, `offers_read` — whole runs of calls, by induction on the buffers: a write leaves `Updated` buffers,
  a read that meets buffers which agree with what was written becomes equal to it where they cover it.
-/

import Emas.Gem5.FunctionalAccess

namespace Emas.Gem5

namespace FunctionalPacket

/-- The packet is offered to one value after the other: what the calls return, the packet and the values. -/
def offers : FunctionalPacket → List MemoryValue →
    Except FunctionalFailure (List Bool × FunctionalPacket × List MemoryValue)
  | pkt, [] => .ok ([], pkt, [])
  | pkt, value :: rest => do
    let (found, pkt, value) ← pkt.trySatisfy value
    let (founds, pkt, rest) ← offers pkt rest
    .ok (found :: founds, pkt, value :: rest)

/-- The buffer `after` has the bytes of the write where the write covers it. -/
structure Updated (write : FunctionalPacket) (before after : DataBuffer) : Prop where
  base : after.base = before.base
  isSecure : after.isSecure = before.isSecure
  length : after.data.length = before.data.length
  byte : ∀ a, after.byte a = (before.byte a).map fun old =>
    (if before.isSecure = write.isSecure then write.byte a else none).getD old

/-- Some of the buffers has a byte of that address for the packet. -/
def CoveredBy (pkt : FunctionalPacket) (buffers : List DataBuffer) (a : Nat) : Prop :=
  ∃ buffer ∈ buffers, (buffer.byteFor pkt.isSecure a).isSome

/-- The address is one of the packet. -/
def Has (pkt : FunctionalPacket) (a : Nat) : Prop := (pkt.byte a).isSome

variable {pkt write read : FunctionalPacket}

/-! ### Writes -/

theorem offers_write (sound : write.Sound) (writes : write.isWrite) (only : write.isRead = false)
    (buffers : List DataBuffer) : ∃ buffers', write.offers (buffers.map DataBuffer.value)
      = .ok (List.replicate buffers.length false, write, buffers'.map DataBuffer.value) ∧
        List.Forall₂ write.Updated buffers buffers' := by
  induction buffers with
  | nil => exact ⟨[], rfl, .nil⟩
  | cons buffer rest ih =>
    obtain ⟨rest', offered, updated⟩ := ih
    obtain ⟨after, call, base, secure, length, byte⟩ := trySatisfy_write buffer sound writes only
    refine ⟨after :: rest', ?_, .cons ⟨base, secure, length, byte⟩ updated⟩
    rw [List.map_cons, offers, call]
    show (do
      let (founds, pkt, rest) ← write.offers (rest.map DataBuffer.value)
      Except.ok (false :: founds, pkt, after.value :: rest)) = _
    rw [offered]
    rfl

theorem exists_before {buffers buffers' : List DataBuffer} (updated : List.Forall₂ write.Updated buffers buffers')
    {after : DataBuffer} (mem : after ∈ buffers') : ∃ before, write.Updated before after := by
  induction updated with
  | nil => cases mem
  | @cons before after' _ _ first _ ih =>
    rcases List.mem_cons.mp mem with rfl | mem
    · exact ⟨before, first⟩
    · exact ih mem

theorem Updated.agrees {before after : DataBuffer} (updated : write.Updated before after) {a : Nat} {value : UInt8}
    (written : write.Has a) (found : after.byteFor write.isSecure a = some value) : write.byte a = some value := by
  obtain ⟨new, byte⟩ := Option.isSome_iff_exists.mp written
  unfold DataBuffer.byteFor at found
  split at found
  next secure =>
    rw [updated.byte, if_pos (updated.isSecure ▸ secure), byte] at found
    cases old : before.byte a with
    | none => rw [old] at found; cases found
    | some old' =>
      rw [old] at found
      exact byte.trans found
  next => cases found

/-! ### Reads -/

theorem offers_read (sound : read.Sound) (reads : read.isRead) (buffers : List DataBuffer) (original : Nat → Option UInt8)
    (agree : ∀ buffer ∈ buffers, ∀ a value, read.Has a → buffer.byteFor read.isSecure a = some value →
      original a = some value) :
    ∃ founds after, read.offers (buffers.map DataBuffer.value) = .ok (founds, after, buffers.map DataBuffer.value) ∧
      after.toPacket = { read.toPacket with data := after.data } ∧
      (∀ a, read.Has a → read.CoveredBy buffers a → after.byte a = original a) ∧
      (∀ a, ¬(read.Has a ∧ read.CoveredBy buffers a) → after.byte a = read.byte a) ∧
      ∀ front buffer rest, buffers = front ++ buffer :: rest → ∃ found : Bool, founds[front.length]? = some found ∧
        (found ↔ read.Reaches buffer ∧ ∀ i, i < read.size →
          read.Valid i ∨ read.CoveredBy (front ++ [buffer]) (read.addr.toNat + i)) := by
  induction buffers generalizing read with
  | nil =>
    refine ⟨[], read, rfl, rfl, fun a _ covered => ?_, fun a _ => rfl, fun front buffer rest is => absurd is (by simp)⟩
    obtain ⟨buffer, mem, -⟩ := covered
    cases mem
  | cons buffer rest ih =>
    obtain ⟨found, next, call, sound', same, bytes, valid, satisfied⟩ := trySatisfy_read buffer sound reads
    have addr : next.addr = read.addr := by rw [same]
    have size : next.size = read.size := by rw [same]
    have secure : next.isSecure = read.isSecure := by rw [same]
    have reads' : next.isRead := by rw [same]; exact reads
    have has : ∀ a, next.Has a ↔ read.Has a := fun a => by rw [Has, bytes, Option.isSome_map, Has]
    have covers : ∀ buffers a, next.CoveredBy buffers a ↔ read.CoveredBy buffers a := fun buffers a => by
      rw [CoveredBy, CoveredBy, secure]
    have reaches : ∀ other, next.Reaches other ↔ read.Reaches other := fun other => by
      rw [Reaches, Reaches, Meets, Meets, sound.length, sound'.length, addr, size, secure]
    obtain ⟨own, others⟩ := List.forall_mem_cons.mp agree
    obtain ⟨founds, after, offered, kept, filled, untouched, results⟩ := ih sound' reads' fun other mem a value inside =>
      secure ▸ others other mem a value ((has a).mp inside)
    refine ⟨found :: founds, after, ?_, kept.trans (by rw [same]), fun a inside covered => ?_, fun a outside => ?_,
      fun front other tail is => ?_⟩
    · rw [List.map_cons, offers, call]
      show (do
        let (founds, pkt, rest) ← next.offers (rest.map DataBuffer.value)
        Except.ok (found :: founds, pkt, buffer.value :: rest)) = _
      rw [offered]
      rfl
    · by_cases later : read.CoveredBy rest a
      · exact filled a ((has a).mpr inside) ((covers rest a).mpr later)
      · obtain ⟨other, mem, covers'⟩ := covered
        rcases List.mem_cons.mp mem with rfl | mem
        · obtain ⟨value, is⟩ := Option.isSome_iff_exists.mp covers'
          obtain ⟨old, byte⟩ := Option.isSome_iff_exists.mp inside
          rw [untouched a fun both => later ((covers rest a).mp both.2), bytes, byte, is, own a value inside is]
          rfl
        · exact absurd ⟨other, mem, covers'⟩ later
    · rw [untouched a fun both => outside ⟨(has a).mp both.1, ?_⟩, bytes]
      · cases byte : read.byte a with
        | none => rfl
        | some old =>
          have nothing : buffer.byteFor read.isSecure a = none := by
            by_contra something
            exact outside ⟨Option.isSome_of_eq_some byte, buffer, List.mem_cons_self, Option.isSome_iff_ne_none.mpr something⟩
          rw [nothing]
          rfl
      · obtain ⟨other, mem, covers'⟩ := (covers rest a).mp both.2
        exact ⟨other, List.mem_cons_of_mem _ mem, covers'⟩
    · obtain ⟨rfl, is'⟩ | ⟨front, rfl, is'⟩ := List.cons_eq_append_iff.mp is
      · obtain ⟨rfl, rfl⟩ := List.cons.inj is'
        refine ⟨found, rfl, satisfied.trans (and_congr_right fun _ => forall₂_congr fun i inside => ?_)⟩
        rw [valid i inside]
        exact or_congr Iff.rfl (by simp [CoveredBy])
      · obtain ⟨found', at', result⟩ := results front other tail is'
        refine ⟨found', at', result.trans (and_congr (reaches other) ?_)⟩
        rw [size, addr]
        refine forall₂_congr fun i inside => ?_
        rw [valid i inside, covers, or_assoc]
        exact or_congr Iff.rfl (by simp [CoveredBy])

/-! ### Both -/

/-- The read is one of bytes that the write covers. -/
structure Inside (read write : FunctionalPacket) : Prop where
  isSecure : read.isSecure = write.isSecure
  starts : write.addr.toNat ≤ read.addr.toNat
  ends : read.addr.toNat + read.size ≤ write.addr.toNat + write.size

theorem has_iff (sound : pkt.Sound) (a : Nat) : pkt.Has a ↔ ∃ i, i < pkt.size ∧ a = pkt.addr.toNat + i := by
  rw [Has, byte, byteAt_isSome, sound.length]
  constructor
  · rintro ⟨starts, ends⟩
    exact ⟨a - pkt.addr.toNat, by omega, by omega⟩
  · rintro ⟨i, inside, rfl⟩
    omega

/-- **A read finds what was written before it**, and is satisfied by each buffer that it reaches once it is complete. -/
theorem offers_write_read (sound : write.Sound) (writes : write.isWrite) (only : write.isRead = false)
    (sound' : read.Sound) (reads : read.isRead) (fresh : read.bytesValid = []) (inside : read.Inside write)
    (buffers : List DataBuffer) : ∃ buffers', write.offers (buffers.map DataBuffer.value)
        = .ok (List.replicate buffers.length false, write, buffers'.map DataBuffer.value) ∧
      List.Forall₂ write.Updated buffers buffers' ∧ ∀ order, (∀ buffer ∈ order, buffer ∈ buffers') →
        ∃ founds after, read.offers (order.map DataBuffer.value) = .ok (founds, after, order.map DataBuffer.value) ∧
          after.toPacket = { read.toPacket with data := after.data } ∧
          (∀ a, read.Has a → read.CoveredBy order a → after.byte a = write.byte a) ∧
          (∀ a, ¬(read.Has a ∧ read.CoveredBy order a) → after.byte a = read.byte a) ∧
          ∀ front buffer rest, order = front ++ buffer :: rest → ∃ found : Bool, founds[front.length]? = some found ∧
            (found ↔ read.Reaches buffer ∧ ∀ a, read.Has a → read.CoveredBy (front ++ [buffer]) a) := by
  obtain ⟨buffers', offered, updated⟩ := offers_write sound writes only buffers
  refine ⟨buffers', offered, updated, fun order drawn => ?_⟩
  have within : ∀ a, read.Has a → write.Has a := fun a has => by
    obtain ⟨i, less, rfl⟩ := (has_iff sound' a).mp has
    have starts := inside.starts
    have ends := inside.ends
    exact (has_iff sound _).mpr ⟨read.addr.toNat + i - write.addr.toNat, by omega, by omega⟩
  obtain ⟨founds, after, call, kept, filled, untouched, results⟩ := offers_read sound' reads order write.byte
    fun buffer mem a value has found => by
      obtain ⟨before, updated⟩ := exists_before updated (drawn buffer mem)
      exact updated.agrees (within a has) (inside.isSecure ▸ found)
  refine ⟨founds, after, call, kept, filled, untouched, fun front buffer rest is => ?_⟩
  obtain ⟨found, at', result⟩ := results front buffer rest is
  refine ⟨found, at', result.trans (and_congr_right fun _ => ⟨fun each a has => ?_, fun each i less => ?_⟩)⟩
  · obtain ⟨i, less, rfl⟩ := (has_iff sound' a).mp has
    refine (each i less).resolve_left fun valid => ?_
    rw [Valid, fresh] at valid
    cases valid
  · exact Or.inr (each _ ((has_iff sound' _).mpr ⟨i, less, rfl⟩))

/-! ### The queue -/

/-- The packet takes part with its data: it is no masked write. -/
def Carries (other : Packet) : Prop := other.isMaskedWrite = false ∧ other.hasData

instance (other : Packet) : Decidable (Carries other) := inferInstanceAs (Decidable (_ ∧ _))

/-- A payload of the size of its packet, which does not wrap. -/
structure WellSized (other : Packet) : Prop where
  length : other.data.length = other.size
  short : other.size < 2 ^ 31
  ends : 0 < other.addr.toNat + other.size
  spans : other.addr.toNat + other.size ≤ 2 ^ 64

/-- The payload of a packet as a buffer. -/
def bufferOf (other : Packet) (sized : WellSized other) : DataBuffer where
  base := other.addr
  isSecure := other.isSecure
  data := other.data
  short := sized.length ▸ sized.short
  ends := sized.length ▸ sized.ends
  spans := sized.length ▸ sized.spans

/-- Some packet of the list has a byte of that address for the packet. -/
def CoveredIn (pkt : FunctionalPacket) (list : List DeferredPacket) (a : Nat) : Prop :=
  ∃ i ∈ list, Carries i.pkt.toPacket ∧ i.pkt.isSecure = pkt.isSecure ∧ (byteAt i.pkt.addr.toNat i.pkt.data a).isSome

theorem trySatisfyFunctional_carries {other : Packet} (sized : WellSized other) (carries : Carries other) :
    pkt.trySatisfyFunctional other = (pkt.trySatisfy (bufferOf other sized).value).map
      fun (found, pkt, value) => (found, pkt, value.data.getD other.data) := by
  rw [trySatisfyFunctional, carries.1, if_neg Bool.false_ne_true, if_pos carries.2, DataBuffer.value, bufferOf,
    sized.length]

theorem trySatisfyFunctional_passes (notPrint : pkt.isPrint = false) {other : Packet} (carries : ¬Carries other) :
    pkt.trySatisfyFunctional other = .ok (false, pkt, other.data) := by
  unfold trySatisfyFunctional
  split
  next => rfl
  next unmasked =>
    have none : ¬other.hasData := fun has => carries ⟨Bool.eq_false_of_not_eq_true unmasked, has⟩
    rw [if_neg none, trySatisfy, notPrint]
    dsimp only
    split <;> rfl

/-- **The loop of a queue** is satisfied if the packets of its list cover what is left of the read. -/
theorem trySatisfyList_covers (sound : read.Sound) (reads : read.isRead) (list : List DeferredPacket)
    (sized : ∀ i ∈ list, Carries i.pkt.toPacket → WellSized i.pkt.toPacket) (incomplete : ∃ i, i < read.size ∧ ¬read.Valid i) :
    ∃ found after list', trySatisfyList read list = .ok (found, after, list') ∧
      (found ↔ ∀ i, i < read.size → read.Valid i ∨ read.CoveredIn list (read.addr.toNat + i)) := by
  induction list generalizing read with
  | nil =>
    obtain ⟨i, inside, unfilled⟩ := incomplete
    refine ⟨false, read, [], rfl, ⟨fun found => (nomatch found), fun each => ?_⟩⟩
    obtain ⟨other, mem, -⟩ := (each i inside).resolve_left unfilled
    cases mem
  | cons first rest ih =>
    obtain ⟨sized, others⟩ := List.forall_mem_cons.mp sized
    have covered : ∀ a, read.CoveredIn (first :: rest) a ↔ (Carries first.pkt.toPacket ∧
        first.pkt.isSecure = read.isSecure ∧ (byteAt first.pkt.addr.toNat first.pkt.data a).isSome) ∨
          read.CoveredIn rest a := fun a => List.exists_mem_cons_iff ..
    by_cases carries : Carries first.pkt.toPacket
    · obtain ⟨found, next, call, sound', same, -, valid, satisfied⟩ :=
        trySatisfy_read (bufferOf first.pkt.toPacket (sized carries)) sound reads
      have addr : next.addr = read.addr := by rw [same]
      have size : next.size = read.size := by rw [same]
      have secure : next.isSecure = read.isSecure := by rw [same]
      have filled : ∀ i, i < read.size → (next.Valid i ↔ read.Valid i ∨ (Carries first.pkt.toPacket ∧
          first.pkt.isSecure = read.isSecure ∧
            (byteAt first.pkt.addr.toNat first.pkt.data (read.addr.toNat + i)).isSome)) := fun i inside => by
        rw [valid i inside, DataBuffer.byteFor, and_iff_right carries]
        refine or_congr Iff.rfl ?_
        split
        next secure => exact (and_iff_right secure).symm
        next apart => exact ⟨fun some => absurd some Bool.false_ne_true, fun both => absurd both.1 apart⟩
      rw [trySatisfyList, trySatisfyFunctional_carries (sized carries) carries, call]
      cases found with
      | true =>
        refine ⟨true, _, _, rfl, ⟨fun _ i inside => ?_, fun _ => rfl⟩⟩
        rw [covered, ← or_assoc, ← filled i inside]
        exact Or.inl ((satisfied.mp rfl).2 i inside)
      | false =>
        -- a buffer that completes the read reaches it
        have incomplete' : ∃ i, i < next.size ∧ ¬next.Valid i := by
          by_contra complete
          push Not at complete
          rw [size] at complete
          obtain ⟨i, inside, unfilled⟩ := incomplete
          obtain ⟨-, secure, byte⟩ := ((filled i inside).mp (complete i inside)).resolve_left unfilled
          have inside' := byteAt_isSome.mp byte
          have length := sound.length
          exact absurd (satisfied.mpr ⟨⟨secure, show _ < first.pkt.addr.toNat + first.pkt.data.length by omega,
            show first.pkt.addr.toNat < _ by omega⟩, complete⟩) Bool.false_ne_true
        obtain ⟨found, after, list', rest', result⟩ :=
          ih sound' (by rw [same]; exact reads) others incomplete'
        refine ⟨found, after, _, by simp only [Except.map, if_neg Bool.false_ne_true, rest']; rfl, result.trans ?_⟩
        rw [size, addr]
        refine forall₂_congr fun i inside => ?_
        rw [covered, ← or_assoc, ← filled i inside, CoveredIn, CoveredIn, secure]
    · obtain ⟨found, after, list', rest', result⟩ := ih sound reads others incomplete
      rw [trySatisfyList, trySatisfyFunctional_passes (not_isPrint (.inl rfl) reads) carries]
      refine ⟨found, after, _, by simp only [Except.map, if_neg Bool.false_ne_true, rest']; rfl, result.trans ?_⟩
      refine forall₂_congr fun i inside => ?_
      rw [covered]
      simp [carries]

/-- **Functional accesses are coherent** with the buffers that they are offered to, and with the packets of a queue. -/
theorem functional_coherent (sound : write.Sound) (writes : write.isWrite) (only : write.isRead = false)
    (sound' : read.Sound) (reads : read.isRead) (fresh : read.bytesValid = []) (inside : read.Inside write)
    (buffers : List DataBuffer) :
    (∃ buffers', write.offers (buffers.map DataBuffer.value)
        = .ok (List.replicate buffers.length false, write, buffers'.map DataBuffer.value) ∧
      List.Forall₂ write.Updated buffers buffers' ∧ ∀ order, (∀ buffer ∈ order, buffer ∈ buffers') →
        ∃ founds after, read.offers (order.map DataBuffer.value) = .ok (founds, after, order.map DataBuffer.value) ∧
          after.toPacket = { read.toPacket with data := after.data } ∧
          (∀ a, read.Has a → read.CoveredBy order a → after.byte a = write.byte a) ∧
          (∀ a, ¬(read.Has a ∧ read.CoveredBy order a) → after.byte a = read.byte a) ∧
          ∀ front buffer rest, order = front ++ buffer :: rest → ∃ found : Bool, founds[front.length]? = some found ∧
            (found ↔ read.Reaches buffer ∧ ∀ a, read.Has a → read.CoveredBy (front ++ [buffer]) a)) ∧
      ∀ queue : PacketQueue, (∀ i ∈ queue.transmitList, Carries i.pkt.toPacket → WellSized i.pkt.toPacket) →
        0 < read.size →
        ∃ found after queue', queue.trySatisfyFunctional read = .ok (found, after, queue') ∧
          (found ↔ ∀ a, read.Has a → read.CoveredIn queue.transmitList a) := by
  refine ⟨offers_write_read sound writes only sound' reads fresh inside buffers, fun queue sized some => ?_⟩
  have unfilled : ∀ i, ¬read.Valid i := fun i valid => by
    rw [Valid, fresh] at valid
    cases valid
  obtain ⟨found, after, list', call, result⟩ :=
    trySatisfyList_covers sound' reads queue.transmitList sized ⟨0, some, unfilled 0⟩
  refine ⟨found, after, { queue with transmitList := list' }, ?_, result.trans ⟨fun each a has => ?_, fun each i less => ?_⟩⟩
  · rw [PacketQueue.trySatisfyFunctional, call]
    rfl
  · obtain ⟨i, less, rfl⟩ := (has_iff sound' a).mp has
    exact (each i less).resolve_left (unfilled i)
  · exact Or.inr (each _ ((has_iff sound' _).mpr ⟨i, less, rfl⟩))

/-- Four bytes that are written at `0x100`. -/
def wordWrite : FunctionalPacket := ⟨.ofRequest 1 (.make 0x100 4 0 0 0) .writeReq [1, 2, 3, 4], []⟩

/-- A read of the four bytes. -/
def wordRead : FunctionalPacket := ⟨.ofRequest 2 (.make 0x100 4 0 0 0) .readReq [0, 0, 0, 0], []⟩

/-- A buffer of four bytes in the place of the word, and one in another place. -/
def wordBuffer (data : List UInt8) (length : data.length = 4) : DataBuffer :=
  ⟨0x100, false, data, by omega, by omega, by rw [length]; decide⟩

def apartBuffer : DataBuffer := ⟨0x200, false, [5, 6, 7, 8], by decide, by decide, by decide⟩

/-- A queue in which the write waits behind a read, which carries no data. -/
def wordQueue : PacketQueue :=
  { PacketQueue.init with transmitList := [⟨10, ⟨.ofRequest 3 (.make 0x100 4 0 0 0) .readReq [], 0⟩⟩,
      ⟨20, ⟨wordWrite.toPacket, 1⟩⟩] }

theorem functional_coherent_word :
    (∃ buffers' : List DataBuffer, wordWrite.offers ([wordBuffer [9, 9, 9, 9] rfl, apartBuffer].map DataBuffer.value)
        = .ok ([false, false], wordWrite, buffers'.map DataBuffer.value) ∧
      ∃ founds after, wordRead.offers (buffers'.reverse.map DataBuffer.value)
          = .ok (founds, after, buffers'.reverse.map DataBuffer.value) ∧
        ∀ a, wordRead.Has a → after.byte a = wordWrite.byte a) ∧
      ∃ after queue', wordQueue.trySatisfyFunctional wordRead = .ok (true, after, queue') := by
  have sound : wordWrite.Sound := ⟨rfl, by decide, by decide, .inl rfl⟩
  have sound' : wordRead.Sound := ⟨rfl, by decide, by decide, .inl rfl⟩
  have within : wordRead.Inside wordWrite := ⟨rfl, Nat.le_refl _, Nat.le_refl _⟩
  have inside : ∀ a, wordRead.Has a → 0x100 ≤ a ∧ a < 0x100 + 4 := fun a has => byteAt_isSome.mp has
  obtain ⟨⟨buffers', offered, updated, reads⟩, queue⟩ := functional_coherent sound rfl rfl sound' rfl rfl within
    [wordBuffer [9, 9, 9, 9] rfl, apartBuffer]
  refine ⟨⟨buffers', offered, ?_⟩, ?_⟩
  · obtain ⟨founds, after, call, -, filled, -⟩ := reads buffers'.reverse fun buffer mem => List.mem_reverse.mp mem
    refine ⟨founds, after, call, fun a has => filled a has ?_⟩
    cases updated with
    | @cons _ first _ rest updated others =>
      have secure : first.isSecure = wordRead.isSecure := updated.isSecure
      refine ⟨first, List.mem_reverse.mpr List.mem_cons_self, ?_⟩
      rw [DataBuffer.byteFor, if_pos secure, DataBuffer.byte, byteAt_isSome, updated.base, updated.length]
      exact inside a has
  · obtain ⟨found, after, queue', call, result⟩ := queue wordQueue (fun i mem carries => by
      -- only the write carries data
      rcases List.mem_cons.mp mem with rfl | mem
      · exact absurd carries (by decide)
      · rcases List.mem_singleton.mp mem with rfl
        exact ⟨rfl, by decide, by decide, by decide⟩) (by decide)
    have covered : found = true := result.mpr fun a has =>
      ⟨_, List.mem_cons_of_mem _ List.mem_cons_self, by decide, rfl, byteAt_isSome.mpr (inside a has)⟩
    exact ⟨after, queue', covered ▸ call⟩

/-- The second buffer is offered to a read that is complete, and the call returns `false`. -/
theorem complete_not_satisfied :
    wordWrite.offers [(wordBuffer [9, 9, 9, 9] rfl).value, apartBuffer.value]
        = .ok ([false, false], wordWrite, [(wordBuffer [1, 2, 3, 4] rfl).value, apartBuffer.value]) ∧
      wordRead.offers [(wordBuffer [1, 2, 3, 4] rfl).value, apartBuffer.value]
        = .ok ([true, false], ⟨{ wordRead.toPacket with data := [1, 2, 3, 4] }, [true, true, true, true]⟩,
            [(wordBuffer [1, 2, 3, 4] rfl).value, apartBuffer.value]) ∧
      ∀ a, wordRead.Has a → wordRead.CoveredBy [wordBuffer [1, 2, 3, 4] rfl, apartBuffer] a := by
  refine ⟨rfl, rfl, fun a has => ⟨_, List.mem_cons_self, ?_⟩⟩
  rw [Has, byte, byteAt_isSome] at has
  have secure : (wordBuffer [1, 2, 3, 4] rfl).isSecure = wordRead.isSecure := rfl
  rw [DataBuffer.byteFor, if_pos secure, DataBuffer.byte, byteAt_isSome]
  exact has

end FunctionalPacket

end Emas.Gem5

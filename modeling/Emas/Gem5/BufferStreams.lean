/-
**Circular buffers refine bounded byte streams.**

A write through the iterators and `advance_tail` is one `push_back` after the other (`write_eq`), so that the buffer is
the bounded deque of the queue, except that with a single slot `_head` may be 1: the iterators are then those of the
queue with `_head` 0 (`aligned`).

The calls of a run fit (`Fits`) unless they reach one of the places where the code goes wrong:

* the round counter has wrapped to 0 since the head, and the assertion of `pop_front` fails;
* the buffer is so large that an index and a length leave the word, or a length the signed word in which iterators are
  subtracted and the steps of `advance_tail` are counted.

**`streams_refine`** — in every run whose calls fit, the buffer is the stream.
-/

import Emas.Gem5.CircleBuf
import Emas.Gem5.QueueLaps

namespace Emas.Gem5

section Lists

variable {T : Type}

theorem rtake_append_rtake (n : Nat) (first second : List T) :
    (first.rtake n ++ second).rtake n = (first ++ second).rtake n := by
  unfold List.rtake
  rw [List.length_append, List.length_append, List.length_drop, List.drop_append, List.drop_append, List.drop_drop,
    List.length_drop]
  congr 2 <;> omega

theorem rtake_append_drop (n : Nat) (first second : List T) :
    (first ++ second.drop (second.length - n)).rtake n = (first ++ second).rtake n := by
  by_cases short : second.length ≤ n
  · rw [Nat.sub_eq_zero_of_le short, List.drop_zero]
  · have kept : (first ++ second.drop (second.length - n)).length - n = first.length + 0 := by
      rw [List.length_append, List.length_drop]
      omega
    have all : (first ++ second).length - n = first.length + (second.length - n) := by
      rw [List.length_append]
      omega
    rw [List.rtake, List.rtake, kept, all, List.drop_length_add_append, List.drop_length_add_append, List.drop_zero]

theorem push_eq_rtake {capacity : Nat} (positive : 0 < capacity) {deque : List T} (short : deque.length ≤ capacity)
    (value : T) : QueueRun.push capacity deque value = (deque ++ [value]).rtake capacity := by
  unfold QueueRun.push List.rtake
  rw [List.length_append, List.length_singleton]
  split
  · next full => rw [full, Nat.add_sub_cancel_left, List.drop_append_of_le_length (by omega)]
  · next room => rw [show deque.length + 1 - capacity = 0 by omega, List.drop_zero]

end Lists

namespace CircularQueue

variable {T : Type} (buf : CircularQueue T)

/-! ### A write pushes -/

theorem advanceTail_copyIn (values : List T) (it : Spot) :
    (buf.copyIn values it).advanceTail = buf.advanceTail.copyIn values it := by
  induction values generalizing buf it with
  | nil => rfl
  | cons value rest ih => exact ih { buf with slots := buf.slots.set it.slot value } (buf.next it)

/-- **A copy to the end, and as many steps of the tail.** -/
theorem advanceTail_copyIn_endIt (values : List T) :
    advanceTail^[values.length] (buf.copyIn values buf.endIt) = values.foldl pushBack buf := by
  induction values generalizing buf with
  | nil => rfl
  | cons value rest ih =>
    rw [List.length_cons, Function.iterate_succ_apply, advanceTail_copyIn]
    exact ih (buf.pushBack value)

/-! ### The head in the vector -/

/-- The queue with its head in the vector. -/
def aligned : CircularQueue T := { buf with head := buf.head % buf.capacity }

/-- The head is in the vector, or is that of a queue with a single slot that no element has left yet. -/
def Ready : Prop := buf.head < buf.capacity ∨ (buf.capacity = 1 ∧ buf.head = 1 ∧ buf.tail = 0)

variable {buf}

theorem Ready.cases (ready : buf.Ready) : buf.aligned = buf ∨ (buf.capacity = 1 ∧ buf.head = 1 ∧ buf.tail = 0) := by
  rcases ready with inside | single
  · refine .inl ?_
    rw [aligned, Nat.mod_eq_of_lt inside]
  · exact .inr single

theorem Ready.size_eq (ready : buf.Ready) : buf.aligned.size = buf.size := by
  rcases ready.cases with same | ⟨single, head, tail⟩
  · rw [same]
  · simp [size, aligned, single, head, tail]

theorem Ready.advance_begin (ready : buf.Ready) (t : Nat) :
    buf.advance buf.beginIt t = buf.aligned.advance buf.aligned.beginIt t := by
  rcases ready.cases with same | ⟨single, head, tail⟩
  · rw [same]
  · by_cases none : buf.empty = true
    · simp [beginIt, aligned, none, endIt, advance]
    · simp only [beginIt, aligned, none, advance, moduloAdd, single, head, tail]
      simp
      unfold word
      omega

theorem Ready.plus_begin (ready : buf.Ready) (t : Nat) :
    buf.plus buf.beginIt t = buf.aligned.plus buf.aligned.beginIt t := by
  rcases ready.cases with same | ⟨single, head, tail⟩
  · rw [same]
  · by_cases none : buf.empty = true
    · simp [beginIt, aligned, none, endIt, plus]
    · simp only [beginIt, aligned, none, plus, moduloAdd, single, head, tail]
      simp
      unfold word
      omega

theorem Ready.popFront_eq (ready : buf.Ready) {numElem : Nat} (some : numElem ≠ 0) :
    buf.popFront numElem = buf.aligned.popFront numElem := by
  rw [popFront, popFront, if_neg some, if_neg some, ready.plus_begin]
  rfl

theorem Ready.pushBack (ready : buf.Ready) (value : T) :
    (buf.pushBack value).aligned = buf.aligned.pushBack value ∧ (buf.pushBack value).Ready := by
  rcases ready with inside | ⟨single, head, tail⟩
  · have moved : (buf.pushBack value).head < (buf.pushBack value).capacity := by
      show (if _ then buf.increase buf.head else buf.head) < buf.capacity
      split
      · exact Nat.mod_lt _ (by omega)
      · exact inside
    refine ⟨?_, .inl moved⟩
    rw [aligned, aligned, Nat.mod_eq_of_lt moved, Nat.mod_eq_of_lt inside]
  · obtain ⟨capacity, head', tail', empty, round, slots⟩ := buf
    obtain ⟨rfl, rfl, rfl⟩ : capacity = 1 ∧ head' = 1 ∧ tail' = 0 := ⟨single, head, tail⟩
    refine ⟨?_, .inr ⟨rfl, ?_, ?_⟩⟩ <;>
      simp [CircularQueue.pushBack, advanceTail, aligned, increase, moduloAdd, Nat.mod_one]

theorem popFront_ready (positive : 0 < buf.capacity) {numElem : Nat} (some : numElem ≠ 0) {after : CircularQueue T}
    (popped : buf.popFront numElem = Option.some after) : after.capacity = buf.capacity ∧ after.head < buf.capacity := by
  rw [popFront, if_neg some] at popped
  dsimp only at popped
  split at popped
  · cases popped
  · cases popped
    exact ⟨rfl, Nat.mod_lt _ positive⟩

/-! ### Iterators of a copy -/

theorem spotOf_natCast (pos : Nat) : buf.spotOf pos = .of buf.capacity word pos := Spot.ofInt_natCast pos

theorem advance_of (positive : 0 < buf.capacity) {pos t : Nat} (inside : pos % buf.capacity + t < word) :
    buf.advance (.of buf.capacity word pos) t = .of buf.capacity word (pos + t) := by
  rw [← spotOf_natCast, advance_spotOf positive (.inr ⟨by omega, by omega⟩), ← Int.natCast_add, spotOf_natCast]

/-- **The number of elements of a copy**, which is the difference of its iterators. -/
theorem difference_advance (positive : 0 < buf.capacity) {pos len : Nat} (small : len < 2 ^ 31)
    (inside : pos % buf.capacity + len < word) :
    buf.difference (buf.advance (.of buf.capacity word pos) len) (.of buf.capacity word pos) = len := by
  rw [advance_of positive inside, ← spotOf_natCast, ← spotOf_natCast, difference_spotOf positive, Int.natCast_add,
    add_sub_cancel_left, bmod_of_small (by omega) (by omega)]

theorem difference_advance_zero (positive : 0 < buf.capacity) (below : buf.capacity < word) {it : Spot}
    (iterator : buf.IsIterator it) : buf.difference (buf.advance it (0 : Nat)) it = 0 := by
  have spot : it = .of buf.capacity word (it.lap * buf.capacity + it.slot) := by
    rw [← spotOf_natCast, Int.natCast_add, Int.natCast_mul]
    exact iterator.eq_spotOf
  have inside := Nat.mod_lt (it.lap * buf.capacity + it.slot) positive
  rw [spot]
  exact difference_advance positive (by decide) (by omega)

end CircularQueue

/-! ### What a buffer holds -/

section Holds

variable {T : Type} {buf : CircularQueue T} {contents : List T} {pos : Nat}

/-- The buffer holds the contents; `pos` counts the steps of its tail. -/
structure Holds (buf : CircularQueue T) (contents : List T) (pos : Nat) : Prop where
  inv : (⟨buf.aligned, contents, false⟩ : QueueRun T).Inv pos
  ready : buf.Ready

namespace Holds

theorem size_eq (holds : Holds buf contents pos) : buf.size = contents.length := by
  rw [← holds.ready.size_eq]
  exact holds.inv.agrees.size

/-- **The elements are copied out** in order. -/
theorem copyOut_eq (holds : Holds buf contents pos) {k j : Nat} (inside : j + k ≤ contents.length) :
    buf.copyOut k (.of buf.capacity word (pos + 1 - contents.length + j)) = some ((contents.drop j).take k) := by
  induction k generalizing j with
  | zero => rfl
  | succ k ih =>
    have here : j < contents.length := by omega
    have slot : buf.slots[(pos + 1 - contents.length + j) % buf.capacity]? = contents[j]? := holds.inv.held j here
    have next : buf.next (.of buf.capacity word (pos + 1 - contents.length + j)) =
        .of buf.capacity word (pos + 1 - contents.length + (j + 1)) := holds.inv.next_eq _
    rw [CircularQueue.copyOut, next, ih (by omega), Spot.of, slot, List.getElem?_eq_getElem here, Option.bind_some,
      Option.map_some, List.drop_eq_getElem_cons here, List.take_succ_cons]

end Holds

/-- A length that can be copied out from an offset. -/
def Peekable (buf : CircularQueue T) (offset len : Nat) : Prop :=
  buf.size < (offset + len) % (word * word) ∨ (offset + len < word * word ∧ (len = 0 ∨
    (len < 2 ^ 31 ∧ buf.head + offset < word ∧ (buf.head + offset) % buf.capacity + len < word)))

namespace Holds

/-- **What is peeked at.** -/
theorem peek_eq (holds : Holds buf contents pos) {offset len : Nat} (fits : Peekable buf offset len) :
    CircleBuf.peek buf offset len = StreamRun.peek contents offset len := by
  have positive : 0 < buf.capacity := holds.inv.positive
  have below : buf.capacity < word := holds.inv.fits
  rw [CircleBuf.peek, StreamRun.peek, holds.size_eq]
  rw [Peekable, holds.size_eq] at fits
  by_cases beyond : offset + len > contents.length
  · have checked : (offset + len) % (word * word) > contents.length := by
      rcases fits with large | ⟨inWord, -⟩
      · exact large
      · rwa [Nat.mod_eq_of_lt inWord]
    rw [if_pos beyond, if_pos checked]
  · have le := Nat.mod_le (offset + len) (word * word)
    obtain ⟨-, fits⟩ := fits.resolve_left (by omega)
    rw [if_neg beyond, if_neg (by omega)]
    dsimp only
    have start : buf.aligned.beginIt = .of buf.capacity word (pos + 1 - contents.length) := holds.inv.start_eq
    by_cases none : len = 0
    · subst none
      have iterator := CircularQueue.isIterator_advance buf.beginIt offset positive
      rw [CircularQueue.difference_advance_zero positive below iterator]
      rfl
    · obtain ⟨small, inner, outer⟩ := fits.resolve_left none
      have head : buf.head % buf.capacity = (pos + 1 - contents.length) % buf.capacity :=
        holds.inv.head_eq (List.length_pos_iff.mp (by omega : 0 < contents.length))
      have le := Nat.mod_le buf.head buf.capacity
      have first : buf.advance buf.beginIt offset = .of buf.capacity word (pos + 1 - contents.length + offset) := by
        have inside : (pos + 1 - contents.length) % buf.capacity + offset < word := by omega
        rw [holds.ready.advance_begin, start]
        exact @CircularQueue.advance_of T buf.aligned positive _ _ inside
      rw [first, CircularQueue.difference_advance positive small, Int.toNat_natCast, holds.copyOut_eq (by omega)]
      rwa [← Nat.mod_add_mod, ← head, Nat.mod_add_mod]

/-! ### Changes -/

theorem push (holds : Holds buf contents pos) (value : T) :
    Holds (buf.pushBack value) ((contents ++ [value]).rtake buf.capacity) (pos + 1) := by
  obtain ⟨aligned, ready⟩ := holds.ready.pushBack value
  have positive : 0 < buf.capacity := holds.inv.positive
  have short : contents.length ≤ buf.capacity := holds.inv.short
  have inside : buf.aligned.head < buf.aligned.capacity := Nat.mod_lt _ positive
  refine ⟨?_, ready⟩
  rw [aligned, ← push_eq_rtake positive short]
  exact holds.inv.pushBack inside

theorem pushes (holds : Holds buf contents pos) (values : List T) :
    Holds (values.foldl CircularQueue.pushBack buf) ((contents ++ values).rtake buf.capacity) (pos + values.length) ∧
      (values.foldl CircularQueue.pushBack buf).capacity = buf.capacity := by
  induction values generalizing buf contents pos with
  | nil =>
    have short : contents.length - buf.capacity = 0 := Nat.sub_eq_zero_of_le holds.inv.short
    rw [List.append_nil, List.rtake, short]
    exact ⟨holds, rfl⟩
  | cons value rest ih =>
    obtain ⟨pushed, capacity⟩ := ih (holds.push value)
    rw [show (buf.pushBack value).capacity = buf.capacity from rfl] at pushed capacity
    rw [rtake_append_rtake, List.append_assoc, Nat.add_assoc, Nat.add_comm 1] at pushed
    exact ⟨pushed, capacity⟩

/-- **A write** keeps the last elements. -/
theorem write (holds : Holds buf contents pos) {values : List T} (small : min values.length buf.capacity < 2 ^ 31) :
    ∃ after pos', CircleBuf.write buf values = some after ∧ after.capacity = buf.capacity ∧
      Holds after ((contents ++ values).rtake buf.capacity) pos' := by
  have written : (if values.length > buf.capacity then values.drop (values.length - buf.capacity) else values) =
      values.drop (values.length - buf.capacity) := by
    split
    · rfl
    · rw [Nat.sub_eq_zero_of_le (by omega), List.drop_zero]
  obtain ⟨pushed, capacity⟩ := holds.pushes (values.drop (values.length - buf.capacity))
  rw [rtake_append_drop] at pushed
  refine ⟨_, _, ?_, capacity, pushed⟩
  rw [CircleBuf.write, written, CircularQueue.advanceTailBy, if_pos (by rw [List.length_drop]; omega),
    CircularQueue.advanceTail_copyIn_endIt]

theorem flush (holds : Holds buf contents pos) : Holds buf.flush [] 0 := by
  have flushed := holds.inv.flush
  have positive : 0 < buf.capacity := holds.inv.positive
  refine ⟨{ flushed with head := .inl rfl }, ?_⟩
  rcases Nat.lt_or_eq_of_le (show 1 ≤ buf.capacity from positive) with more | single
  · exact .inl more
  · exact .inr ⟨single.symm, rfl, rfl⟩

theorem create [Inhabited T] {capacity : Nat} (positive : 1 ≤ capacity) (fits : capacity < word) :
    Holds (.create capacity : CircularQueue T) [] 0 := by
  have created := QueueRun.inv_create (T := T) positive fits
  refine ⟨{ created with head := .inl rfl }, ?_⟩
  rcases Nat.lt_or_eq_of_le positive with more | single
  · exact .inl more
  · exact .inr ⟨single.symm, rfl, rfl⟩

/-- **A read** removes what it returns. -/
theorem read (holds : Holds buf contents pos) {len : Nat} (fits : Peekable buf 0 len)
    (noWrap : len = 0 ∨ buf.size < len ∨ ¬ QueueRun.Wraps buf len) (enough : len ≤ contents.length) :
    ∃ after, CircleBuf.read buf len = some (contents.take len, after) ∧ after.capacity = buf.capacity ∧
      Holds after (contents.drop len) pos := by
  have peeked := holds.peek_eq fits
  rw [StreamRun.peek, if_neg (by omega), List.drop_zero] at peeked
  rw [CircleBuf.read, peeked, Option.bind_some]
  by_cases zero : len = 0
  · subst zero
    exact ⟨buf, rfl, rfl, holds⟩
  · have positive : 0 < buf.capacity := holds.inv.positive
    rw [Peekable, holds.size_eq, Nat.zero_add] at fits
    have le := Nat.mod_le len (word * word)
    obtain ⟨-, -, inner⟩ := (fits.resolve_left (by omega)).2.resolve_left zero
    have inOrder : ¬ QueueRun.Wraps buf.aligned len := by
      have kept := (noWrap.resolve_left zero).resolve_left (by rw [holds.size_eq]; omega)
      rcases holds.ready.cases with same | ⟨single, -⟩
      · rwa [same]
      · rintro ⟨-, -, inside⟩
        rw [show buf.aligned.capacity = 1 from single] at inside
        omega
    have popped := holds.inv.popFront ⟨enough, inner, inOrder⟩
    rw [holds.ready.popFront_eq zero]
    cases taken : buf.aligned.popFront len with
    | none =>
      have works := popped.works
      simp only [QueueRun.act, taken] at works
      cases works
    | some after =>
      simp only [QueueRun.act, taken] at popped
      obtain ⟨capacity, head⟩ : after.capacity = buf.capacity ∧ after.head < buf.capacity :=
        @CircularQueue.popFront_ready T buf.aligned positive len zero after taken
      rw [← capacity] at head
      refine ⟨after, rfl, capacity, ?_, .inl head⟩
      rwa [CircularQueue.aligned, Nat.mod_eq_of_lt head]

end Holds

end Holds

/-! ### Runs -/

namespace BufferRun

/-- What is seen of the buffer is the stream: its size and contents, and what was copied out. -/
structure Shows (run : BufferRun) (stream : StreamRun) : Prop where
  copied : run.copied = stream.copied
  size : run.buf.size = stream.contents.length
  held : ∀ j < stream.contents.length, run.buf.slots[(run.buf.head + j) % run.buf.capacity]? = stream.contents[j]?

/-- The calls for which the buffer keeps to its contract. -/
def Fits (cls : BufferClass) (run : BufferRun) : BufferCall → Prop
  | .write values => (cls = .fifo ∧ run.buf.capacity < run.buf.size + values.length) ∨
      min values.length run.buf.capacity < 2 ^ 31
  | .peek offset len => Peekable run.buf offset len
  | .read len => Peekable run.buf 0 len ∧ (len = 0 ∨ run.buf.size < len ∨ ¬ QueueRun.Wraps run.buf len)
  | .flush => True
  | .save => Peekable run.buf 0 run.buf.size
  | .restore => True

/-- The checkpoint of what was saved, if anything was. -/
def savedText (entry : Checkpoint.Entry) : Option (List UInt8) → List Char
  | none => []
  | some saved => Checkpoint.checkpoint entry saved

/-- The buffer holds the stream, and so does its checkpoint. -/
structure Refines (entry : Checkpoint.Entry) (capacity : Nat) (run : BufferRun) (stream : StreamRun) : Prop where
  sameCapacity : run.buf.capacity = capacity
  holds : ∃ pos, Holds run.buf stream.contents pos
  saved : run.checkpoint = savedText entry stream.saved
  savedFits : ∀ saved ∈ stream.saved, saved.length ≤ capacity ∧ saved.length < 2 ^ 31
  copied : run.copied = stream.copied

variable {cls : BufferClass} {entry : Checkpoint.Entry} {capacity : Nat} {run : BufferRun} {stream : StreamRun}

theorem Refines.shows (refines : run.Refines entry capacity stream) : run.Shows stream := by
  obtain ⟨pos, holds⟩ := refines.holds
  refine ⟨refines.copied, holds.size_eq, fun j inside => ?_⟩
  have head : run.buf.head % run.buf.capacity = (pos + 1 - stream.contents.length) % run.buf.capacity :=
    holds.inv.head_eq (List.length_pos_iff.mp (by omega : 0 < stream.contents.length))
  rw [← Nat.mod_add_mod, head, Nat.mod_add_mod]
  exact holds.inv.held j inside

theorem write_rel {buf : CircularQueue UInt8} {contents values : List UInt8} {pos : Nat} (holds : Holds buf contents pos)
    (fits : (cls = .fifo ∧ buf.capacity < buf.size + values.length) ∨ min values.length buf.capacity < 2 ^ 31) :
    Option.Rel (fun after contents => after.capacity = buf.capacity ∧ ∃ pos, Holds after contents pos)
      (cls.write buf values) (StreamRun.write cls buf.capacity contents values) := by
  have size := holds.size_eq
  cases cls with
  | circleBuf =>
    obtain ⟨after, pos', written, capacity, held⟩ := holds.write (fits.resolve_left fun both => nomatch both.1)
    rw [BufferClass.write, written]
    exact .some ⟨capacity, pos', held⟩
  | fifo =>
    rw [BufferClass.write, Fifo.write, StreamRun.write, size]
    by_cases beyond : contents.length + values.length > buf.capacity
    · rw [if_pos beyond, if_pos beyond]
      exact .none
    · obtain ⟨after, pos', written, capacity, held⟩ := holds.write (fits.resolve_left fun both => beyond (by omega))
      have all : (contents ++ values).length - buf.capacity = 0 := by
        rw [List.length_append]
        omega
      rw [List.rtake, all, List.drop_zero] at held
      rw [if_neg beyond, if_neg beyond, written]
      exact .some ⟨capacity, pos', held⟩

theorem Refines.write (refines : run.Refines entry capacity stream) {values : List UInt8}
    (fits : Fits cls run (.write values)) :
    Option.Rel (Refines entry capacity) (run.act cls entry (.write values)) (stream.act cls capacity (.write values)) := by
  obtain ⟨pos, holds⟩ := refines.holds
  have written := write_rel holds fits
  rw [refines.sameCapacity] at written
  exact rel_map (fun after contents both => ⟨both.1, both.2, refines.saved, refines.savedFits, refines.copied⟩) written

theorem Refines.peek (refines : run.Refines entry capacity stream) {offset len : Nat}
    (fits : Fits cls run (.peek offset len)) : Option.Rel (Refines entry capacity) (run.act cls entry (.peek offset len))
      (stream.act cls capacity (.peek offset len)) := by
  obtain ⟨pos, holds⟩ := refines.holds
  have same : Option.Rel Eq (CircleBuf.peek run.buf offset len) (StreamRun.peek stream.contents offset len) := by
    rw [holds.peek_eq fits]
    cases StreamRun.peek stream.contents offset len with
    | none => exact .none
    | some out => exact .some rfl
  refine rel_map (fun out out' equal => ?_) same
  exact ⟨refines.sameCapacity, refines.holds, refines.saved, refines.savedFits, by rw [refines.copied, equal]⟩

theorem Refines.read (refines : run.Refines entry capacity stream) {len : Nat} (fits : Fits cls run (.read len)) :
    Option.Rel (Refines entry capacity) (run.act cls entry (.read len)) (stream.act cls capacity (.read len)) := by
  obtain ⟨pos, holds⟩ := refines.holds
  by_cases enough : len ≤ stream.contents.length
  · obtain ⟨after, taken, sameCapacity, rest⟩ := holds.read fits.1 fits.2 enough
    have peeked : StreamRun.peek stream.contents 0 len = some (stream.contents.take len) := by
      rw [StreamRun.peek, if_neg (by omega), List.drop_zero]
    rw [act, StreamRun.act, taken, peeked]
    exact .some ⟨sameCapacity.trans refines.sameCapacity, ⟨pos, rest⟩, refines.saved, refines.savedFits,
      by rw [refines.copied]⟩
  · have peeked : StreamRun.peek stream.contents 0 len = none := by
      rw [StreamRun.peek, if_pos (by omega)]
    rw [act, StreamRun.act, CircleBuf.read, holds.peek_eq fits.1, peeked]
    exact .none

theorem Refines.save (refines : run.Refines entry capacity stream) (fits : Fits cls run .save) :
    Option.Rel (Refines entry capacity) (run.act cls entry .save) (stream.act cls capacity .save) := by
  obtain ⟨pos, holds⟩ := refines.holds
  have short : stream.contents.length ≤ run.buf.capacity := holds.inv.short
  have all : CircleBuf.peek run.buf 0 run.buf.size = some stream.contents := by
    rw [holds.peek_eq fits, holds.size_eq, StreamRun.peek, if_neg (by omega), List.drop_zero, List.take_length]
  have small : stream.contents.length < 2 ^ 31 := by
    have le := Nat.mod_le run.buf.size (word * word)
    change Peekable run.buf 0 run.buf.size at fits
    rw [Peekable, Nat.zero_add] at fits
    rw [← holds.size_eq]
    rcases (fits.resolve_left (by omega)).2 with none | ⟨small, -⟩
    · omega
    · exact small
  rw [act, BufferClass.arrayParamOut, all, StreamRun.act]
  refine .some ⟨refines.sameCapacity, refines.holds, rfl, ?_, refines.copied⟩
  rintro saved ⟨⟩
  exact ⟨refines.sameCapacity ▸ short, small⟩

theorem Refines.restore (refines : run.Refines entry capacity stream) :
    Option.Rel (Refines entry capacity) (run.act cls entry .restore) (stream.act cls capacity .restore) := by
  obtain ⟨pos, holds⟩ := refines.holds
  rw [act, StreamRun.act, BufferClass.arrayParamIn, refines.saved]
  cases has : stream.saved with
  | none => exact .none
  | some saved =>
    obtain ⟨short, small⟩ := refines.savedFits saved has
    rw [savedText, Checkpoint.arrayParamIn_checkpoint, Option.bind_some, refines.sameCapacity,
      if_neg fun both => absurd both.2 (Nat.not_lt.mpr short)]
    have written := @write_rel cls run.buf.flush [] saved 0 holds.flush (.inr (by omega))
    have restored : StreamRun.write cls run.buf.flush.capacity [] saved = some saved := by
      rw [show run.buf.flush.capacity = capacity from refines.sameCapacity]
      cases cls with
      | circleBuf => rw [StreamRun.write, List.nil_append, List.rtake, Nat.sub_eq_zero_of_le short, List.drop_zero]
      | fifo => rw [StreamRun.write, if_neg (by rw [List.length_nil]; omega), List.nil_append]
    rw [restored] at written
    have stillFits : ∀ other ∈ some saved, other.length ≤ capacity ∧ other.length < 2 ^ 31 := by
      rintro other ⟨⟩
      exact ⟨short, small⟩
    exact rel_map (fun after contents both => ⟨both.1.trans refines.sameCapacity, both.2, rfl, stillFits,
      refines.copied⟩) written

/-- **One call.** -/
theorem Refines.act (refines : run.Refines entry capacity stream) (call : BufferCall) (fits : Fits cls run call) :
    Option.Rel (Refines entry capacity) (run.act cls entry call) (stream.act cls capacity call) := by
  cases call with
  | write values => exact refines.write fits
  | peek offset len => exact refines.peek fits
  | read len => exact refines.read fits
  | flush =>
    obtain ⟨pos, holds⟩ := refines.holds
    exact .some ⟨refines.sameCapacity, ⟨0, holds.flush⟩, refines.saved, refines.savedFits, refines.copied⟩
  | save => exact refines.save fits
  | restore => exact refines.restore

/-- **Circular buffers refine bounded byte streams**: in every run whose calls fit, the buffer fails where the stream
does, and shows the stream otherwise. -/
theorem streams_refine (cls : BufferClass) (entry : Checkpoint.Entry) {capacity : Nat} (positive : 1 ≤ capacity)
    (below : capacity < word) (calls : List BufferCall) (fit : MeetAll (act cls entry) (Fits cls) (create capacity) calls) :
    Option.Rel Shows (tryActions (act cls entry) (create capacity) calls)
      (tryActions (StreamRun.act cls capacity) .start calls) := by
  have start : (create capacity).Refines entry capacity .start :=
    ⟨rfl, ⟨0, .create positive below⟩, rfl, fun saved none => (nomatch none), rfl⟩
  have simulated := fit.simulates (Refines entry capacity) (fun run stream call fits refines => refines.act call fits) start
  have shown := rel_map (f := id) (g := id) (fun run stream refines => Refines.shows refines) simulated
  rwa [Option.map_id_apply, Option.map_id_apply] at shown

instance (buf : CircularQueue UInt8) (offset len : Nat) : Decidable (Peekable buf offset len) :=
  inferInstanceAs (Decidable (_ ∨ _ ∧ (_ ∨ _ ∧ _ ∧ _)))

instance Fits.decidable (cls : BufferClass) (run : BufferRun) : ∀ call : BufferCall, Decidable (Fits cls run call)
  | .write _ => inferInstanceAs (Decidable ((_ ∧ _) ∨ _))
  | .peek _ _ => inferInstanceAs (Decidable (Peekable ..))
  | .read _ => inferInstanceAs (Decidable (Peekable .. ∧ (_ ∨ _ ∨ ¬ _)))
  | .flush => isTrue trivial
  | .save => inferInstanceAs (Decidable (Peekable ..))
  | .restore => isTrue trivial

def deviceBuffer : Checkpoint.Entry where
  path := ['d', 'm', 'a']
  name := ['b', 'u', 'f', 'f', 'e', 'r']
  pathLine := by decide
  pathTrimmed := by decide
  nameLine := by decide
  nameStart := ⟨'b', rfl, rfl⟩
  nameEnd := by decide

/-- Three slots, written beyond their end, saved and restored. -/
theorem stream_of_three : Option.Rel Shows (tryActions (act .circleBuf deviceBuffer) (create 3)
      [.write [1, 2], .write [3, 4, 5, 6], .peek 1 2, .read 1, .save, .write [7], .flush, .restore, .read 2])
    (tryActions (StreamRun.act .circleBuf 3) .start
      [.write [1, 2], .write [3, 4, 5, 6], .peek 1 2, .read 1, .save, .write [7], .flush, .restore, .read 2]) :=
  streams_refine .circleBuf deviceBuffer (by decide) (by decide) _ (by decide +kernel)

/-! ### The round counter -/

section Wrap

variable (entry : Checkpoint.Entry)

theorem write_full (round : Nat) :
    CircleBuf.write (⟨2, 1, 0, false, round, [1, 0]⟩ : CircularQueue UInt8) [0, 1] =
      some ⟨2, 1, 0, false, (round + 1) % word, [1, 0]⟩ := by
  simp [CircleBuf.write, CircularQueue.advanceTailBy, CircularQueue.copyIn, CircularQueue.endIt, CircularQueue.next,
    CircularQueue.advanceTail, CircularQueue.increase, CircularQueue.moduloAdd, word]

theorem filled_twice (n : Nat) :
    tryActions (act .circleBuf entry) (create 2) (List.replicate (n + 1) (.write [0, 1])) =
        some ⟨⟨2, 1, 0, false, (n + 1) % word, [1, 0]⟩, [], []⟩ ∧
      tryActions (StreamRun.act .circleBuf 2) .start (List.replicate (n + 1) (.write [0, 1])) =
        some ⟨[0, 1], none, []⟩ := by
  induction n with
  | zero => exact ⟨rfl, rfl⟩
  | succ n ih =>
    rw [List.replicate_succ', tryActions_append, tryActions_append, ih.1, ih.2]
    refine ⟨?_, rfl⟩
    rw [Option.bind_some, tryActions, act, BufferClass.write, write_full, Nat.mod_add_mod]
    rfl

/-- **After 2^32 laps** the round of the end is 0 again, and the assertion of `pop_front` fails. -/
theorem read_after_laps : ¬ Option.Rel Shows (tryActions (act .circleBuf deviceBuffer) (create 2)
      (List.replicate (2 ^ 32 - 1) (.write [0, 1]) ++ [.write [2], .read 1]))
    (tryActions (StreamRun.act .circleBuf 2) .start
      (List.replicate (2 ^ 32 - 1) (.write [0, 1]) ++ [.write [2], .read 1])) := by
  obtain ⟨buffer, stream⟩ := filled_twice deviceBuffer (2 ^ 32 - 2)
  rw [show 2 ^ 32 - 1 = 2 ^ 32 - 2 + 1 by norm_num, tryActions_append, tryActions_append, buffer, stream]
  have fails : tryActions (act .circleBuf deviceBuffer) ⟨⟨2, 1, 0, false, (2 ^ 32 - 2 + 1) % word, [1, 0]⟩, [], []⟩
      [.write [2], .read 1] = none := by decide
  have shown : tryActions (StreamRun.act .circleBuf 2) ⟨[0, 1], none, []⟩ [.write [2], .read 1] =
      some ⟨[2], none, [[1]]⟩ := rfl
  rw [Option.bind_some, Option.bind_some, fails, shown]
  exact Option.not_rel_none_some

end Wrap

end BufferRun

end Emas.Gem5

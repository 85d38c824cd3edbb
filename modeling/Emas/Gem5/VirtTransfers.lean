/-
**What a transfer moves.**

A device sees the buffers of a chain as one: `region` lists the addresses of the guest that it is made of.
`chainRead` and `chainWrite` skip and copy in one loop, which asks three conditions after each descriptor;
`transferFrom_moves` says that the loop works on `[offset, offset + size)` of the region, as far as its
descriptors go (`leading`). The induction is over the walk, for every offset and size: a descriptor inside of
the offset shortens the offset, any other one shortens the size.

* `chainRead_spec` and `chainWrite_spec` are about the two loops and the bytes.
* `chainSizeFrom_walk` is the size that a panic reports.
-/

import Emas.Gem5.VirtChains
import Mathlib.Data.List.Perm.Subperm
import Mathlib.Data.List.TakeWhile

namespace Emas.Gem5

open Outcome

namespace VirtQueue

variable (queue : VirtQueue) (memory : GuestMemory)

/-! ### The region of a chain -/

/-- The descriptors that a chain from `this` goes through. -/
abbrev Chain (this : Nat) (descs : List Nat) : Prop :=
  Walk (links queue.descriptors) (· < queue.size) this descs

/-- The widths of `_size` and of `vring_desc.len`. -/
structure Sized : Prop where
  size : queue.size < 2 ^ 16
  len : ∀ index, (queue.descriptors index).len < 2 ^ 32

/-- The addresses of a buffer. -/
def buffer (index : Nat) : List Nat :=
  (List.range (queue.descriptors index).len).map fun i => ((queue.descriptors index).addr + i) % addrLimit

/-- The addresses of the concatenated buffers. -/
def region (descs : List Nat) : List Nat := descs.flatMap queue.buffer

/-- The bytes that the guest has there. -/
def contents (descs : List Nat) : List UInt8 := (queue.region descs).map memory

/-- The descriptors that a transfer may get to. -/
def leading (continues : VringDesc → Bool) : List Nat → List Nat
  | [] => []
  | this :: rest => this :: rest.takeWhile fun desc => continues (queue.descriptors desc)

/-- The bytes `bytes` are at these addresses of `after`, which is `memory` elsewhere. -/
structure Stores (memory : GuestMemory) (addrs : List Nat) (bytes : List UInt8) (after : GuestMemory) : Prop where
  stored : addrs.map after = bytes
  kept : ∀ addr, addr < addrLimit → addr ∉ addrs → after addr = memory addr

@[simp]
theorem length_buffer (index : Nat) : (queue.buffer index).length = (queue.descriptors index).len := by
  rw [buffer, List.length_map, List.length_range]

@[simp]
theorem region_nil : queue.region [] = [] := rfl

@[simp]
theorem region_cons (this : Nat) (rest : List Nat) : queue.region (this :: rest) = queue.buffer this ++ queue.region rest :=
  List.flatMap_cons

theorem buffer_part {index offset count : Nat} (inside : offset + count ≤ (queue.descriptors index).len) :
    ((queue.buffer index).drop offset).take count
      = (List.range count).map fun i => ((queue.descriptors index).addr + offset + i) % addrLimit := by
  apply List.ext_getElem
  · simp
    omega
  · intro i left right
    simp [buffer, Nat.add_assoc]

/-! ### The loop -/

section Loop

variable {queue memory} {this : Nat} {descs : List Nat} {σ : Type}
  {access : Nat → Nat → Nat → σ → Except Fault σ} {continues : VringDesc → Bool} {move : List Nat → σ → σ}

theorem transferStep_moves (moves : ∀ offset count state, offset + count ≤ (queue.descriptors this).len →
      access this offset count state = .ok (move (((queue.buffer this).drop offset).take count) state))
    (nothing : ∀ state, move [] state = state) (transfer : Transfer σ) :
    queue.transferStep access this transfer = .ok
      ⟨move (((queue.buffer this).drop transfer.offset).take transfer.size) transfer.buffer,
        transfer.offset - (queue.descriptors this).len,
        transfer.size - ((queue.descriptors this).len - transfer.offset)⟩ := by
  unfold transferStep
  by_cases within : transfer.offset < (queue.descriptors this).len
  · have taken : ((queue.buffer this).drop transfer.offset).take
          (min ((queue.descriptors this).len - transfer.offset) transfer.size)
        = ((queue.buffer this).drop transfer.offset).take transfer.size := by
      rw [Nat.min_comm, ← List.take_take]
      congr 1
      apply List.take_of_length_le
      simp
    have inside : transfer.offset + min ((queue.descriptors this).len - transfer.offset) transfer.size
        ≤ (queue.descriptors this).len := by omega
    have first : transfer.offset - (queue.descriptors this).len = 0 := by omega
    have rest : transfer.size - ((queue.descriptors this).len - transfer.offset)
        = transfer.size - min ((queue.descriptors this).len - transfer.offset) transfer.size := by omega
    simp only [if_pos within]
    rw [moves _ _ _ inside, taken, first, rest]
    rfl
  · have skipped : (queue.buffer this).drop transfer.offset = [] := by
      apply List.drop_eq_nil_of_le
      rw [length_buffer]
      omega
    have unused : (queue.descriptors this).len - transfer.offset = 0 := by omega
    simp only [if_neg within]
    rw [skipped, List.take_nil, nothing, unused]
    rfl

theorem region_part (index : Nat) (rest : List Nat) (offset size : Nat) :
    ((queue.region (index :: rest)).drop offset).take size = ((queue.buffer index).drop offset).take size
        ++ ((queue.region rest).drop (offset - (queue.descriptors index).len)).take
          (size - ((queue.descriptors index).len - offset)) := by
  rw [region_cons, List.drop_append, List.take_append, length_buffer, List.length_drop, length_buffer]

/-- **The loop moves its part of the region**, as far as the descriptors go that it gets to. -/
theorem transferFrom_moves (chain : queue.Chain this descs)
    (moves : ∀ desc ∈ queue.leading continues descs, ∀ offset count state,
      offset + count ≤ (queue.descriptors desc).len →
      access desc offset count state = .ok (move (((queue.buffer desc).drop offset).take count) state))
    (nothing : ∀ state, move [] state = state)
    (onward : ∀ first second state, move (first ++ second) state = move second (move first state))
    (fuel : Nat) (enough : descs.length ≤ fuel) (transfer : Transfer σ) (positive : 0 < transfer.size) :
    ∃ left, queue.transferFrom access continues fuel this transfer = .done
      ⟨move (((queue.region (queue.leading continues descs)).drop transfer.offset).take transfer.size) transfer.buffer,
        left, transfer.size - ((queue.region (queue.leading continues descs)).length - transfer.offset)⟩ := by
  induction chain generalizing fuel transfer with
  | @last this _ none =>
    obtain ⟨fuel, rfl⟩ : ∃ fuel', fuel = fuel' + 1 := ⟨fuel - 1, by simp at enough; omega⟩
    refine ⟨transfer.offset - (queue.descriptors this).len, ?_⟩
    rw [transferFrom, transferStep_moves (moves this (List.mem_singleton.mpr rfl)) nothing, next_last queue none]
    simp [leading]
  | @step this later rest within some chain ih =>
    obtain ⟨fuel, rfl⟩ : ∃ fuel', fuel = fuel' + 1 := ⟨fuel - 1, by simp at enough; omega⟩
    obtain ⟨tail, rfl⟩ := chain.exists_tail
    have first : this ∈ queue.leading continues (this :: later :: tail) := List.mem_cons_self
    rw [transferFrom, transferStep_moves (moves this first) nothing, next_some queue some, if_pos chain.endsFrom.within]
    dsimp only
    by_cases goes : continues (queue.descriptors later) = true
    · have leads : queue.leading continues (this :: later :: tail)
          = this :: queue.leading continues (later :: tail) := by
        simp [leading, goes]
      rw [leads] at moves ⊢
      rw [region_part, onward, region_cons, List.length_append, length_buffer]
      by_cases left : 0 < transfer.size - ((queue.descriptors this).len - transfer.offset)
      · -- the next descriptor goes on with the rest of the transfer
        rw [goes, decide_eq_true left, Bool.and_self, if_pos rfl]
        obtain ⟨offset, moved⟩ := ih (fun desc mem => moves desc (List.mem_cons_of_mem _ mem)) fuel
          (by simpa using enough)
          ⟨move (((queue.buffer this).drop transfer.offset).take transfer.size) transfer.buffer,
            transfer.offset - (queue.descriptors this).len,
            transfer.size - ((queue.descriptors this).len - transfer.offset)⟩ left
        refine ⟨offset, moved.trans ?_⟩
        congr 2
        dsimp only
        omega
      · rw [goes, decide_eq_false left, Bool.and_false, if_neg Bool.false_ne_true]
        have all : transfer.size - ((queue.descriptors this).len - transfer.offset) = 0 := by omega
        refine ⟨transfer.offset - (queue.descriptors this).len, ?_⟩
        rw [all, List.take_zero, nothing]
        congr 2
        omega
    · have leads : queue.leading continues (this :: later :: tail) = [this] := by
        simp [leading, goes]
      rw [Bool.not_eq_true] at goes
      rw [leads, goes, Bool.false_and, if_neg Bool.false_ne_true]
      exact ⟨transfer.offset - (queue.descriptors this).len, by simp⟩

theorem chainSizeFrom_walk (chain : queue.Chain this descs) (fuel : Nat) (enough : descs.length ≤ fuel) (size : Nat) :
    queue.chainSizeFrom fuel size this = .done ((size + (queue.region descs).length) % addrLimit) := by
  induction chain generalizing fuel size with
  | @last this _ none =>
    obtain ⟨fuel, rfl⟩ : ∃ fuel', fuel = fuel' + 1 := ⟨fuel - 1, by simp at enough; omega⟩
    rw [chainSizeFrom, next_last queue none]
    simp
  | @step this later rest within some chain ih =>
    obtain ⟨fuel, rfl⟩ : ∃ fuel', fuel = fuel' + 1 := ⟨fuel - 1, by simp at enough; omega⟩
    rw [chainSizeFrom, next_some queue some, if_pos chain.endsFrom.within]
    dsimp only
    rw [ih fuel (by simpa using enough), Nat.mod_add_mod, region_cons, List.length_append, length_buffer, Nat.add_assoc]

theorem length_region_lt (sized : queue.Sized) (chain : queue.Chain this descs) :
    (queue.region descs).length < addrLimit := by
  have short : ∀ descs, (queue.region descs).length ≤ descs.length * 2 ^ 32 := by
    intro descs
    induction descs with
    | nil => exact Nat.zero_le _
    | cons desc rest ih =>
      have len := sized.len desc
      rw [region_cons, List.length_append, length_buffer, List.length_cons]
      omega
  have few : descs.length ≤ queue.size := by
    have inside : descs ⊆ List.range queue.size := fun desc mem => List.mem_range.mpr (chain.within desc mem)
    have fewer := (chain.nodup.subperm inside).length_le
    rwa [List.length_range] at fewer
  have bound := short descs
  have size := sized.size
  rw [addrLimit]
  omega

theorem chainSize_walk (sized : queue.Sized) (chain : queue.Chain this descs) {fuel : Nat} (enough : descs.length ≤ fuel) :
    queue.chainSize fuel this = .done (queue.region descs).length := by
  rw [chainSize, chainSizeFrom_walk chain fuel enough, Nat.zero_add, Nat.mod_eq_of_lt (length_region_lt sized chain)]

variable {failed : Nat → Nat → Nat → Fault}

theorem transfer_moves (sized : queue.Sized) (chain : queue.Chain this descs)
    (moves : ∀ desc ∈ queue.leading continues descs, ∀ offset count state,
      offset + count ≤ (queue.descriptors desc).len →
      access desc offset count state = .ok (move (((queue.buffer desc).drop offset).take count) state))
    (nothing : ∀ state, move [] state = state)
    (onward : ∀ first second state, move (first ++ second) state = move second (move first state))
    {fuel : Nat} (enough : descs.length ≤ fuel) {offset size : Nat} (positive : 0 < size) (state : σ) :
    if offset + size ≤ (queue.region (queue.leading continues descs)).length then
      ∃ left, queue.transfer access continues failed fuel this offset size state = .done
        ⟨move (((queue.region (queue.leading continues descs)).drop offset).take size) state, left, 0⟩
    else ∃ left transfer, queue.transfer access continues failed fuel this offset size state
      = .fault (failed size (queue.region descs).length left) transfer := by
  obtain ⟨left, moved⟩ := transferFrom_moves chain moves nothing onward fuel enough ⟨state, offset, size⟩ positive
  rw [transfer, moved, bind_done, chainSize_walk sized chain enough]
  dsimp only
  split
  next long =>
    have none : size - ((queue.region (queue.leading continues descs)).length - offset) = 0 := by omega
    rw [none, if_pos rfl]
    exact ⟨left, rfl⟩
  next short =>
    rw [if_neg (by omega)]
    exact ⟨left, _, rfl⟩

end Loop

/-! ### Reading -/

section Read

variable {queue} {this : Nat} {descs : List Nat}

theorem read_moves {desc : Nat} (readable : (queue.descriptors desc).isIncoming) (memory : GuestMemory)
    (offset count : Nat) (dst : List UInt8) (inside : offset + count ≤ (queue.descriptors desc).len) :
    (queue.read memory desc offset count).map (dst ++ ·)
      = .ok (dst ++ (((queue.buffer desc).drop offset).take count).map memory) := by
  have notOutgoing : (queue.descriptors desc).isOutgoing = false := by
    simpa [VringDesc.isIncoming] using readable
  rw [read, if_neg (by omega), notOutgoing, if_neg Bool.false_ne_true, buffer_part queue inside, List.map_map]
  rfl

theorem leading_incoming (readable : (queue.descriptors this).isIncoming) (rest : List Nat) :
    queue.leading VringDesc.isIncoming (this :: rest)
      = (this :: rest).takeWhile fun desc => (queue.descriptors desc).isIncoming := by
  rw [leading, List.takeWhile_cons, if_pos readable]

/-- **`chainRead` returns its part of the readable buffers**, or panics because they are too short. -/
theorem chainRead_spec (sized : queue.Sized) (chain : queue.Chain this descs)
    (readable : (queue.descriptors this).isIncoming) (memory : GuestMemory) {fuel : Nat}
    (enough : descs.length ≤ fuel) {offset size : Nat} (positive : 0 < size) :
    let content := queue.contents memory (descs.takeWhile fun desc => (queue.descriptors desc).isIncoming)
    if offset + size ≤ content.length then
      ∃ left, queue.chainRead memory fuel this offset size = .done ⟨(content.drop offset).take size, left, 0⟩
    else ∃ left transfer, queue.chainRead memory fuel this offset size
      = .fault (.failedRead size (queue.region descs).length left) transfer := by
  obtain ⟨rest, rfl⟩ := chain.exists_tail
  have leads := leading_incoming readable rest
  have incoming : ∀ desc ∈ queue.leading VringDesc.isIncoming (this :: rest), (queue.descriptors desc).isIncoming := by
    rw [leads]
    exact fun desc mem => List.all_eq_true.mp List.all_takeWhile desc mem
  have moves := fun desc mem offset count dst inside =>
    read_moves (incoming desc mem) memory offset count dst inside
  dsimp only
  rw [chainRead, contents, List.length_map, ← List.map_drop, ← List.map_take, ← leads]
  exact @transfer_moves queue this (this :: rest) _ _ _ (fun addrs dst => dst ++ addrs.map memory) _ sized chain moves
    List.append_nil (fun first second dst => by rw [List.map_append, List.append_assoc]) fuel enough offset size positive []

end Read

/-! ### Writing -/

section Pour

variable {α β γ : Type} (put : γ → α → β → γ)

/-- The values go to the places one by one, as long as there are both. -/
def pour : List α → γ × List β → γ × List β
  | place :: places, (state, value :: values) => pour places (put state place value, values)
  | _, held => held

theorem pour_nil (held : γ × List β) : pour put [] held = held := rfl

theorem pour_none (places : List α) (state : γ) : pour put places (state, []) = (state, []) := by
  cases places <;> rfl

theorem pour_append (first second : List α) (held : γ × List β) :
    pour put (first ++ second) held = pour put second (pour put first held) := by
  induction first generalizing held with
  | nil => rfl
  | cons place first ih =>
    obtain ⟨state, values⟩ := held
    cases values with
    | nil => exact (pour_none put second state).symm
    | cons value values => exact ih _

theorem pour_take (places : List α) (state : γ) (values : List β) :
    pour put places (state, values)
      = ((pour put places (state, values.take places.length)).1, values.drop places.length) := by
  induction places generalizing state values with
  | nil => rfl
  | cons place places ih =>
    cases values with
    | nil => rfl
    | cons value values => exact ih _ _

end Pour

/-- The bytes go to the addresses one by one. -/
def poke : List Nat → GuestMemory × List UInt8 → GuestMemory × List UInt8 :=
  pour fun memory addr byte => memory.writeBlob addr [byte]

section Write

variable {queue} {memory : GuestMemory} {this : Nat} {descs : List Nat}

theorem writeBlob_nil (addr : Nat) : memory.writeBlob addr [] = memory := rfl

theorem writeBlob_byte {addr at' : Nat} (within : at' < addrLimit) (within' : addr < addrLimit) (byte : UInt8) :
    memory.writeBlob addr [byte] at' = if at' = addr then byte else memory at' := by
  have index : (at' + addrLimit - addr % addrLimit) % addrLimit = 0 ↔ at' = addr := by
    rw [addrLimit] at *
    omega
  unfold GuestMemory.writeBlob
  generalize (at' + addrLimit - addr % addrLimit) % addrLimit = i at index
  cases i with
  | zero => rw [if_pos (index.mp rfl), List.getD_cons_zero]
  | succ i => rw [if_neg fun same => Nat.succ_ne_zero i (index.mpr same), List.getD_cons_succ, List.getD_nil]

theorem writeBlob_cons {data : List UInt8} {byte : UInt8} (short : data.length < addrLimit) (addr : Nat) :
    memory.writeBlob addr (byte :: data) = (memory.writeBlob addr [byte]).writeBlob (addr + 1) data := by
  funext at'
  have index : (at' + addrLimit - (addr + 1) % addrLimit) % addrLimit
      = if (at' + addrLimit - addr % addrLimit) % addrLimit = 0 then addrLimit - 1
        else (at' + addrLimit - addr % addrLimit) % addrLimit - 1 := by
    rw [addrLimit]
    split <;> omega
  unfold GuestMemory.writeBlob
  generalize (at' + addrLimit - addr % addrLimit) % addrLimit = i at index
  rw [index]
  cases i with
  | zero =>
    have past : data[addrLimit - 1]? = none := List.getElem?_eq_none (by omega)
    rw [if_pos rfl, List.getD_eq_getElem?_getD (i := addrLimit - 1), past, List.getD_cons_zero, List.getD_cons_zero]
    rfl
  | succ i =>
    rw [if_neg (Nat.succ_ne_zero i), Nat.add_sub_cancel, List.getD_cons_succ, List.getD_cons_succ, List.getD_nil]

theorem writeBlob_mod (addr : Nat) (data : List UInt8) :
    memory.writeBlob (addr % addrLimit) data = memory.writeBlob addr data := by
  unfold GuestMemory.writeBlob
  rw [Nat.mod_mod]

theorem writeBlob_poke {data : List UInt8} (short : data.length ≤ addrLimit) {count : Nat}
    (enough : data.length ≤ count) (addr : Nat) :
    memory.writeBlob addr data = (poke ((List.range count).map fun i => (addr + i) % addrLimit) (memory, data)).1 := by
  induction data generalizing memory addr count with
  | nil => rw [poke, pour_none, writeBlob_nil]
  | cons byte data ih =>
    have fewer : data.length < addrLimit := Nat.lt_of_succ_le short
    obtain ⟨count, rfl⟩ : ∃ rest, count = rest + 1 := ⟨count - 1, by simp at enough; omega⟩
    have onward : (fun i => (addr + i) % addrLimit) ∘ Nat.succ = fun i => (addr + 1 + i) % addrLimit := by
      funext i
      rw [Function.comp_apply, Nat.succ_eq_add_one, Nat.add_assoc, Nat.add_comm 1 i]
    rw [writeBlob_cons fewer, ih (Nat.le_of_lt fewer) (by simpa using enough), List.range_succ_eq_map, List.map_cons,
      List.map_map, onward, poke, pour, writeBlob_mod, Nat.add_zero addr]

theorem write_moves {desc : Nat} (sized : queue.Sized) (writable : (queue.descriptors desc).isOutgoing)
    (offset count : Nat) (buffer : GuestMemory × List UInt8) (inside : offset + count ≤ (queue.descriptors desc).len) :
    ((queue.write buffer.1 desc offset (buffer.2.take count)).map fun memory => (memory, buffer.2.drop count))
      = .ok (poke (((queue.buffer desc).drop offset).take count) buffer) := by
  obtain ⟨memory, src⟩ := buffer
  have taken : (src.take count).length ≤ count := List.length_take_le _ _
  have len := sized.len desc
  have fits : ¬(queue.descriptors desc).len - offset < (src.take count).length := by omega
  have short : (src.take count).length ≤ addrLimit := by
    rw [addrLimit]
    omega
  have notIncoming : (queue.descriptors desc).isIncoming = false := by
    rw [VringDesc.isIncoming, writable]
    rfl
  rw [write, if_neg fits, notIncoming, if_neg Bool.false_ne_true, buffer_part queue inside, poke, pour_take, ← poke,
    List.length_map, List.length_range, writeBlob_poke short taken]
  rfl

theorem poke_stores (memory : GuestMemory) {addrs : List Nat} (nodup : addrs.Nodup)
    (within : ∀ addr ∈ addrs, addr < addrLimit) (src : List UInt8) (length : src.length = addrs.length) :
    ∃ after, poke addrs (memory, src) = (after, []) ∧ Stores memory addrs src after := by
  induction addrs generalizing memory src with
  | nil =>
    obtain rfl := List.length_eq_zero_iff.mp length
    exact ⟨memory, rfl, rfl, fun _ _ _ => rfl⟩
  | cons addr addrs ih =>
    obtain ⟨byte, src, rfl⟩ : ∃ byte rest, src = byte :: rest := by
      cases src with
      | nil => cases length
      | cons byte src => exact ⟨byte, src, rfl⟩
    obtain ⟨fresh, nodup⟩ := List.nodup_cons.mp nodup
    obtain ⟨here, within⟩ := List.forall_mem_cons.mp within
    obtain ⟨after, poked, stores⟩ := ih (memory.writeBlob addr [byte]) nodup within src (Nat.succ.inj length)
    refine ⟨after, ?_, ?_, fun other inside notMem => ?_⟩
    · rw [poke, pour]
      exact poked
    · rw [List.map_cons, stores.stored, stores.kept addr here fresh, writeBlob_byte here here, if_pos rfl]
    · rw [List.mem_cons, not_or] at notMem
      rw [stores.kept other inside notMem.2, writeBlob_byte inside here, if_neg notMem.1]

theorem mem_region_lt {addr : Nat} (mem : addr ∈ queue.region descs) : addr < addrLimit := by
  obtain ⟨desc, -, mem⟩ := List.mem_flatMap.mp mem
  obtain ⟨i, -, rfl⟩ := List.mem_map.mp mem
  exact Nat.mod_lt _ (Nat.two_pow_pos 64)

theorem leading_all (descs : List Nat) : queue.leading (fun _ => true) descs = descs := by
  cases descs with
  | nil => rfl
  | cons this rest => rw [leading, List.takeWhile_eq_self_iff.mpr fun _ _ => rfl]

/-- **`chainWrite` changes its part of the buffers**, or panics because the chain is too short. -/
theorem chainWrite_spec (sized : queue.Sized) (chain : queue.Chain this descs)
    (writable : ∀ desc ∈ descs, (queue.descriptors desc).isOutgoing) (disjoint : (queue.region descs).Nodup)
    (memory : GuestMemory) {fuel : Nat} (enough : descs.length ≤ fuel) {offset : Nat} {src : List UInt8}
    (positive : 0 < src.length) :
    if offset + src.length ≤ (queue.region descs).length then
      ∃ left after, queue.chainWrite memory fuel this offset src = .done ⟨(after, []), left, 0⟩ ∧
        Stores memory (((queue.region descs).drop offset).take src.length) src after
    else ∃ left transfer, queue.chainWrite memory fuel this offset src
      = .fault (.failedWrite src.length (queue.region descs).length left) transfer := by
  have moves : ∀ desc ∈ queue.leading (fun _ => true) descs, ∀ offset count buffer, _ → _ = Except.ok _ :=
    fun desc mem offset count buffer inside =>
      write_moves sized (writable desc (leading_all descs ▸ mem)) offset count buffer inside
  have moved := @transfer_moves queue this descs _ _ (fun _ => true) poke .failedWrite sized chain moves
    (pour_nil _) (pour_append _) fuel enough offset src.length positive (memory, src)
  rw [leading_all] at moved
  rw [chainWrite]
  split
  next long =>
    rw [if_pos long] at moved
    obtain ⟨left, moved⟩ := moved
    obtain ⟨after, poked, stores⟩ := poke_stores memory
      ((disjoint.sublist (List.drop_sublist offset _)).sublist (List.take_sublist src.length _))
      (fun addr mem => mem_region_lt (List.mem_of_mem_drop (List.mem_of_mem_take mem)))
      src (by rw [List.length_take, List.length_drop]; omega)
    refine ⟨left, after, ?_, stores⟩
    rw [moved, poked]
  next short =>
    rw [if_neg short] at moved
    exact moved

end Write

/-! ### Both directions -/

/-- **A transfer moves exactly the bytes that it was asked for**, or panics because there are not as many. -/
theorem chain_transfers_exact {queue : VirtQueue} {this : Nat} {descs : List Nat} (sized : queue.Sized)
    (chain : queue.Chain this descs) (memory : GuestMemory) (offset fuel : Nat) (enough : descs.length ≤ fuel) :
    ((queue.descriptors this).isIncoming → ∀ size, 0 < size →
      let content := queue.contents memory (descs.takeWhile fun desc => (queue.descriptors desc).isIncoming)
      if offset + size ≤ content.length then
        ∃ left, queue.chainRead memory fuel this offset size = .done ⟨(content.drop offset).take size, left, 0⟩
      else ∃ left transfer, queue.chainRead memory fuel this offset size
        = .fault (.failedRead size (queue.region descs).length left) transfer) ∧
    ((∀ desc ∈ descs, (queue.descriptors desc).isOutgoing) → (queue.region descs).Nodup → ∀ src, 0 < src.length →
      ∃ total, queue.chainSize fuel this = .done total ∧
        if offset + src.length ≤ total then
          ∃ left after, queue.chainWrite memory fuel this offset src = .done ⟨(after, []), left, 0⟩ ∧
            Stores memory (((queue.region descs).drop offset).take src.length) src after
        else ∃ left transfer, queue.chainWrite memory fuel this offset src
          = .fault (.failedWrite src.length total left) transfer) := by
  constructor
  · intro readable size positive
    exact chainRead_spec sized chain readable memory enough positive
  · intro writable disjoint src positive
    exact ⟨_, chainSize_walk sized chain enough, chainWrite_spec sized chain writable disjoint memory enough positive⟩

/-- An empty descriptor between two others, which are at 100 and 200. -/
def threeDescs (flags : Nat) : VirtQueue :=
  { make .little 4 with
    descriptors := fun index => match index with
      | 0 => ⟨100, 2, flags + 1, 1⟩
      | 1 => ⟨0, 0, flags + 1, 2⟩
      | 2 => ⟨200, 3, flags, 0⟩
      | _ => ⟨0, 0, 0, 0⟩ }

/-- The second byte of the first descriptor and two of the last one, which the guest is asked for and told. -/
theorem chain_transfers_exact_three :
    (∃ left, (threeDescs 0).chainRead (fun addr => .ofNat addr) 3 0 1 3 = .done ⟨[101, 200, 201], left, 0⟩) ∧
    ∃ left after, (threeDescs 2).chainWrite (fun _ => 0) 3 0 1 [7, 8, 9] = .done ⟨(after, []), left, 0⟩ ∧
      Stores (fun _ => 0) [101, 200, 201] [7, 8, 9] after := by
  have sized : ∀ flags, (threeDescs flags).Sized := fun flags => ⟨show 4 < 2 ^ 16 by decide, fun index =>
    match index with
    | 0 => show 2 < 2 ^ 32 by decide
    | 1 => Nat.two_pow_pos 32
    | 2 => show 3 < 2 ^ 32 by decide
    | _ + 3 => Nat.two_pow_pos 32⟩
  have reads : (threeDescs 0).Chain 0 [0, 1, 2] :=
    .step (by decide) (by decide) (.step (by decide) (by decide) (.last (by decide) (by decide)))
  have writes : (threeDescs 2).Chain 0 [0, 1, 2] :=
    .step (by decide) (by decide) (.step (by decide) (by decide) (.last (by decide) (by decide)))
  refine ⟨(chain_transfers_exact (sized 0) reads _ 1 3 (by decide)).1 (by decide) 3 (by decide), ?_⟩
  obtain ⟨total, size, written⟩ := (chain_transfers_exact (sized 2) writes (fun _ => 0) 1 3 (by decide)).2
    (by decide) (by decide) [7, 8, 9] (by decide)
  obtain rfl : 5 = total := Outcome.done.inj size
  exact written

end VirtQueue

end Emas.Gem5

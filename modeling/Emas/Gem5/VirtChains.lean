/-
**Descriptor chains of a guest.**

Whatever the guest has written, `consumeDescriptor` should return or stop the simulator, and a chain that it
hands out should end. `updateChain` looks for loops by comparing with the head alone, and `getDescriptor`
compares with nothing: `consumes_iff` says which guests are served safely. It rests on:

* `updateChainFrom_stops`, `updateChainFrom_settles`: the walk settles exactly on the chains that
  stop, in the descriptors that it reads (`latest`);
* `chainSizeFrom_ends`, `transfer_settles`: so does everything that a device does with it.

`tail_cycle_spins` is a guest of two descriptors whose chain runs into itself behind its head.
-/

import Emas.Gem5.VirtQueue
import Emas.Lib.SlotChain

namespace Emas.Gem5

open Outcome

/-- Ends with a message at the worst. -/
abbrev Fault.Orderly (cause : Fault) : Prop := cause.aborts = true

namespace VirtQueue

variable (queue : VirtQueue) (memory : GuestMemory)

/-! ### Links -/

/-- The chain that descriptors make. -/
def links (descriptors : Nat → VringDesc) (index : Nat) : Option Nat :=
  if (descriptors index).hasNext then some (descriptors index).next else none

/-- What `update` reads of a descriptor; a queue without an address keeps the copy that it has. -/
def latest (index : Nat) : VringDesc :=
  if queue.address = 0 then queue.descriptors index
  else memory.readDesc queue.byteOrder (queue.address + VringDesc.bytes * index)

theorem next_last {index : Nat} (last : links queue.descriptors index = none) : queue.next index = .ok none := by
  unfold links at last
  split at last
  · cases last
  · rename_i none
    exact if_neg none

theorem next_some {index later : Nat} (onward : links queue.descriptors index = some later) :
    queue.next index = if later < queue.size then .ok (some later) else .error (.outOfBounds later) := by
  unfold links at onward
  split at onward
  · rename_i has
    obtain rfl := Option.some.inj onward
    rw [next, if_pos has, getDescriptor]
    split <;> rfl
  · cases onward

/-! ### Updates -/

def updated (index : Nat) : VirtQueue :=
  { queue with descriptors := fun other => if other = index then queue.latest memory index
      else queue.descriptors other }

theorem update_eq {index : Nat} (inside : index < queue.size) :
    queue.update memory index = .done (queue.updated memory index) := by
  by_cases unset : queue.address = 0
  · have same : (queue.updated memory index).descriptors = queue.descriptors := by
      funext other
      show (if other = index then queue.latest memory index else queue.descriptors other) = _
      split
      · rename_i here
        rw [latest, if_pos unset, here]
      · rfl
    rw [update, if_pos unset]
    show Outcome.done queue = .done { queue with descriptors := (queue.updated memory index).descriptors }
    rw [same]
  · rw [update, if_neg unset, if_pos inside, updated, latest, if_neg unset]

theorem updated_latest (index : Nat) : (queue.updated memory index).latest memory = queue.latest memory := by
  funext other
  unfold latest updated
  dsimp only
  split
  · rename_i unset
    split
    · rename_i same
      rw [latest, if_pos unset, same]
    · rfl
  · rfl

theorem updated_self (index : Nat) : (queue.updated memory index).descriptors index = queue.latest memory index :=
  if_pos rfl

/-! ### The walk of updateChain -/

section Walk

variable {queue memory} {head desc : Nat}

variable (queue memory head) in
theorem updateChainFrom_succ (fuel : Nat) (inside : desc < queue.size) :
    updateChainFrom memory head (fuel + 1) queue desc = match links (queue.latest memory) desc with
      | none => .done (queue.updated memory desc)
      | some next =>
        if next < queue.size then
          if next = head then .fault .loopInChain (queue.updated memory desc)
          else updateChainFrom memory head fuel (queue.updated memory desc) next
        else .fault (.outOfBounds next) (queue.updated memory desc) := by
  rw [updateChainFrom, update_eq queue memory inside, bind_done]
  have same : links (queue.updated memory desc).descriptors desc = links (queue.latest memory) desc := by
    unfold links
    rw [updated_self]
  cases onward : links (queue.latest memory) desc with
  | none =>
    rw [next_last (queue.updated memory desc) (same.trans onward)]
  | some next =>
    rw [next_some (queue.updated memory desc) (same.trans onward)]
    by_cases within : next < queue.size
    · have within' : next < (queue.updated memory desc).size := within
      rw [if_pos within']
      exact (if_pos within).symm
    · have within' : ¬next < (queue.updated memory desc).size := within
      rw [if_neg within']
      exact (if_neg within).symm

theorem updateChainFrom_stops (fuel : Nat) (inside : desc < queue.size)
    (orderly : (updateChainFrom memory head fuel queue desc).Within Fault.Orderly False) :
    StopsFrom (links (queue.latest memory)) (· < queue.size) head desc := by
  induction fuel generalizing queue desc with
  | zero => exact orderly.elim
  | succ fuel ih =>
    rw [updateChainFrom_succ queue memory head fuel inside] at orderly
    cases onward : links (queue.latest memory) desc with
    | none => exact .last inside onward
    | some next =>
      rw [onward] at orderly
      dsimp only at orderly
      split at orderly
      · rename_i within
        split at orderly
        · rename_i same
          exact .back inside (same ▸ onward)
        · have within' : next < (queue.updated memory desc).size := within
          have rest := ih within' orderly
          rw [updated_latest] at rest
          exact .step inside onward rest
      · cases orderly

theorem updateChainFrom_settles {copies : Nat → VringDesc} {size : Nat} (started : head < size)
    (stops : StopsFrom (links copies) (· < size) head desc) {queue : VirtQueue}
    (fresh : queue.latest memory = copies) (sized : queue.size = size) :
    Settles Fault.Orderly fun fuel => updateChainFrom memory head fuel queue desc := by
  have turn := fun fuel => updateChainFrom_succ queue memory head fuel (sized.symm ▸ stops.within)
  rw [fresh, sized] at turn
  induction stops generalizing queue with
  | last _ none =>
    simp only [none] at turn
    exact .succ trivial turn (.const trivial)
  | back _ back =>
    simp only [back, if_pos started, if_pos] at turn
    exact .succ trivial turn (.const rfl)
  | @step slot later _ onward rest ih =>
    simp only [onward, if_pos rest.within] at turn
    by_cases same : later = head
    · simp only [if_pos same] at turn
      exact .succ trivial turn (.const rfl)
    · simp only [if_neg same] at turn
      have fresh' : (queue.updated memory slot).latest memory = copies := (updated_latest ..).trans fresh
      refine .succ trivial turn (ih fresh' sized fun fuel => ?_)
      have next := updateChainFrom_succ (queue.updated memory slot) memory head fuel
        (show later < (queue.updated memory slot).size from sized.symm ▸ rest.within)
      rwa [fresh', show (queue.updated memory slot).size = size from sized] at next

theorem updateChainFrom_spins {copies : Nat → VringDesc} (trap : Nat → Prop)
    (closed : ∀ index, trap index → index < queue.size ∧
      ∃ later, links copies index = some later ∧ later ≠ head ∧ trap later)
    (fuel : Nat) (trapped : trap desc) (fresh : queue.latest memory = copies) :
    ∃ run, updateChainFrom memory head fuel queue desc = .outOfFuel run := by
  induction fuel generalizing queue desc with
  | zero => exact ⟨queue, rfl⟩
  | succ fuel ih =>
    obtain ⟨inside, later, onward, other, kept⟩ := closed desc trapped
    rw [updateChainFrom_succ queue memory head fuel inside, fresh, onward]
    simp only [if_pos (closed later kept).1, if_neg other]
    have fresh' : (queue.updated memory desc).latest memory = copies := (updated_latest ..).trans fresh
    exact ih closed kept fresh'

/-- **The chain that is handed out ends**, in the copies that the queue has made. -/
theorem updateChainFrom_ends {after : VirtQueue} (fuel : Nat) (inside : desc < queue.size)
    (done : updateChainFrom memory head fuel queue desc = .done after) :
    after.size = queue.size ∧
      (∀ index, queue.descriptors index = queue.latest memory index →
        after.descriptors index = queue.latest memory index) ∧
      EndsFrom (links after.descriptors) (· < queue.size) desc := by
  induction fuel generalizing queue desc with
  | zero => cases done
  | succ fuel ih =>
    rw [updateChainFrom_succ queue memory head fuel inside] at done
    cases onward : links (queue.latest memory) desc with
    | none =>
      rw [onward] at done
      obtain rfl := Outcome.done.inj done
      refine ⟨rfl, fun index same => ?_, .last inside ?_⟩
      · show (if index = desc then _ else _) = _
        split
        · rename_i here
          rw [here]
        · exact same
      · rw [← onward, links, links, updated_self]
    | some next =>
      rw [onward] at done
      dsimp only at done
      split at done
      · rename_i within
        split at done
        · cases done
        · have within' : next < (queue.updated memory desc).size := within
          obtain ⟨sized, kept, ends⟩ := ih within' done
          rw [updated_latest] at kept
          have own : after.descriptors desc = queue.latest memory desc := kept desc (updated_self ..)
          refine ⟨sized, fun index same => kept index ?_, .step inside ?_ ends⟩
          · show (if index = desc then _ else _) = _
            split
            · rename_i here
              rw [here]
            · exact same
          · rw [← onward, links, links, own]
      · cases done

end Walk

/-! ### What a device does with a chain -/

section Device

variable {queue memory} {this : Nat}

theorem chainSizeFrom_ends (ends : EndsFrom (links queue.descriptors) (· < queue.size) this) :
    ∃ turns, ∀ fuel size, if turns ≤ fuel then ∃ total, queue.chainSizeFrom fuel size this = .done total
      else ∃ part, queue.chainSizeFrom fuel size this = .outOfFuel part := by
  induction ends with
  | last _ none =>
    refine ⟨1, fun fuel size => ?_⟩
    cases fuel with
    | zero => exact ⟨size, rfl⟩
    | succ fuel =>
      rw [chainSizeFrom, next_last queue none, if_pos (show 1 ≤ fuel + 1 by omega)]
      exact ⟨_, rfl⟩
  | step _ onward rest ih =>
    obtain ⟨turns, ih⟩ := ih
    refine ⟨turns + 1, fun fuel size => ?_⟩
    cases fuel with
    | zero => exact ⟨size, rfl⟩
    | succ fuel =>
      simp only [chainSizeFrom, next_some queue onward, if_pos rest.within, Nat.add_le_add_iff_right]
      exact ih fuel _

variable {σ : Type} {access : Nat → Nat → Nat → σ → Except Fault σ} {continues : VringDesc → Bool}

theorem transferFrom_settles (ends : EndsFrom (links queue.descriptors) (· < queue.size) this)
    (orderly : ∀ desc offset chunkSize buffer cause, access desc offset chunkSize buffer = .error cause →
      cause.Orderly) (transfer : Transfer σ) :
    Settles Fault.Orderly fun fuel => queue.transferFrom access continues fuel this transfer := by
  have failed : ∀ desc transfer cause, queue.transferStep access desc transfer = .error cause → cause.Orderly := by
    intro desc transfer cause failed
    unfold transferStep at failed
    dsimp only at failed
    split at failed
    · cases taken : access desc transfer.offset
        (min ((queue.descriptors desc).len - transfer.offset) transfer.size) transfer.buffer with
      | error reason =>
        rw [taken] at failed
        obtain rfl : reason = cause := Except.error.inj failed
        exact orderly _ _ _ _ _ taken
      | ok buffer =>
        rw [taken] at failed
        cases failed
    · cases failed
  have stopped : ∀ slot transfer cause, queue.transferStep access slot transfer = .error cause →
      Settles Fault.Orderly fun fuel => queue.transferFrom access continues fuel slot transfer := by
    intro slot transfer cause stepped
    have turn : ∀ fuel, queue.transferFrom access continues (fuel + 1) slot transfer = .fault cause transfer :=
      fun fuel => by rw [transferFrom, stepped]
    exact .succ trivial turn (.const (failed slot transfer cause stepped))
  induction ends generalizing transfer with
  | @last slot _ none =>
    cases stepped : queue.transferStep access slot transfer with
    | error cause => exact stopped slot transfer cause stepped
    | ok moved =>
      have turn : ∀ fuel, queue.transferFrom access continues (fuel + 1) slot transfer = .done moved :=
        fun fuel => by rw [transferFrom, stepped, next_last queue none]
      exact .succ trivial turn (.const trivial)
  | @step slot later _ onward rest ih =>
    cases stepped : queue.transferStep access slot transfer with
    | error cause => exact stopped slot transfer cause stepped
    | ok moved =>
      have turn : ∀ fuel, queue.transferFrom access continues (fuel + 1) slot transfer =
          if continues (queue.descriptors later) && decide (0 < moved.size) then
            queue.transferFrom access continues fuel later moved
          else .done moved := by
        intro fuel
        simp only [transferFrom, stepped, next_some queue onward, if_pos rest.within]
      by_cases goes : (continues (queue.descriptors later) && decide (0 < moved.size)) = true
      · simp only [if_pos goes] at turn
        exact .succ trivial turn (ih moved)
      · simp only [if_neg goes] at turn
        exact .succ trivial turn (.const trivial)

/-- **A transfer over a chain that ends settles**, with the size of the chain that its panic asks for. -/
theorem transfer_settles (ends : EndsFrom (links queue.descriptors) (· < queue.size) this)
    (orderly : ∀ desc offset chunkSize buffer cause, access desc offset chunkSize buffer = .error cause →
      cause.Orderly) {failed : Nat → Nat → Nat → Fault}
    (panics : ∀ size total offset, (failed size total offset).Orderly) (offset size : Nat) (buffer : σ) :
    Settles Fault.Orderly fun fuel => queue.transfer access continues failed fuel this offset size buffer := by
  obtain ⟨turns, total⟩ := chainSizeFrom_ends ends
  refine .bind (transferFrom_settles ends orderly _) (fun fuel transfer => ?_) ⟨turns, fun fuel ordered transfer => ?_⟩
  · split
    · trivial
    · have sized := total fuel 0
      unfold chainSize
      split at sized
      · obtain ⟨total, sized⟩ := sized
        rw [sized]
        exact panics ..
      · obtain ⟨part, sized⟩ := sized
        rw [sized]
        trivial
  · split
    · trivial
    · obtain ⟨total, sized⟩ := if_pos ordered ▸ total fuel 0
      rw [chainSize, sized]
      exact panics ..

end Device

/-! ### Serving a guest -/

/-- What a device does with a descriptor that it was handed ends, whatever memory holds by then. -/
structure ChainUsable (queue : VirtQueue) (this : Nat) : Prop where
  chainSize : Settles Fault.Orderly fun fuel => queue.chainSize fuel this
  chainRead : ∀ memory offset size, Settles Fault.Orderly fun fuel => queue.chainRead memory fuel this offset size
  chainWrite : ∀ memory offset src, Settles Fault.Orderly fun fuel => queue.chainWrite memory fuel this offset src

/-- The guest is served safely: `consumeDescriptor` settles, and so does everything on what it returns. -/
structure Consumes (memory : GuestMemory) (queue : VirtQueue) : Prop where
  settles : Settles Fault.Orderly (queue.consumeDescriptor memory)
  usable : ∀ fuel after this, queue.consumeDescriptor memory fuel = .done (after, some this) → ChainUsable after this

/-- The descriptor that the available ring has next. -/
def ringEntry : Nat :=
  (queue.readAvail memory).availRing.getD (queue.lastAvail % queue.size) 0

/-- What a guest must have written: nothing new; or the index of a descriptor of the queue whose chain stays in the
queue and comes to an end, or back to that descriptor. -/
def WellFormedChain : Prop :=
  (queue.readAvail memory).availIndex = queue.lastAvail ∨
    0 < queue.size ∧ StopsFrom (links (queue.latest memory)) (· < queue.size) (queue.ringEntry memory)
      (queue.ringEntry memory)

section Consume

variable {queue memory}

theorem read_orderly {index offset size : Nat} {cause : Fault}
    (failed : queue.read memory index offset size = .error cause) : cause.Orderly := by
  unfold read at failed
  dsimp only at failed
  split at failed
  · obtain rfl := Except.error.inj failed
    rfl
  · split at failed
    · obtain rfl := Except.error.inj failed
      rfl
    · cases failed

theorem write_orderly {index offset : Nat} {src : List UInt8} {cause : Fault}
    (failed : queue.write memory index offset src = .error cause) : cause.Orderly := by
  unfold write at failed
  dsimp only at failed
  split at failed
  · obtain rfl := Except.error.inj failed
    rfl
  · split at failed
    · obtain rfl := Except.error.inj failed
      rfl
    · cases failed

theorem map_error {ε α β : Type} {result : Except ε α} {f : α → β} {cause : ε}
    (failed : result.map f = .error cause) : result = .error cause := by
  cases result with
  | error reason => exact congrArg Except.error (Except.error.inj failed)
  | ok value => cases failed

theorem chainUsable_of_ends {this : Nat} (ends : EndsFrom (links queue.descriptors) (· < queue.size) this) :
    ChainUsable queue this where
  chainSize := by
    obtain ⟨turns, total⟩ := chainSizeFrom_ends ends
    refine ⟨fun fuel => ?_, turns, fun fuel ordered => ?_⟩
    · have sized := total fuel 0
      split at sized
      · obtain ⟨total, sized⟩ := sized
        rw [chainSize, sized]
        trivial
      · obtain ⟨part, sized⟩ := sized
        rw [chainSize, sized]
        trivial
    · obtain ⟨total, sized⟩ := if_pos ordered ▸ total fuel 0
      rw [chainSize, sized]
      trivial
  chainRead memory offset size := transfer_settles ends
    (fun _ _ _ _ _ failed => read_orderly (map_error failed)) (fun _ _ _ => rfl) offset size []
  chainWrite memory offset src := transfer_settles ends
    (fun _ _ _ _ _ failed => write_orderly (map_error failed)) (fun _ _ _ => rfl) offset src.length (memory, src)

/-- The queue as `consumeDescriptor` walks over the chain. -/
def entered (queue : VirtQueue) (memory : GuestMemory) : VirtQueue :=
  { queue.readAvail memory with lastAvail := (queue.lastAvail + 1) % 2 ^ 16 }

theorem consumeDescriptor_eq (fuel : Nat) : queue.consumeDescriptor memory fuel =
    if queue.availBase = 0 then .fault .assertion (queue, none)
    else if queue.lastAvail = (queue.readAvail memory).availIndex then .done (queue.readAvail memory, none)
    else if queue.size = 0 then .fault .divisionByZero (queue.readAvail memory, none)
    else if queue.ringEntry memory < queue.size then
      (updateChainFrom memory (queue.ringEntry memory) fuel (queue.entered memory) (queue.ringEntry memory)).map id
        fun after => (after, some (queue.ringEntry memory))
    else .fault (.outOfBounds (queue.ringEntry memory)) (queue.entered memory, none) := by
  have found : (queue.entered memory).getDescriptor (queue.ringEntry memory) =
      if queue.ringEntry memory < queue.size then .ok (queue.ringEntry memory)
      else .error (.outOfBounds (queue.ringEntry memory)) := rfl
  by_cases entry : queue.ringEntry memory < queue.size
  · rw [if_pos entry] at found ⊢
    rw [consumeDescriptor]
    dsimp only
    erw [found]
    rfl
  · rw [if_neg entry] at found ⊢
    rw [consumeDescriptor]
    dsimp only
    erw [found]
    rfl

theorem consumes_of_const {outcome : Outcome Fault (VirtQueue × Option Nat)}
    (fixed : ∀ fuel, queue.consumeDescriptor memory fuel = outcome) (orderly : outcome.Within Fault.Orderly False)
    (none : ∀ after this, outcome ≠ .done (after, some this)) : Consumes memory queue := by
  refine ⟨?_, fun fuel after this done => absurd ((fixed fuel).symm.trans done) (none after this)⟩
  rw [show queue.consumeDescriptor memory = fun _ => outcome from funext fixed]
  exact .const orderly

/-- **A guest is served safely exactly if its chain is well formed**, or the queue has no address yet. -/
theorem consumes_iff (memory : GuestMemory) (queue : VirtQueue) :
    Consumes memory queue ↔ queue.availBase = 0 ∨ queue.WellFormedChain memory := by
  constructor
  · rintro ⟨⟨-, enough, ends⟩, -⟩
    have orderly := ends enough (Nat.le_refl _)
    rw [consumeDescriptor_eq] at orderly
    split at orderly
    · exact Or.inl ‹_›
    split at orderly
    · rename_i same
      exact Or.inr (Or.inl same.symm)
    split at orderly
    · cases orderly
    split at orderly
    · rename_i positive entry
      have stops := updateChainFrom_stops enough (show _ < (queue.entered memory).size from entry)
        ((within_map _ _).mp orderly)
      exact Or.inr (Or.inr ⟨Nat.pos_of_ne_zero positive, stops⟩)
    · cases orderly
  · intro condition
    by_cases unset : queue.availBase = 0
    · exact consumes_of_const (fun fuel => (consumeDescriptor_eq fuel).trans (if_pos unset)) rfl nofun
    by_cases nothing : queue.lastAvail = (queue.readAvail memory).availIndex
    · have fixed : ∀ fuel, queue.consumeDescriptor memory fuel = .done (queue.readAvail memory, none) := fun fuel => by
        rw [consumeDescriptor_eq, if_neg unset, if_pos nothing]
      exact consumes_of_const fixed trivial fun _ _ same => by cases same
    obtain ⟨positive, stops⟩ := (condition.resolve_left unset).resolve_left fun same => nothing same.symm
    have walks : queue.consumeDescriptor memory = fun fuel =>
        (updateChainFrom memory (queue.ringEntry memory) fuel (queue.entered memory) (queue.ringEntry memory)).map id
          fun after => (after, some (queue.ringEntry memory)) := by
      funext fuel
      rw [consumeDescriptor_eq, if_neg unset, if_neg nothing, if_neg (Nat.ne_of_gt positive), if_pos stops.within]
    have settles : Settles Fault.Orderly fun fuel =>
        updateChainFrom memory (queue.ringEntry memory) fuel (queue.entered memory) (queue.ringEntry memory) :=
      updateChainFrom_settles stops.within stops rfl rfl
    refine ⟨walks ▸ settles.map _, fun fuel after this done => ?_⟩
    simp only [walks] at done
    obtain ⟨walked, finished⟩ := map_eq_done done
    obtain ⟨rfl, rfl⟩ : walked = after ∧ queue.ringEntry memory = this := by
      rw [finished] at done
      simpa [Outcome.map] using done
    obtain ⟨sized, -, ends⟩ := updateChainFrom_ends fuel (show _ < (queue.entered memory).size from stops.within) finished
    exact chainUsable_of_ends (sized ▸ ends)

end Consume

/-! ### A guest that is not served -/

/-- Two descriptors at 4096: the first leads to the second, the second to itself. The ring has the first. -/
def tailCycle : GuestMemory := fun addr =>
  ([0, 0, 0, 0, 0, 0, 0, 0, 0, 0, 0, 0, 1, 0, 1, 0, 0, 0, 0, 0, 0, 0, 0, 0, 0, 0, 0, 0, 1, 0, 1, 0,
    0, 0, 1, 0, 0, 0, 0, 0] : List UInt8).getD (addr - 4096) 0

/-- **A chain that runs into itself behind its head** keeps `updateChain` going for ever. -/
theorem tail_cycle_spins :
    (∀ fuel, ∃ run, ((make .little 2).setAddress 4096).consumeDescriptor tailCycle fuel = .outOfFuel run) ∧
      ¬Consumes tailCycle ((make .little 2).setAddress 4096) := by
  have spins : ∀ fuel, ∃ run, ((make .little 2).setAddress 4096).consumeDescriptor tailCycle fuel = .outOfFuel run := by
    intro fuel
    have entry : ((make .little 2).setAddress 4096).ringEntry tailCycle = 0 := by decide
    rw [consumeDescriptor_eq, if_neg (by decide), if_neg (by decide), if_neg (by decide), entry, if_pos (by decide)]
    have closed : ∀ index, index < 2 → index < 2 ∧ ∃ later,
        links (((make .little 2).setAddress 4096).latest tailCycle) index = some later ∧ later ≠ 0 ∧ later < 2 := by
      intro index small
      obtain rfl | rfl : index = 0 ∨ index = 1 := by omega
      · exact ⟨small, 1, by decide, by decide, by decide⟩
      · exact ⟨small, 1, by decide, by decide, by decide⟩
    obtain ⟨run, spun⟩ : ∃ run, updateChainFrom tailCycle 0 fuel
        (((make .little 2).setAddress 4096).entered tailCycle) 0 = .outOfFuel run :=
      updateChainFrom_spins (· < 2) closed fuel (by decide) rfl
    rw [spun]
    exact ⟨_, rfl⟩
  refine ⟨spins, fun served => ?_⟩
  obtain ⟨enough, ends⟩ := served.settles.ends
  obtain ⟨run, spun⟩ := spins enough
  have ended := ends enough (Nat.le_refl _)
  rw [spun] at ended
  exact ended

end VirtQueue

end Emas.Gem5

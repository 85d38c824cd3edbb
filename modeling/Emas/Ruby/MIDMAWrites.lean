/-
**Which DMA writes leave the right line in the memory.**

The directory queues a partial write of the memory for a DMA write: of the first bytes of the DMA data, at the address of
the line, and without the data that the owner of the line has given back.

* `MISystem.dma_write_exact_iff` — **in every run, for every DMA write that the directory takes up**: when it is done, the
  memory has the line with just these bytes replaced exactly if the line is such a one.
-/

import Emas.Ruby.MICoherence

namespace Emas.Ruby

variable {ι κ : Type} {blockSize : Nat}

/-! ### One write -/

theorem DataBlock.overwrite_bytes (memory block : DataBlock) (len i : Nat) :
    memory.overwrite (block.bytes 0 len) 0 len i = if i < len then block i else memory i := by
  rw [overwrite]
  by_cases inside : i < len
  · rw [if_pos ⟨Nat.zero_le i, by omega⟩, if_pos inside, bytes, List.getD_eq_getElem?_getD, List.getElem?_map,
      List.getElem?_range (by omega)]
    simp
  · rw [if_neg (by omega), if_neg inside]

namespace DMAWrite

variable (write : DMAWrite) (blockSize : Nat) (memory : DataBlock)

/-- The memory has what the line held, with the bytes from the physical address on replaced. -/
def Exact : Prop :=
  ∀ i < blockSize, memory i =
    if write.physicalAddress ≤ i ∧ i < write.physicalAddress + write.len then write.dataBlk i else write.contents i

/-- The line is clear in front of the written part, as far as the write is long; behind that, the memory has the DMA data
already, and is up to date. -/
structure Lands : Prop where
  before : ∀ i < write.len, i < write.physicalAddress → write.contents i = 0
  inside : ∀ i < write.physicalAddress + write.len, write.physicalAddress ≤ i → write.len ≤ i →
    memory i = write.dataBlk i
  outside : ∀ i < blockSize, write.len ≤ i → ¬ (write.physicalAddress ≤ i ∧ i < write.physicalAddress + write.len) →
    memory i = write.contents i

variable {write blockSize memory}

/-- **Where the first bytes of the DMA data at the address of the line are right.** -/
theorem exact_iff_lands (inLine : InLine blockSize write.physicalAddress write.len write.dataBlk) :
    write.Exact blockSize (memory.overwrite (write.dataBlk.bytes 0 write.len) 0 write.len) ↔
      write.Lands blockSize memory := by
  obtain ⟨fits, clear⟩ := inLine
  constructor
  · intro exact
    refine ⟨fun i short front => ?_, fun i within behind long => ?_, fun i within long apart => ?_⟩
    · have here := exact i (by omega)
      rw [DataBlock.overwrite_bytes, if_pos short, if_neg (by omega), clear i (by omega)] at here
      exact here.symm
    · have here := exact i (by omega)
      rwa [DataBlock.overwrite_bytes, if_neg (by omega), if_pos ⟨behind, within⟩] at here
    · have here := exact i within
      rwa [DataBlock.overwrite_bytes, if_neg (by omega), if_neg apart] at here
  · intro lands i within
    rw [DataBlock.overwrite_bytes]
    by_cases short : i < write.len
    · rw [if_pos short]
      split
      · rfl
      next apart => rw [lands.before i short (by omega), clear i apart]
    · rw [if_neg short]
      split
      next covered => exact lands.inside i covered.2 covered.1 (by omega)
      next apart => exact lands.outside i within (by omega) apart

end DMAWrite

/-! ### Runs -/

namespace MISystem

variable [DecidableEq ι] [DecidableEq κ]

/-- Once the directory is idle again, it takes up nothing else. -/
def Settles (s : MISystem ι κ) (action : MIAction ι κ blockSize) : Prop := s.dir.getState = .I → action.kind ≠ .request

end MISystem

namespace Coherent

variable [DecidableEq ι] [DecidableEq κ] {s next : MISystem ι κ} {current : DataBlock} {phase : ι → Phase ι}
  {dirPhase : DirectoryPhase ι κ} {dmaPhase : κ → DMAPhase} {action : MIAction ι κ blockSize} {write : DMAWrite}

theorem acted (coh : Coherent blockSize s current phase dirPhase dmaPhase) (ordered : action.InOrder)
    (taken : s.act action = some next) :
    ∃ callbacks current' phase' dirPhase' dmaPhase', Coherent blockSize next current' phase' dirPhase' dmaPhase' ∧
      Effect (s.overwritten action) action.kind current phase dirPhase dmaPhase callbacks current' phase' dirPhase'
        dmaPhase' := by
  have handled : s.Handled action := by
    by_contra unhandled
    rw [MISystem.act, MISystem.step_unhandled unhandled] at taken
    cases taken
  obtain ⟨next', callbacks, current', phase', dirPhase', dmaPhase', done, kept, effect⟩ := coh.step (.inl ordered) handled
  rw [MISystem.act, done] at taken
  obtain rfl := Option.some.inj taken
  exact ⟨callbacks, current', phase', dirPhase', dmaPhase', kept, effect⟩

theorem taken_inLine (coh : Coherent blockSize s current phase dirPhase dmaPhase)
    (takes : s.takenWrite action = some write) : InLine blockSize write.physicalAddress write.len write.dataBlk := by
  have state := coh.dir.state
  cases action with
  | dmaRequestQueue version i =>
    rw [MISystem.takenWrite] at takes
    split at takes
    next message idle found =>
      split at takes
      · obtain rfl := Option.some.inj takes
        have dma := coh.dmas version
        cases is : dmaPhase version with
        | asking write =>
          obtain ⟨-, offset, data, len, inLine, messages⟩ := coh.asking_facts is
          rw [messages] at found
          obtain rfl := List.mem_singleton.mp (List.mem_of_getElem? found)
          exact inLine
        | ready =>
          rw [is] at dma
          rw [dma] at found
          cases found
        | served | answered =>
          rw [is] at dma
          rw [dma.2.1] at found
          cases found
      · cases takes
    · cases takes
  | requestQueue version i =>
    rw [MISystem.takenWrite] at takes
    split at takes
    next tbe message busy found _ =>
      split at takes
      · obtain rfl := Option.some.inj takes
        have fits := coh.dir
        rw [state] at busy
        cases dirPhase with
        | invalidating o k write =>
          obtain ⟨tbe', ⟨-, inLine⟩, dir⟩ := fits
          rw [dir] at found
          obtain rfl := Option.some.inj found
          exact inLine
        | writing version back => cases back <;> cases busy
        | _ => cases busy
      · cases takes
    · cases takes
  | _ => cases takes

theorem settled (coh : Coherent blockSize s current phase dirPhase dmaPhase) (settling : dirPhase.Settling)
    (ordered : action.InOrder) (settles : s.Settles action) (taken : s.act action = some next) :
    ∃ phase' dirPhase' dmaPhase', Coherent blockSize next current phase' dirPhase' dmaPhase' ∧ dirPhase'.Settling := by
  obtain ⟨callbacks, current', phase', dirPhase', dmaPhase', kept, effect⟩ := coh.acted ordered taken
  have state := coh.dir.state
  have free : dirPhase.role.owner? = none ∧ dirPhase.state ≠ .M_DWR := by
    cases dirPhase with
    | idle | dmaWriting => exact ⟨rfl, nofun⟩
    | writing version back =>
      cases back with
      | written => exact ⟨rfl, nofun⟩
      | _ => exact settling.elim
    | _ => exact settling.elim
  have silent : callbacks = [] := by
    by_contra some
    exact effect.owned some free.1
  have idle (request : action.kind = .request) : dirPhase ≠ .idle := by
    rintro rfl
    exact settles state request
  have unwritten : s.overwritten action = none := by
    cases action with
    | requestQueue version i =>
      exact MISystem.overwritten_request fun found => absurd (state.symm.trans found) free.2
    | dmaRequestQueue version i => exact MISystem.overwritten_dma fun found => absurd rfl (settles found)
    | _ => rfl
  have same : current' = current := by rw [effect.current, unwritten, silent]; rfl
  exact ⟨phase', dirPhase', dmaPhase', same ▸ kept, effect.settles settling idle⟩

variable {actions : List (MIAction ι κ blockSize)} {last : MISystem ι κ}

theorem reaches (coh : Coherent blockSize s current phase dirPhase dmaPhase)
    (ordered : ∀ action ∈ actions, action.InOrder) (run : tryActions MISystem.act s actions = some last) :
    ∃ current' phase' dirPhase' dmaPhase', Coherent blockSize last current' phase' dirPhase' dmaPhase' := by
  refine MeetAll.invariant (fun s => ∃ current phase dirPhase dmaPhase, Coherent blockSize s current phase dirPhase dmaPhase)
    ?_ (MeetAll.of_forall (fun other member _ => ordered other member) s) run ⟨current, phase, dirPhase, dmaPhase, coh⟩
  rintro s action next inOrder taken ⟨current, phase, dirPhase, dmaPhase, coh⟩
  obtain ⟨-, current', phase', dirPhase', dmaPhase', kept, -⟩ := coh.acted inOrder taken
  exact ⟨current', phase', dirPhase', dmaPhase', kept⟩

theorem settles_run (coh : Coherent blockSize s current phase dirPhase dmaPhase) (settling : dirPhase.Settling)
    (ordered : ∀ action ∈ actions, action.InOrder) (settles : MeetAll MISystem.act MISystem.Settles s actions)
    (run : tryActions MISystem.act s actions = some last) :
    ∃ phase' dirPhase' dmaPhase', Coherent blockSize last current phase' dirPhase' dmaPhase' ∧ dirPhase'.Settling := by
  refine MeetAll.invariant
    (fun s => ∃ phase dirPhase dmaPhase, Coherent blockSize s current phase dirPhase dmaPhase ∧ dirPhase.Settling)
    ?_ (settles.and (MeetAll.of_forall (fun other member _ => ordered other member) s)) run ⟨phase, dirPhase, dmaPhase, coh, settling⟩
  rintro s action next ⟨settles, inOrder⟩ taken ⟨phase, dirPhase, dmaPhase, coh, settling⟩
  exact coh.settled settling inOrder settles taken

end Coherent

namespace MISystem

variable [DecidableEq ι] [DecidableEq κ]

/-- **A DMA write is exact if and only if the line is one that it lands in.** The directory takes it up in any state that a
run reaches, for a line that is not cached or with the data that the owner gives back; it is done when the directory is
idle again. -/
theorem dma_write_exact_iff (memory : DataBlock) (before : List (MIAction ι κ blockSize))
    (action : MIAction ι κ blockSize) (after : List (MIAction ι κ blockSize)) {s next last : MISystem ι κ} {write : DMAWrite}
    (ordered : ∀ other ∈ before ++ action :: after, other.InOrder)
    (reached : tryActions act (MISystem.init memory) before = some s) (takes : s.takenWrite action = some write)
    (taken : s.act action = some next) (settles : MeetAll act Settles next after)
    (done : tryActions act next after = some last) (acked : last.dir.getState = .I) :
    write.Exact blockSize last.memory ↔ write.Lands blockSize s.memory := by
  obtain ⟨current, phase, dirPhase, dmaPhase, coh⟩ :=
    (Coherent.init memory).reaches (fun other member => ordered other (List.mem_append_left _ member)) reached
  have inLine := coh.taken_inLine takes
  obtain ⟨callbacks, current', phase', dirPhase', dmaPhase', kept, effect⟩ :=
    coh.acted (ordered action (List.mem_append_right _ (List.mem_cons_self ..))) taken
  have written : s.overwritten action = some (s.memory.overwrite (write.dataBlk.bytes 0 write.len) 0 write.len) := by
    rw [overwritten, takes]
    rfl
  have left : current' = s.memory.overwrite (write.dataBlk.bytes 0 write.len) 0 write.len := by
    rw [effect.current, written]
    rfl
  obtain ⟨phase'', dirPhase'', dmaPhase'', finished, settling⟩ :=
    kept.settles_run (effect.takes (by simp [written]))
      (fun other member => ordered other (List.mem_append_right _ (.tail _ member))) settles done
  have there : last.memory = current' := by
    have state := finished.dir.state.symm.trans acked
    have memory := finished.memory
    cases dirPhase'' with
    | idle => exact memory.1
    | writing version back => cases back <;> cases state
    | dmaWriting => cases state
    | _ => exact settling.elim
  rw [there, left]
  exact DMAWrite.exact_iff_lands inLine

/-- The memory answers, and the DMA controller gets the acknowledgement. -/
def finish : List (MIAction Bool Unit 64) := [.memory 0, .memQueue 0, .dmaResponseQueue () 0]

theorem finish_settles (s : MISystem Bool Unit) : MeetAll act Settles s finish :=
  .of_forall (by simp [finish, Settles, MIAction.kind]) s

/-- A byte of a line that is not cached is written. -/
def writeByte (place : Fin 64) : List (MIAction Bool Unit 64) := [.dmaRequest () true place 1 [7]]

theorem dma_write_exact_iff_first :
    ∃ s next last : MISystem Bool Unit, ∃ write : DMAWrite,
      tryActions act (MISystem.init fun _ => 5) (writeByte 0) = some s ∧
        s.takenWrite (.dmaRequestQueue () 0 : MIAction Bool Unit 64) = some write ∧
          s.act (.dmaRequestQueue () 0 : MIAction Bool Unit 64) = some next ∧ tryActions act next finish = some last ∧
            write.Exact 64 last.memory := by
  have ordered : ∀ other ∈ writeByte 0 ++ .dmaRequestQueue () 0 :: finish, other.InOrder := by
    simp [writeByte, finish, MIAction.InOrder]
  refine ⟨_, _, _, _, rfl, rfl, rfl, rfl, ?_⟩
  exact (dma_write_exact_iff (fun _ => 5) (writeByte 0) (.dmaRequestQueue () 0) finish ordered rfl rfl rfl
    (finish_settles _) rfl rfl).mpr ⟨by decide, by decide, by decide⟩

/-- A run in which a DMA write leaves another line in the memory. -/
def Misses (memory : DataBlock) (before : List (MIAction Bool Unit 64)) (action : MIAction Bool Unit 64)
    (after : List (MIAction Bool Unit 64)) : Prop :=
  (∀ other ∈ before ++ action :: after, other.InOrder) ∧
    ∃ s next last : MISystem Bool Unit, ∃ write : DMAWrite, tryActions act (MISystem.init memory) before = some s ∧
      s.takenWrite action = some write ∧ s.act action = some next ∧ MeetAll act Settles next after ∧
        tryActions act next after = some last ∧ last.dir.getState = .I ∧ ¬ write.Exact 64 last.memory

/-- A byte of a line is written that the first cache has stored to. -/
def writeDirty (place : Fin 64) : List (MIAction Bool Unit 64) :=
  [.store false fun _ _ => 9, .requestQueue false 0, .memory 0, .memQueue 0, .responseNetwork false 0 fun _ _ => 9,
    .dmaRequest () true place 1 [7], .dmaRequestQueue () 0, .forwardRequestNetwork false 0]

/-- The byte goes to another place, or what the cache has stored is lost. -/
theorem dma_write_not_exact :
    Misses (fun _ => 5) (writeByte 1) (.dmaRequestQueue () 0) finish ∧
      Misses (fun _ => 5) (writeDirty 0) (.requestQueue false 0) finish :=
  ⟨⟨by simp [writeByte, finish, MIAction.InOrder], _, _, _, _, rfl, rfl, rfl,
      (finish_settles _), rfl, rfl, fun exact => absurd (exact 0 (by decide)) (by decide)⟩,
    by simp [writeDirty, finish, MIAction.InOrder], _, _, _, _, rfl, rfl, rfl,
      (finish_settles _), rfl, rfl, fun exact => absurd (exact 1 (by decide)) (by decide)⟩

end MISystem

end Emas.Ruby

/-
**Restarted writes of Flip-N-Write.**

A cancelled or paused write comes back to the subarray as the same request, and `FlipNWrite::Write` runs on it once
more: on `request->data` and `request->oldData` as the first run left them, and with the partitions that it marked.

* `invertAll_invertAll`: with partitions of whole bytes, **the second run takes the inversion back**, and keeps the marks.
-/

import Emas.Nvmain.FlipNWrite

namespace Emas.Nvmain

open Table

/-! ### Writes and restarts -/

/-- What `Write` reads and writes: `request->oldData`, `request->data` and the marks. -/
structure EncodedWrite where
  oldData : DataWord
  data : DataWord
  flippedAddresses : Nat → Bool

namespace EncodedWrite

variable (params : FlipParams) (row col : Nat) (state : EncodedWrite)

/-- What the write takes for the data in the memory. -/
def found : DataWord := inMemory params state.flippedAddresses row col state.oldData

/-- `Write`, with all that it leaves behind. -/
def write : EncodedWrite :=
  let (data, flippedAddresses) := flipWrite params state.flippedAddresses row col state.oldData state.data
  ⟨state.found params row col, data, flippedAddresses⟩

/-- More than half of the bits of the partition are modified. -/
def flips (i : Nat) : Bool := modifyCount params (state.found params row col) state.data i > params.fpSize / 2

/-- A second run leaves the data and the marks as they are. -/
def Idempotent : Prop :=
  ((state.write params row col).write params row col).data = (state.write params row col).data ∧
    ((state.write params row col).write params row col).flippedAddresses = (state.write params row col).flippedAddresses

end EncodedWrite

/-- `InvertData` maps the bytes of the partition to themselves, and clears no bits around them. -/
def SelfInverse (params : FlipParams) (data : DataWord) (i : Nat) : Prop :=
  8 ∣ params.fpSize ∧ ∀ k, k * 8 / params.fpSize = i → ∀ j < 8, (data k).getLsbD (7 - j) = !(data k).getLsbD j

/-- Each partition that the first run inverts consists of bytes that `InvertData` maps to themselves. -/
def Restartable (params : FlipParams) (row col : Nat) (state : EncodedWrite) : Prop :=
  ∀ i < params.flipPartitions, state.flips params row col i = true → SelfInverse params state.data i

/-! ### Inverting twice -/

theorem mirror_partition {params : FlipParams} (whole : 8 ∣ params.fpSize) (b : Nat) :
    mirror b / params.fpSize = b / params.fpSize := by
  obtain ⟨bytes, size⟩ := whole
  rw [size, ← Nat.div_div_eq_div_mul, ← Nat.div_div_eq_div_mul]
  congr 1
  unfold mirror
  omega

theorem DataWord.ext {word word' : DataWord} (same : ∀ b, word.bit b = word'.bit b) : word = word' := by
  funext k
  refine BitVec.eq_of_getLsbD_eq fun j small => ?_
  have bit := same (8 * k + j)
  unfold DataWord.bit at bit
  rwa [show (8 * k + j) / 8 = k by omega, show (8 * k + j) % 8 = j by omega] at bit

/-- The inversions of a loop over partitions. -/
def invertAll (params : FlipParams) (flips : Nat → Bool) (n : Nat) (data : DataWord) : DataWord :=
  (List.range n).foldl (fun data i =>
    if flips i then invertData data (i * params.fpSize) ((i + 1) * params.fpSize) else data) data

section Whole

variable {params : FlipParams} {flips : Nat → Bool} {data : DataWord} {n : Nat}

theorem bit_invertAll (whole : 8 ∣ params.fpSize) (b : Nat) : (invertAll params flips n data).bit b =
    if b / params.fpSize < n ∧ flips (b / params.fpSize) = true then !data.bit (mirror b) else data.bit b := by
  induction n generalizing b with
  | zero => rw [if_neg fun both => absurd both.1 (Nat.not_lt_zero _)]; rfl
  | succ n ih =>
    unfold invertAll at ih ⊢
    rw [List.range_succ, List.foldl_append, List.foldl_cons, List.foldl_nil]
    split
    · rename_i flip
      rw [bit_invertData whole]
      split
      · rename_i here
        rw [ih, mirror_partition whole, if_neg (by omega), if_pos ⟨by omega, here ▸ flip⟩]
      · rename_i away
        rw [ih]
        exact if_congr ⟨fun ⟨below, flip⟩ => ⟨by omega, flip⟩, fun ⟨below, flip⟩ => ⟨by omega, flip⟩⟩ rfl rfl
    · rename_i plain
      rw [ih]
      refine if_congr ⟨fun ⟨below, flip⟩ => ⟨by omega, flip⟩, fun ⟨below, flip⟩ => ⟨?_, flip⟩⟩ rfl rfl
      exact Nat.lt_of_le_of_ne (Nat.le_of_lt_succ below) fun here => plain (here ▸ flip)

theorem invertAll_invertAll (whole : 8 ∣ params.fpSize) :
    invertAll params flips n (invertAll params flips n data) = data := by
  refine DataWord.ext fun b => ?_
  rw [bit_invertAll whole, bit_invertAll whole, bit_invertAll whole, mirror_partition whole, mirror_mirror]
  split
  · exact Bool.not_not _
  · rfl

theorem length_filter_mirror {bits : Nat} (whole : 8 ∣ bits) (p : Nat → Bool) :
    ((List.range bits).filter fun b => p (mirror b)).length = ((List.range bits).filter p).length := by
  have inside : ∀ b < bits, mirror b < bits := by
    intro b small
    obtain ⟨bytes, rfl⟩ := whole
    unfold mirror
    omega
  have turned : ((List.range bits).map mirror).Perm (List.range bits) := by
    refine (List.perm_ext_iff_of_nodup (List.nodup_range.map fun b b' same => ?_) List.nodup_range).mpr fun b => ?_
    · rw [← mirror_mirror b, same, mirror_mirror]
    · simp only [List.mem_map, List.mem_range]
      exact ⟨fun ⟨b', small, same⟩ => same ▸ inside b' small, fun small => ⟨mirror b, inside b small, mirror_mirror b⟩⟩
  rw [← (turned.filter p).length_eq, List.filter_map, List.length_map]
  rfl

theorem changedCells_invertAll (whole : 8 ∣ params.fpSize) (before after : DataWord) (i : Nat) :
    changedCells params (invertAll params flips n before) (invertAll params flips n after) i =
      changedCells params before after i := by
  by_cases flipped : i < n ∧ flips i = true
  · have cells : ∀ b < params.fpSize, ∀ word, (invertAll params flips n word).bit (i * params.fpSize + b) =
        !word.bit (i * params.fpSize + mirror b) := by
      intro b small word
      rw [bit_invertAll whole, partition_of_add small, if_pos flipped]
      obtain ⟨bytes, size⟩ := whole
      have start : i * params.fpSize = 8 * (i * bytes) := by rw [size]; ring
      congr 2
      rw [start]
      unfold mirror
      omega
    have counted := length_filter_mirror whole fun b =>
      before.bit (i * params.fpSize + b) != after.bit (i * params.fpSize + b)
    refine Eq.trans (congrArg List.length (List.filter_congr fun b member => ?_)) counted
    have small := List.mem_range.mp member
    rw [cells b small, cells b small, Bool.not_bne_not]
  · refine changedCells_congr ?_ ?_ <;>
    · intro b here
      rw [bit_invertAll whole, here, if_neg flipped]

end Whole

/-! ### What a write leaves -/

section Write

variable {params : FlipParams} {row col : Nat} {state : EncodedWrite} {flips flips' : Nat → Bool} {data : DataWord}
  {n : Nat}

theorem invertAll_congr (same : ∀ i < n, flips' i = flips i) :
    invertAll params flips' n data = invertAll params flips n data := by
  unfold invertAll
  refine List.foldl_ext _ _ _ fun data i member => ?_
  rw [same i (List.mem_range.mp member)]

theorem invertAll_none (none : ∀ i < n, flips i = false) : invertAll params flips n data = data := by
  unfold invertAll
  refine List.foldlRecOn (motive := fun after : DataWord => after = data) _ _ rfl fun after same i member => ?_
  rw [none i (List.mem_range.mp member)]
  exact same

theorem write_data : (state.write params row col).data =
    invertAll params (state.flips params row col) params.flipPartitions state.data :=
  congrArg Prod.fst (flipPartitions_eq _ _ _)

theorem write_found : (state.write params row col).found params row col =
    invertAll params (fun i => (state.write params row col).flippedAddresses (params.curAddr row col i))
      params.flipPartitions (state.found params row col) := rfl

variable (params row col state) in
theorem write_marks : (∀ i < params.flipPartitions,
      (state.write params row col).flippedAddresses (params.curAddr row col i) = state.flips params row col i) ∧
    ∀ addr, (∀ i < params.flipPartitions, addr ≠ params.curAddr row col i) →
      (state.write params row col).flippedAddresses addr = state.flippedAddresses addr := by
  have marks : (state.write params row col).flippedAddresses = (List.range params.flipPartitions).foldl
      (fun flipped i => set1 flipped (params.curAddr row col i) (state.flips params row col i))
      state.flippedAddresses := congrArg Prod.snd (flipPartitions_eq _ _ _)
  rw [marks]
  refine foldl_set1_apply _ _ _ (fun i _ j _ same => ?_) _
  unfold FlipParams.curAddr at same
  omega

theorem write_found_eq : (state.write params row col).found params row col =
    invertAll params (state.flips params row col) params.flipPartitions (state.found params row col) := by
  rw [write_found]
  exact invertAll_congr (write_marks params row col state).1

theorem idempotent_iff_of_flips (again : ∀ i < params.flipPartitions,
      (state.write params row col).flips params row col i = state.flips params row col i) :
    state.Idempotent params row col ↔ invertAll params (state.flips params row col) params.flipPartitions
          (invertAll params (state.flips params row col) params.flipPartitions state.data) =
        invertAll params (state.flips params row col) params.flipPartitions state.data := by
  unfold EncodedWrite.Idempotent
  have marks : ((state.write params row col).write params row col).flippedAddresses =
      (state.write params row col).flippedAddresses := by
    funext addr
    by_cases own : ∃ i < params.flipPartitions, addr = params.curAddr row col i
    · obtain ⟨i, partition, rfl⟩ := own
      rw [(write_marks params row col (state.write params row col)).1 i partition,
        (write_marks params row col state).1 i partition, again i partition]
    · exact (write_marks params row col (state.write params row col)).2 addr fun i partition same =>
        own ⟨i, partition, same⟩
  rw [write_data, invertAll_congr again, write_data]
  exact and_iff_left marks

end Write

/-! ### Partitions of whole bytes -/

section Bytes

variable {params : FlipParams} {row col : Nat} {state : EncodedWrite}

/-- **The second run inverts the same partitions**: what it compares differs in as many cells. -/
theorem flips_write (whole : 8 ∣ params.fpSize) {i : Nat} (partition : i < params.flipPartitions) :
    (state.write params row col).flips params row col i = state.flips params row col i := by
  unfold EncodedWrite.flips
  rw [modifyCount_eq partition, modifyCount_eq partition, write_found_eq, write_data, changedCells_invertAll whole]

theorem selfInverse_iff (whole : 8 ∣ params.fpSize) (data : DataWord) (i : Nat) :
    SelfInverse params data i ↔ ∀ b, b / params.fpSize = i → data.bit b = !data.bit (mirror b) := by
  have byte : ∀ b, b / 8 * 8 / params.fpSize = b / params.fpSize := by
    intro b
    obtain ⟨bytes, size⟩ := whole
    rw [size, ← Nat.div_div_eq_div_mul, ← Nat.div_div_eq_div_mul, Nat.mul_div_cancel _ (by decide)]
  have other : ∀ b, data.bit (mirror b) = (data (b / 8)).getLsbD (7 - b % 8) := by
    intro b
    unfold DataWord.bit mirror
    rw [show (b / 8 * 8 + (7 - b % 8)) / 8 = b / 8 by omega, show (b / 8 * 8 + (7 - b % 8)) % 8 = 7 - b % 8 by omega]
  constructor
  · rintro ⟨-, inverse⟩ b here
    rw [other, inverse (b / 8) ((byte b).trans here) (b % 8) (Nat.mod_lt _ (by decide)), Bool.not_not]
    rfl
  · refine fun inverse => ⟨whole, fun k here j small => ?_⟩
    have place : (8 * k + j) / params.fpSize = i := by
      rw [← byte, show (8 * k + j) / 8 * 8 = k * 8 by omega, here]
    have bit := inverse (8 * k + j) place
    rw [other] at bit
    unfold DataWord.bit at bit
    rw [show (8 * k + j) / 8 = k by omega, show (8 * k + j) % 8 = j by omega] at bit
    rw [bit, Bool.not_not]

theorem idempotent_iff (whole : 8 ∣ params.fpSize) :
    state.Idempotent params row col ↔ Restartable params row col state := by
  rw [idempotent_iff_of_flips fun i partition => flips_write whole partition, invertAll_invertAll whole]
  constructor
  · intro same i partition flip
    refine (selfInverse_iff whole _ _).mpr fun b here => ?_
    have bit : state.data.bit b =
        (invertAll params (state.flips params row col) params.flipPartitions state.data).bit b :=
      congrArg (DataWord.bit · b) same
    rwa [bit_invertAll whole, here, if_pos ⟨partition, flip⟩] at bit
  · intro restartable
    refine DataWord.ext fun b => ?_
    rw [bit_invertAll whole]
    split
    · rename_i flip
      exact (selfInverse_iff whole _ _).mp (restartable _ flip.1 flip.2) b rfl
    · rfl

end Bytes

/-! ### Several partitions to a byte -/

section Nibbles

variable {params : FlipParams} {row col : Nat} {state : EncodedWrite} {flips : Nat → Bool} {n : Nat}

theorem parts_of_byte {fpSize : Nat} (part : fpSize ∣ 8) (several : fpSize ≠ 8) :
    fpSize = 1 ∨ fpSize = 2 ∨ fpSize = 4 := by
  have divisors : ∀ fpSize ≤ 8, fpSize ∣ 8 → fpSize ≠ 8 → fpSize = 1 ∨ fpSize = 2 ∨ fpSize = 4 := by decide
  exact divisors fpSize (Nat.le_of_dvd (by decide) part) part several

theorem mirror_partition_ne (part : params.fpSize ∣ 8) (several : params.fpSize ≠ 8) (b : Nat) :
    mirror b / params.fpSize ≠ b / params.fpSize := by
  unfold mirror
  rcases parts_of_byte part several with size | size | size <;>
  · rw [size]
    omega

theorem bit_invertData_part (part : params.fpSize ∣ 8) (several : params.fpSize ≠ 8) (data : DataWord) {i b : Nat}
    (here : b / params.fpSize = i) : (invertData data (i * params.fpSize) ((i + 1) * params.fpSize)).bit b = false := by
  obtain ⟨low, high⟩ := (Nat.div_eq_iff params.fpSize_pos).mp here
  have size : (i + 1) * params.fpSize = i * params.fpSize + params.fpSize := Nat.succ_mul ..
  have positive := params.fpSize_pos
  have apart : ¬(i * params.fpSize ≤ b / 8 * 8 + (7 - b % 8) ∧ b / 8 * 8 + (7 - b % 8) < (i + 1) * params.fpSize) := by
    rintro ⟨above, below⟩
    refine mirror_partition_ne part several b (((Nat.div_eq_iff params.fpSize_pos).mpr ?_).trans here.symm)
    exact ⟨above, by unfold mirror; omega⟩
  have inside : i * params.fpSize / 8 ≤ b / 8 ∧ b / 8 ≤ ((i + 1) * params.fpSize - 1) / 8 :=
    ⟨Nat.div_le_div_right low, Nat.div_le_div_right (by omega)⟩
  unfold DataWord.bit invertData
  rw [if_pos inside, getLsbD_invertByte _ _ _ _ (Nat.mod_lt b (by decide)), decide_eq_false apart, Bool.false_and]

theorem exists_last_flip (some : ∃ i < n, flips i = true) :
    ∃ q < n, flips q = true ∧ ∀ i, q < i → i < n → flips i = false := by
  induction n with
  | zero =>
    obtain ⟨i, small, -⟩ := some
    exact absurd small (Nat.not_lt_zero i)
  | succ n ih =>
    cases last : flips n with
    | true => exact ⟨n, Nat.lt_succ_self n, last, fun i above below => by omega⟩
    | false =>
      obtain ⟨i, small, flip⟩ := some
      have earlier : i < n := by
        refine Nat.lt_of_le_of_ne (Nat.le_of_lt_succ small) ?_
        rintro rfl
        rw [last] at flip
        cases flip
      obtain ⟨q, inside, flip', none⟩ := ih ⟨i, earlier, flip⟩
      refine ⟨q, by omega, flip', fun k above below => ?_⟩
      rcases Nat.lt_or_eq_of_le (Nat.le_of_lt_succ below) with before | rfl
      · exact none k above before
      · exact last

theorem invertAll_of_last {q : Nat} (inside : q < n) (flip : flips q = true)
    (last : ∀ i, q < i → i < n → flips i = false) (data : DataWord) : invertAll params flips n data =
      invertData (invertAll params flips q data) (q * params.fpSize) ((q + 1) * params.fpSize) := by
  induction n with
  | zero => exact absurd inside (Nat.not_lt_zero q)
  | succ n ih =>
    unfold invertAll at ih ⊢
    rw [List.range_succ, List.foldl_append, List.foldl_cons, List.foldl_nil]
    rcases Nat.lt_or_eq_of_le (Nat.le_of_lt_succ inside) with before | rfl
    · rw [last n before (Nat.lt_succ_self n), if_neg nofun]
      exact ih before fun i above below => last i above (by omega)
    · rw [if_pos flip]

/-- **The last partition that is inverted** is not inverted by the second run: nothing is left there to differ. -/
theorem last_flipped_unmarked (part : params.fpSize ∣ 8) (several : params.fpSize ≠ 8) {q : Nat}
    (inside : q < params.flipPartitions) (flip : state.flips params row col q = true)
    (last : ∀ i, q < i → i < params.flipPartitions → state.flips params row col i = false) :
    (state.write params row col).flips params row col q = false := by
  have empty : ∀ (word : DataWord) (b : Nat), b / params.fpSize = q →
      (invertAll params (state.flips params row col) params.flipPartitions word).bit b = false := fun word b here => by
    rw [invertAll_of_last inside flip last]
    exact bit_invertData_part part several _ here
  have none : changedCells params
      (invertAll params (state.flips params row col) params.flipPartitions (state.found params row col))
      (invertAll params (state.flips params row col) params.flipPartitions state.data) q = 0 := by
    unfold changedCells
    refine List.length_eq_zero_iff.mpr (List.filter_eq_nil_iff.mpr fun b member => ?_)
    have here := partition_of_add (i := q) (List.mem_range.mp member)
    rw [empty _ _ here, empty _ _ here]
    nofun
  unfold EncodedWrite.flips at none ⊢
  rw [modifyCount_eq inside, write_found_eq, write_data]
  exact decide_eq_false (by unfold EncodedWrite.flips; omega)

theorem no_flip_of_idempotent (part : params.fpSize ∣ 8) (several : params.fpSize ≠ 8)
    (same : state.Idempotent params row col) {i : Nat} (partition : i < params.flipPartitions) :
    state.flips params row col i = false := by
  by_contra flip
  obtain ⟨q, inside, flipped, last⟩ := exists_last_flip ⟨i, partition, Bool.eq_true_of_not_eq_false flip⟩
  have first := (write_marks params row col state).1 q inside
  have second := (write_marks params row col (state.write params row col)).1 q inside
  rw [same.2, first, flipped, last_flipped_unmarked part several inside flipped last] at second
  cases second

end Nibbles

/-- **When a write can be restarted.** If each partition that the first run inverts consists of bytes that `InvertData`
maps to themselves, the second run leaves the data and the marks as they are. With partitions of whole bytes, or
several of them to a byte, that is so only then. -/
theorem restart_idempotent (params : FlipParams) (row col : Nat) (state : EncodedWrite) :
    (Restartable params row col state → state.Idempotent params row col) ∧
      (8 ∣ params.fpSize ∨ params.fpSize ∣ 8 → state.Idempotent params row col → Restartable params row col state) := by
  by_cases whole : 8 ∣ params.fpSize
  · exact ⟨(idempotent_iff whole).mpr, fun _ => (idempotent_iff whole).mp⟩
  · constructor
    · intro restartable
      have none : ∀ i < params.flipPartitions, state.flips params row col i = false := fun i partition =>
        Bool.eq_false_iff.mpr fun flip => whole (restartable i partition flip).1
      refine (idempotent_iff_of_flips fun i partition => ?_).mpr (by rw [invertAll_none none])
      unfold EncodedWrite.flips
      rw [write_found_eq, write_data, invertAll_none none, invertAll_none none]
    · rintro sizes same i partition flip
      have part := sizes.resolve_left whole
      have several : params.fpSize ≠ 8 := fun eight => whole ⟨1, eight⟩
      rw [no_flip_of_idempotent part several same partition] at flip
      cases flip

def overZeros (data : DataWord) : EncodedWrite := ⟨fun _ => 0, data, fun _ => false⟩

/-- **A restarted write stores what was not to be stored.** The first run inverts `0xff` and marks the partition; the
second one inverts it back and keeps the mark. -/
theorem restart_not_inverted :
    ((overZeros fun _ => 0xff).write byteFlips 0 0).data 0 = 0x00 ∧
      (((overZeros fun _ => 0xff).write byteFlips 0 0).write byteFlips 0 0).data 0 = 0xff ∧
      (((overZeros fun _ => 0xff).write byteFlips 0 0).write byteFlips 0 0).flippedAddresses
        (byteFlips.curAddr 0 0 0) = true ∧
      ¬(overZeros fun _ => 0xff).Idempotent byteFlips 0 0 := by
  refine ⟨by decide +kernel, by decide +kernel, by decide +kernel, fun same => ?_⟩
  have bytes := congrFun same.1 0
  revert bytes
  decide +kernel

end Emas.Nvmain

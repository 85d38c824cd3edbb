/-
**A copy-on-write image as an array of sectors.**
-/

import Emas.Gem5.DiskImage

namespace Emas.Gem5

/-! ### Raw images -/

variable {offset : Nat}

namespace RawDiskImage

/-- The file has `n` sectors, the stream has not failed, and `disk_size` is not wrong. -/
structure Sound (n : Nat) (image : RawDiskImage) : Prop where
  working : image.failed = false
  sectors : image.contents.length / sectorSize = n
  known : image.diskSize = 0 ∨ image.diskSize = image.contents.length

variable {n : Nat} {image : RawDiskImage}

/-- The image once its size is known. -/
def sized (image : RawDiskImage) : RawDiskImage := { image with diskSize := image.contents.length }

theorem Sound.size_eq (sound : image.Sound n) : image.size = (image.sized, (n : Int)) := by
  have sectors : (image.contents.length : Int).tdiv sectorSize = n := by
    rw [← sound.sectors, Int.ofNat_tdiv]
  have stays : (if image.diskSize = 0 then
      { image with diskSize := if image.failed then -1 else image.contents.length } else image) = image.sized := by
    split
    · rw [if_neg (ne_true_of_eq_false sound.working)]
      rfl
    · rename_i unknown
      have known := sound.known.resolve_left unknown
      rw [sized, ← known]
  unfold size
  rw [stays]
  exact congrArg (Prod.mk image.sized) sectors

theorem Sound.sized (sound : image.Sound n) : image.sized.Sound n := ⟨sound.working, sound.sectors, Or.inr rfl⟩

theorem Sound.end_le (sound : image.Sound n) (inside : offset < n) :
    offset * sectorSize + sectorSize ≤ image.contents.length := by
  have sectors := sound.sectors
  unfold sectorSize at *
  omega

theorem Sound.length_bytesAt (sound : image.Sound n) (inside : offset < n) :
    (image.bytesAt offset).length = sectorSize := by
  have room := sound.end_le inside
  unfold bytesAt
  rw [List.length_take, List.length_drop]
  omega

theorem Sound.read_eq (sound : image.Sound n) (data : Sector) (inside : offset < n) :
    ∃ sector : Sector, sector.1 = image.bytesAt offset ∧
      image.read data offset = some (image, sector, (sectorSize : Int)) := by
  have whole := sound.length_bytesAt inside
  refine ⟨image.fill data offset, ?_, ?_⟩
  · show image.bytesAt offset ++ data.1.drop (image.bytesAt offset).length = image.bytesAt offset
    rw [whole, List.drop_eq_nil_of_le (Nat.le_of_eq data.2), List.append_nil]
  · unfold read
    rw [if_neg (ne_true_of_eq_false sound.working), if_pos whole]

theorem Sound.read_isSome (sound : image.Sound n) (data : Sector) (offset : Nat) : (image.read data offset).isSome := by
  unfold read
  rw [sound.working, if_neg Bool.false_ne_true]
  split <;> rfl

theorem getElem?_overwrite (data : Sector) (room : offset * sectorSize + sectorSize ≤ image.contents.length) (i : Nat) :
    (image.overwrite data offset)[i]? =
      if offset * sectorSize ≤ i ∧ i < offset * sectorSize + sectorSize then data.1[i - offset * sectorSize]?
      else image.contents[i]? := by
  have length := data.2
  unfold overwrite
  rw [show offset * sectorSize - image.contents.length = 0 by omega, List.replicate_zero, List.append_nil]
  by_cases before : i < offset * sectorSize
  · rw [if_neg (by omega), List.append_assoc, List.getElem?_append_left (by rw [List.length_take]; omega),
      List.getElem?_take_of_lt before]
  · by_cases inside : i < offset * sectorSize + sectorSize
    · rw [if_pos ⟨by omega, inside⟩, List.getElem?_append_left (by rw [List.length_append, List.length_take]; omega),
        List.getElem?_append_right (by rw [List.length_take]; omega), List.length_take, Nat.min_eq_left (by omega)]
    · rw [if_neg (by omega), List.getElem?_append_right (by rw [List.length_append, List.length_take]; omega),
        List.length_append, List.length_take, Nat.min_eq_left (by omega), length, List.getElem?_drop,
        show offset * sectorSize + sectorSize + (i - (offset * sectorSize + sectorSize)) = i by omega]

theorem length_overwrite (data : Sector) (room : offset * sectorSize + sectorSize ≤ image.contents.length) :
    (image.overwrite data offset).length = image.contents.length := by
  have length := data.2
  unfold overwrite
  rw [List.length_append, List.length_append, List.length_append, List.length_take, List.length_replicate,
    List.length_drop]
  omega

/-- **A write** changes one sector. -/
theorem Sound.write_eq (sound : image.Sound n) (writable : image.readonly = false) (data : Sector)
    (inside : offset < n) :
    image.write data offset = some ({ image with contents := image.overwrite data offset }, (sectorSize : Int)) ∧
      Sound n { image with contents := image.overwrite data offset } ∧
      ∀ q, bytesAt { image with contents := image.overwrite data offset } q =
        if q = offset then data.1 else image.bytesAt q := by
  have room := sound.end_le inside
  have length := length_overwrite data room
  refine ⟨?_, ⟨sound.working, ?_, ?_⟩, fun q => ?_⟩
  · unfold write
    rw [writable, sound.working, if_neg Bool.false_ne_true, if_neg Bool.false_ne_true]
  · exact (congrArg (· / sectorSize) length).trans sound.sectors
  · exact sound.known.imp_right fun known => known.trans (congrArg Nat.cast length.symm)
  · have bytes := getElem?_overwrite data room
    have size := data.2
    refine List.ext_getElem? fun j => ?_
    unfold bytesAt
    by_cases small : j < sectorSize
    · rw [List.getElem?_take_of_lt small, List.getElem?_drop, bytes]
      by_cases here : q = offset
      · subst here
        rw [if_pos rfl, if_pos ⟨by omega, by omega⟩, Nat.add_sub_cancel_left]
      · have apart : q * sectorSize + sectorSize ≤ offset * sectorSize ∨
            offset * sectorSize + sectorSize ≤ q * sectorSize := by
          unfold sectorSize
          omega
        rw [if_neg here, if_neg (by omega), List.getElem?_take_of_lt small, List.getElem?_drop]
    · have beyond : ∀ l : List UInt8, l.length ≤ sectorSize → l[j]? = none := fun l short =>
        List.getElem?_eq_none (by omega)
      rw [beyond _ (List.length_take_le ..)]
      split
      · exact (beyond _ (by omega)).symm
      · exact (beyond _ (List.length_take_le ..)).symm

end RawDiskImage

/-! ### Stacks of images -/

variable {base : RawDiskImage}

namespace DiskImage

/-- What a read gives: the sector of the first table that has it, or that of the file. -/
def sectorFrom : List SectorTable → RawDiskImage → Nat → List UInt8
  | [], base, offset => base.bytesAt offset
  | table :: below, base, offset =>
    match table.find? offset with
    | none => sectorFrom below base offset
    | some sector => sector.1

def sector (image : DiskImage) (offset : Nat) : List UInt8 := sectorFrom image.tables image.base offset

/-- A write through to the file needs it writable. -/
def Writable (image : DiskImage) : Prop := image.tables = [] → image.base.readonly = false

variable {n : Nat}

theorem sectorFrom_congr {base base' : RawDiskImage} (same : ∀ offset, base'.bytesAt offset = base.bytesAt offset)
    (tables : List SectorTable) (offset : Nat) : sectorFrom tables base' offset = sectorFrom tables base offset := by
  induction tables with
  | nil => exact same offset
  | cons table below ih =>
    unfold sectorFrom
    rw [ih]

theorem sectorFrom_sized (base : RawDiskImage) (tables : List SectorTable) (offset : Nat) :
    sectorFrom tables base.sized offset = sectorFrom tables base offset :=
  @sectorFrom_congr base base.sized (fun _ => rfl) tables offset

/-- What does not change the file or its access: at most the size becomes known. -/
def Settled (base after : RawDiskImage) : Prop := after = base ∨ after = base.sized

variable {base after : RawDiskImage}

theorem Settled.sound (settled : Settled base after) (sound : base.Sound n) : after.Sound n := by
  rcases settled with rfl | rfl
  · exact sound
  · exact sound.sized

theorem Settled.bytesAt (settled : Settled base after) (offset : Nat) : after.bytesAt offset = base.bytesAt offset := by
  rcases settled with rfl | rfl <;> rfl

theorem Settled.readonly (settled : Settled base after) : after.readonly = base.readonly := by
  rcases settled with rfl | rfl <;> rfl

theorem Settled.of_sized (settled : Settled base.sized after) : Settled base after :=
  Or.inr (settled.elim id id)

/-- **A read inside** gives the sector. -/
theorem readFrom_inside (tables : List SectorTable) (sound : base.Sound n) (data : Sector)
    (inside : offset < n) : ∃ after sector, readFrom tables base data offset =
      some (after, sector, (sectorSize : Int)) ∧ sector.1 = sectorFrom tables base offset ∧ Settled base after := by
  induction tables generalizing base with
  | nil =>
    obtain ⟨sector, bytes, read⟩ := sound.read_eq data inside
    exact ⟨base, sector, read, bytes, Or.inl rfl⟩
  | cons table below ih =>
    unfold readFrom sectorFrom
    rw [sound.size_eq]
    dsimp only
    rw [if_neg (by omega)]
    cases table.find? offset with
    | none =>
      obtain ⟨after, sector, read, bytes, settled⟩ := ih sound.sized
      exact ⟨after, sector, read, bytes.trans (sectorFrom_sized base below offset), settled.of_sized⟩
    | some sector => exact ⟨base.sized, sector, rfl, rfl, Or.inr rfl⟩

theorem readFrom_boundary (tables : List SectorTable) (sound : base.Sound n) (data : Sector) :
    (readFrom tables base data n).isSome := by
  induction tables generalizing base with
  | nil => exact sound.read_isSome data n
  | cons table below ih =>
    unfold readFrom
    rw [sound.size_eq]
    dsimp only
    rw [if_neg (by omega)]
    cases table.find? n with
    | none => exact ih sound.sized
    | some sector => rfl

theorem readFrom_beyond (table : SectorTable) (below : List SectorTable) (sound : base.Sound n)
    (data : Sector) (beyond : n < offset) : readFrom (table :: below) base data offset = none := by
  unfold readFrom
  rw [sound.size_eq]
  dsimp only
  rw [if_pos (by omega)]

theorem write_table (table : SectorTable) (below : List SectorTable) (sound : base.Sound n)
    (data : Sector) (le : offset ≤ n) : write ⟨table :: below, base⟩ data offset =
      some (⟨table.insert offset data :: below, base.sized⟩, (sectorSize : Int)) := by
  unfold write
  dsimp only
  rw [sound.size_eq]
  dsimp only
  rw [if_neg (by omega)]

theorem write_beyond (table : SectorTable) (below : List SectorTable) (sound : base.Sound n)
    (data : Sector) (beyond : n < offset) : write ⟨table :: below, base⟩ data offset = none := by
  unfold write
  dsimp only
  rw [sound.size_eq]
  dsimp only
  rw [if_pos (by omega)]

/-- **A write inside** changes its sector. -/
theorem write_inside {image : DiskImage} (sound : image.base.Sound n) (writable : image.Writable) (data : Sector)
    (inside : offset < n) : ∃ after, image.write data offset = some (after, (sectorSize : Int)) ∧
      after.base.Sound n ∧ after.Writable ∧
      ∀ q, after.sector q = if q = offset then data.1 else image.sector q := by
  obtain ⟨tables, base⟩ := image
  cases tables with
  | nil =>
    obtain ⟨write, after, sectors⟩ := sound.write_eq (writable rfl) data inside
    refine ⟨⟨[], { base with contents := base.overwrite data offset }⟩, ?_, after, fun _ => writable rfl, sectors⟩
    exact congrArg (Option.map _) write
  | cons table below =>
    refine ⟨⟨table.insert offset data :: below, base.sized⟩, write_table table below sound data (Nat.le_of_lt inside),
      sound.sized, nofun, fun q => ?_⟩
    unfold sector sectorFrom
    dsimp only
    rw [SortedMap.find?_insert, sectorFrom_sized]
    by_cases here : q = offset
    · rw [if_pos here, if_pos here]
    · rw [if_neg here, if_neg here]

end DiskImage

/-! ### Saving and opening -/

section Streams

theorem length_bytesOfNumber (count number : Nat) : (bytesOfNumber count number).length = count := by
  induction count generalizing number with
  | zero => rfl
  | succ count ih => exact congrArg (· + 1) (ih _)

theorem numberOf_bytesOfNumber {count number : Nat} (fits : number < 256 ^ count) :
    numberOf (bytesOfNumber count number) = number := by
  induction count generalizing number with
  | zero =>
    rw [Nat.pow_zero] at fits
    exact (Nat.lt_one_iff.mp fits).symm
  | succ count ih =>
    have rest : number / 256 < 256 ^ count := by
      rw [Nat.div_lt_iff_lt_mul (by decide)]
      rwa [Nat.pow_succ] at fits
    unfold bytesOfNumber numberOf
    rw [ih rest, UInt8.toNat_ofNat']
    omega

theorem safeRead_append {front : List UInt8} {count : Nat} (length : front.length = count) (rest : List UInt8) :
    safeRead count (front ++ rest) = some (front, rest) := by
  unfold safeRead
  rw [if_pos (by rw [List.length_append]; omega), List.take_left' length, List.drop_left' length]

theorem safeReadSwap_bytes {count number : Nat} (fits : number < 256 ^ count) (rest : List UInt8) :
    safeReadSwap count (bytesOfNumber count number ++ rest) = some (number, rest) := by
  unfold safeReadSwap
  rw [safeRead_append (length_bytesOfNumber count number)]
  exact congrArg (fun value => some (value, rest)) (numberOf_bytesOfNumber fits)

/-- The table with sectors put in. -/
def addSectors (table : SectorTable) (entries : List (Nat × Sector)) : SectorTable :=
  entries.foldl (fun table entry => table.insert entry.1 entry.2) table

variable {entries : List (Nat × Sector)}

theorem find?_addSectors_of_not_mem (table : SectorTable)
    (other : ∀ entry ∈ entries, entry.1 ≠ offset) : (addSectors table entries).find? offset = table.find? offset := by
  induction entries generalizing table with
  | nil => rfl
  | cons entry rest ih =>
    refine (ih _ fun later member => other later (List.mem_cons_of_mem _ member)).trans ?_
    rw [SortedMap.find?_insert, if_neg (other entry List.mem_cons_self).symm]

theorem find?_addSectors_of_mem (table : SectorTable) {sector : Sector}
    (member : (offset, sector) ∈ entries) (distinct : (entries.map Prod.fst).Nodup) :
    (addSectors table entries).find? offset = some sector := by
  induction entries generalizing table with
  | nil => exact absurd member List.not_mem_nil
  | cons entry rest ih =>
    rw [List.map_cons, List.nodup_cons] at distinct
    rcases List.mem_cons.mp member with rfl | later
    · refine Eq.trans (find?_addSectors_of_not_mem (table.insert offset sector) fun entry there same => ?_)
        (SortedMap.find?_insert_self ..)
      exact distinct.1 (List.mem_map.mpr ⟨entry, there, same⟩)
    · exact ih _ later distinct.2

theorem readSectors_saved (fits : ∀ entry ∈ entries, entry.1 < 256 ^ 8)
    (distinct : (entries.map Prod.fst).Nodup) (table : SectorTable)
    (absent : ∀ entry ∈ entries, table.find? entry.1 = none) :
    readSectors entries.length (entries.flatMap saveSector) table = some (addSectors table entries) := by
  induction entries generalizing table with
  | nil => rfl
  | cons entry rest ih =>
    obtain ⟨offset, sector⟩ := entry
    rw [List.map_cons, List.nodup_cons] at distinct
    have stream : ((offset, sector) :: rest).flatMap saveSector =
        bytesOfNumber 8 offset ++ (sector.1 ++ rest.flatMap saveSector) := by
      rw [List.flatMap_cons, saveSector, List.append_assoc]
    have enough : sectorSize ≤ (sector.1 ++ rest.flatMap saveSector).length := by
      rw [List.length_append, sector.2]
      exact Nat.le_add_right ..
    rw [stream, List.length_cons]
    unfold readSectors
    rw [safeReadSwap_bytes (fits _ List.mem_cons_self)]
    dsimp only
    rw [dif_pos enough, if_pos (absent _ List.mem_cons_self), List.drop_left' sector.2]
    have taken : (⟨(sector.1 ++ rest.flatMap saveSector).take sectorSize, List.length_take_of_le enough⟩ : Sector) =
        sector := Subtype.ext (List.take_left' sector.2)
    rw [taken]
    refine ih (fun later member => fits later (List.mem_cons_of_mem _ member)) distinct.2 _ fun later member => ?_
    have apart : later.1 ≠ offset := fun same => distinct.1 (List.mem_map.mpr ⟨later, member, same⟩)
    rw [SortedMap.find?_insert, if_neg apart]
    exact absent later (List.mem_cons_of_mem _ member)

theorem nodup_keys (table : SectorTable) : (table.entries.map Prod.fst).Nodup := by
  have sorted := List.pairwise_map.mpr table.sorted
  exact sorted.imp ne_of_lt

/-- **What was saved is opened again.** -/
theorem openTable_saveTable {table : SectorTable} (order : entries.Perm table.entries)
    {n : Nat} (keys : ∀ offset, table.find? offset ≠ none → offset < n) (small : n < 256 ^ 8) :
    openTable (saveTable entries) = some table := by
  have distinct : (entries.map Prod.fst).Nodup := (order.map Prod.fst).nodup_iff.mpr (nodup_keys table)
  have inside : ∀ entry ∈ entries, entry.1 < n := fun entry member => keys entry.1 (by
    rw [SortedMap.find?_of_mem (order.mem_iff.mp member)]
    exact Option.some_ne_none _)
  have count : entries.length < 256 ^ 8 := by
    have below : (entries.map Prod.fst).Subset (List.range n) := fun offset member => by
      obtain ⟨entry, there, rfl⟩ := List.mem_map.mp member
      exact List.mem_range.mpr (inside entry there)
    have le := (List.subperm_of_subset distinct below).length_le
    rw [List.length_map, List.length_range] at le
    exact Nat.lt_of_le_of_lt le small
  have read := readSectors_saved (fun entry member => (inside entry member).trans small) distinct .empty fun _ _ => rfl
  have same : addSectors .empty entries = table := SortedMap.ext_find? fun offset => by
    cases found : table.find? offset with
    | none =>
      refine find?_addSectors_of_not_mem .empty fun entry member same => ?_
      rw [← same, SortedMap.find?_of_mem (order.mem_iff.mp member)] at found
      cases found
    | some sector =>
      exact find?_addSectors_of_mem .empty (order.mem_iff.mpr (SortedMap.mem_of_find? found)) distinct
  have magic : cowMagic.length = 8 := rfl
  unfold openTable saveTable
  rw [List.append_assoc, List.append_assoc, List.append_assoc, safeRead_append magic]
  dsimp only
  rw [if_neg (not_not_intro rfl), safeReadSwap_bytes (by decide)]
  dsimp only
  rw [safeReadSwap_bytes (by decide)]
  dsimp only
  rw [if_neg (by decide), openBody, safeReadSwap_bytes count]
  dsimp only
  rw [read, same]

end Streams

/-! ### The array of sectors -/

/-- What the image is for: `sectors` sectors that are read and written, over those of the child. -/
structure PlainDisk where
  sectors : Nat
  view : Nat → Sector
  child : Nat → Sector

/-- An operation on it; an access is rejected from `sectors` on. -/
def PlainDisk.perform (disk : PlainDisk) : DiskOp → Option (PlainDisk × DiskAnswer)
  | .read _ offset => if offset < disk.sectors then some (disk, .read (disk.view offset) sectorSize) else none
  | .write data offset =>
    if offset < disk.sectors then
      some ({ disk with view := Function.update disk.view offset data }, .write sectorSize)
    else none
  | .writeback => some ({ disk with child := disk.view }, .done)
  | .reopen => some (disk, .done)

/-- The child has the sectors that the array says it has. -/
def ChildShows (disk : PlainDisk) (image : CowDiskImage) : Prop :=
  ∀ offset < disk.sectors, image.child.sector offset = (disk.child offset).1

/-- A run of the image goes as one of the array: the same answers, the same accesses rejected, with which the run ends,
and the child as it should be in between. -/
def DiskAgrees (iterate : SectorTable → List (Nat × Sector)) : CowDiskImage → PlainDisk → List DiskOp → Prop
  | _, _, [] => True
  | image, disk, op :: rest =>
    match image.perform iterate op, disk.perform op with
    | none, none => True
    | some (image, answer), some (disk, answer') =>
      answer = answer' ∧ ChildShows disk image ∧ DiskAgrees iterate image disk rest
    | _, _ => False

/-- The sector that an operation accesses. -/
def DiskOp.offset? : DiskOp → Option Nat
  | .read _ offset => some offset
  | .write _ offset => some offset
  | .writeback => none
  | .reopen => none

/-- Sector `n` is not accessed, up to the first access that lies beyond it. -/
def AvoidsEnd (n : Nat) : List DiskOp → Prop
  | [] => True
  | op :: rest => op.offset? ≠ some n ∧ ((∀ offset ∈ op.offset?, offset < n) → AvoidsEnd n rest)

/-- The image shows the sectors of the array, and its table has none from `sectors` on. -/
structure Shows (disk : PlainDisk) (image : CowDiskImage) : Prop where
  sound : image.child.base.Sound disk.sectors
  view : ∀ offset < disk.sectors, image.toImage.sector offset = (disk.view offset).1
  child : ChildShows disk image
  keys : ∀ offset, image.table.find? offset ≠ none → offset < disk.sectors

section Refinement

variable {iterate : SectorTable → List (Nat × Sector)} {disk : PlainDisk} {image : CowDiskImage}

theorem sector_toImage (image : CowDiskImage) (offset : Nat) : image.toImage.sector offset =
    match image.table.find? offset with
    | none => image.child.sector offset
    | some sector => sector.1 := rfl

theorem Shows.settle (shown : Shows disk image) (settled : DiskImage.Settled image.child.base base) :
    Shows disk { image with child := { image.child with base := base } } := by
  have same := DiskImage.sectorFrom_congr settled.bytesAt
  refine ⟨settled.sound shown.sound, fun offset inside => ?_, fun offset inside => ?_, shown.keys⟩
  · exact (same _ offset).trans (shown.view offset inside)
  · exact (same _ offset).trans (shown.child offset inside)

theorem Shows.read (shown : Shows disk image) (data : Sector) (inside : offset < disk.sectors) :
    ∃ after, image.perform iterate (.read data offset) = some (after, .read (disk.view offset) sectorSize) ∧
      Shows disk after ∧ (image.child.Writable → after.child.Writable) := by
  obtain ⟨base, sector, read, bytes, settled⟩ :=
    DiskImage.readFrom_inside (image.table :: image.child.tables) shown.sound data inside
  have found : sector = disk.view offset := Subtype.ext (bytes.trans (shown.view offset inside))
  refine ⟨{ image with child := { image.child with base := base } }, ?_, shown.settle settled,
    fun writable bottom => settled.readonly.trans (writable bottom)⟩
  show ((DiskImage.readFrom (image.table :: image.child.tables) image.child.base data offset).map _).map _ = _
  rw [read, found]
  rfl

theorem Shows.write (shown : Shows disk image) (data : Sector) (inside : offset < disk.sectors) :
    ∃ after, image.perform iterate (.write data offset) = some (after, .write sectorSize) ∧
      Shows { disk with view := Function.update disk.view offset data } after ∧
      (image.child.Writable → after.child.Writable) := by
  refine ⟨⟨image.table.insert offset data, { image.child with base := image.child.base.sized }⟩, ?_,
    ⟨shown.sound.sized, fun q inside' => ?_, fun q inside' => ?_, fun q present => ?_⟩, id⟩
  · show (DiskImage.write ⟨image.table :: image.child.tables, image.child.base⟩ data offset).map _ = _
    rw [DiskImage.write_table image.table image.child.tables shown.sound data (Nat.le_of_lt inside)]
    rfl
  · show _ = (Function.update disk.view offset data q).1
    rw [sector_toImage, SortedMap.find?_insert]
    by_cases here : q = offset
    · rw [if_pos here, here, Function.update_self]
    · rw [if_neg here, Function.update_of_ne here, ← shown.view q inside', sector_toImage]
      cases image.table.find? q with
      | none => exact DiskImage.sectorFrom_sized ..
      | some sector => rfl
  · exact (DiskImage.sectorFrom_sized ..).trans (shown.child q inside')
  · rw [SortedMap.find?_insert] at present
    by_cases here : q = offset
    · rw [here]
      exact inside
    · rw [if_neg here] at present
      exact shown.keys q present

theorem writeSectors {n : Nat} (entries : List (Nat × Sector)) {child : DiskImage} (sound : child.base.Sound n)
    (writable : child.Writable) (inside : ∀ entry ∈ entries, entry.1 < n)
    (distinct : (entries.map Prod.fst).Nodup) : ∃ after : DiskImage,
      entries.foldlM (fun (child : DiskImage) entry => (child.write entry.2 entry.1).map Prod.fst) child = some after ∧
      after.base.Sound n ∧ after.Writable ∧ (∀ entry ∈ entries, after.sector entry.1 = entry.2.1) ∧
      ∀ offset, (∀ entry ∈ entries, entry.1 ≠ offset) → after.sector offset = child.sector offset := by
  induction entries generalizing child with
  | nil => exact ⟨child, rfl, sound, writable, nofun, fun _ _ => rfl⟩
  | cons entry rest ih =>
    rw [List.map_cons, List.nodup_cons] at distinct
    obtain ⟨middle, write, sound', writable', sectors⟩ :=
      DiskImage.write_inside sound writable entry.2 (inside entry List.mem_cons_self)
    obtain ⟨after, writes, sound'', writable'', written, others⟩ := ih sound' writable'
      (fun later member => inside later (List.mem_cons_of_mem _ member)) distinct.2
    refine ⟨after, ?_, sound'', writable'', fun later member => ?_, fun offset apart => ?_⟩
    · rw [List.foldlM_cons, write]
      exact writes
    · rcases List.mem_cons.mp member with rfl | there
      · rw [others later.1 fun other member same => distinct.1 (List.mem_map.mpr ⟨other, member, same⟩), sectors,
          if_pos rfl]
      · exact written later there
    · rw [others offset fun later member => apart later (List.mem_cons_of_mem _ member), sectors,
        if_neg (apart entry List.mem_cons_self).symm]

theorem Shows.writeback (order : ∀ table, (iterate table).Perm table.entries) (shown : Shows disk image)
    (writable : image.child.Writable) : ∃ after, image.perform iterate .writeback = some (after, .done) ∧
      Shows { disk with child := disk.view } after ∧ after.child.Writable := by
  have inside : ∀ entry ∈ iterate image.table, entry.1 < disk.sectors := fun entry member => shown.keys entry.1 (by
    rw [SortedMap.find?_of_mem ((order _).mem_iff.mp member)]
    exact Option.some_ne_none _)
  have distinct : ((iterate image.table).map Prod.fst).Nodup :=
    ((order _).map Prod.fst).nodup_iff.mpr (nodup_keys image.table)
  obtain ⟨child, writes, sound, writable', written, others⟩ :=
    writeSectors (iterate image.table) shown.sound writable inside distinct
  have sectors : ∀ offset < disk.sectors, child.sector offset = (disk.view offset).1 := fun offset inside' => by
    have view := shown.view offset inside'
    rw [sector_toImage] at view
    cases found : image.table.find? offset with
    | none =>
      rw [found] at view
      refine (others offset fun entry member same => ?_).trans view
      rw [← same, SortedMap.find?_of_mem ((order _).mem_iff.mp member)] at found
      cases found
    | some sector =>
      rw [found] at view
      exact (written _ ((order _).mem_iff.mpr (SortedMap.mem_of_find? found))).trans view
  refine ⟨{ image with child := child }, ?_, ⟨sound, fun offset inside' => ?_, sectors, shown.keys⟩, writable'⟩
  · show (image.writeback iterate).map _ = _
    unfold CowDiskImage.writeback
    rw [writes]
    rfl
  · rw [sector_toImage]
    cases found : image.table.find? offset with
    | none => exact sectors offset inside'
    | some sector =>
      have view := shown.view offset inside'
      rwa [sector_toImage, found] at view

theorem Shows.reopen (order : ∀ table, (iterate table).Perm table.entries) (shown : Shows disk image)
    (small : disk.sectors < 256 ^ 8) : image.perform iterate .reopen = some (image, .done) := by
  have opened : openTable (saveTable (iterate image.table)) = some image.table :=
    openTable_saveTable (order image.table) shown.keys small
  unfold CowDiskImage.perform CowDiskImage.reopen
  dsimp only
  rw [opened, Option.map_some, Option.map_some]

theorem Shows.perform_end (shown : Shows disk image) {op : DiskOp} (access : op.offset? = some disk.sectors) :
    (image.perform iterate op).isSome ∧ disk.perform op = none := by
  cases op with
  | read data offset =>
    obtain rfl := Option.some.inj access
    have boundary := DiskImage.readFrom_boundary (image.table :: image.child.tables) shown.sound data
    refine ⟨?_, if_neg (Nat.lt_irrefl _)⟩
    unfold CowDiskImage.perform DiskImage.read
    rw [Option.isSome_map, Option.isSome_map]
    exact boundary
  | write data offset =>
    obtain rfl := Option.some.inj access
    refine ⟨?_, if_neg (Nat.lt_irrefl _)⟩
    unfold CowDiskImage.perform CowDiskImage.toImage
    dsimp only
    rw [DiskImage.write_table image.table image.child.tables shown.sound data (Nat.le_refl _)]
    rfl
  | writeback => cases access
  | reopen => cases access

theorem Shows.not_agrees_end (iterate : SectorTable → List (Nat × Sector)) (shown : Shows disk image) {op : DiskOp}
    (access : op.offset? = some disk.sectors) (rest : List DiskOp) : ¬DiskAgrees iterate image disk (op :: rest) := by
  obtain ⟨accepted, rejected⟩ := @Shows.perform_end iterate disk image shown op access
  obtain ⟨result, performed⟩ := Option.isSome_iff_exists.mp accepted
  unfold DiskAgrees
  rw [performed, rejected]
  exact id

theorem Shows.perform_beyond (shown : Shows disk image) {op : DiskOp} (access : op.offset? = some offset)
    (beyond : disk.sectors < offset) : image.perform iterate op = none ∧ disk.perform op = none := by
  cases op with
  | read data place =>
    obtain rfl := Option.some.inj access
    refine ⟨?_, if_neg (by omega)⟩
    unfold CowDiskImage.perform DiskImage.read CowDiskImage.toImage
    dsimp only
    rw [DiskImage.readFrom_beyond image.table image.child.tables shown.sound data beyond]
    rfl
  | write data place =>
    obtain rfl := Option.some.inj access
    refine ⟨?_, if_neg (by omega)⟩
    unfold CowDiskImage.perform CowDiskImage.toImage
    dsimp only
    rw [DiskImage.write_beyond image.table image.child.tables shown.sound data beyond]
    rfl
  | writeback => cases access
  | reopen => cases access

/-- **An operation inside** goes as on the array. -/
theorem Shows.perform_inside (order : ∀ table, (iterate table).Perm table.entries) (shown : Shows disk image)
    (small : disk.sectors < 256 ^ 8) {op : DiskOp} (writable : op = .writeback → image.child.Writable)
    (inside : ∀ offset ∈ op.offset?, offset < disk.sectors) : ∃ after answer disk', disk'.sectors = disk.sectors ∧
      image.perform iterate op = some (after, answer) ∧ disk.perform op = some (disk', answer) ∧
      Shows disk' after ∧ (image.child.Writable → after.child.Writable) := by
  cases op with
  | read data offset =>
    obtain ⟨after, performed, shows', stays⟩ := shown.read data (inside offset rfl)
    exact ⟨after, _, disk, rfl, performed, if_pos (inside offset rfl), shows', stays⟩
  | write data offset =>
    obtain ⟨after, performed, shows', stays⟩ := shown.write data (inside offset rfl)
    exact ⟨after, _, { disk with view := Function.update disk.view offset data }, rfl, performed,
      if_pos (inside offset rfl), shows', stays⟩
  | writeback =>
    obtain ⟨after, performed, shows', stays⟩ := shown.writeback order (writable rfl)
    exact ⟨after, _, { disk with child := disk.view }, rfl, performed, rfl, shows', fun _ => stays⟩
  | reopen => exact ⟨image, _, disk, rfl, shown.reopen order small, rfl, shown, id⟩

/-- **A run goes as on the array** if and only if it does not access the sector behind the last one. -/
theorem Shows.answers_iff (order : ∀ table, (iterate table).Perm table.entries) (ops : List DiskOp)
    (shown : Shows disk image) (small : disk.sectors < 256 ^ 8) (writable : .writeback ∈ ops → image.child.Writable) :
    DiskAgrees iterate image disk ops ↔ AvoidsEnd disk.sectors ops := by
  induction ops generalizing image disk with
  | nil => exact Iff.rfl
  | cons op rest ih =>
    unfold AvoidsEnd
    by_cases inside : ∀ offset ∈ op.offset?, offset < disk.sectors
    · obtain ⟨after, answer, disk', same, performed, performed', shows', stays⟩ :=
        shown.perform_inside order small (fun is => writable (by rw [is]; exact List.mem_cons_self)) inside
      have others := ih shows' (by rwa [same]) fun later => stays (writable (List.mem_cons_of_mem _ later))
      rw [same] at others
      unfold DiskAgrees
      rw [performed, performed']
      dsimp only
      rw [others]
      constructor
      · exact fun ⟨_, _, avoids⟩ => ⟨fun access => Nat.lt_irrefl _ (inside _ access), fun _ => avoids⟩
      · exact fun ⟨_, avoids⟩ => ⟨rfl, shows'.child, avoids inside⟩
    · obtain ⟨offset, access, outside⟩ : ∃ offset, op.offset? = some offset ∧ disk.sectors ≤ offset := by
        by_contra none
        exact inside fun offset access => by
          by_contra outside
          exact none ⟨offset, access, not_lt.mp outside⟩
      by_cases last : offset = disk.sectors
      · subst last
        exact iff_of_false (shown.not_agrees_end iterate access rest) fun avoids => avoids.1 access
      · obtain ⟨rejected, rejected'⟩ := shown.perform_beyond access (by omega)
        unfold DiskAgrees
        rw [rejected, rejected']
        refine ⟨fun _ => ⟨fun access' => last ?_, fun all => absurd all inside⟩, fun _ => trivial⟩
        exact Option.some.inj (access.symm.trans access')

end Refinement

/-! ### What is opened -/

def majorOf (stream : List UInt8) : Nat := numberOf ((stream.drop 8).take 4)

def minorOf (stream : List UInt8) : Nat := numberOf ((stream.drop 12).take 4)

/-- The magic and both version numbers are those of `save`. -/
def HeaderMatches (stream : List UInt8) : Prop :=
  stream.take 8 = cowMagic ∧ majorOf stream = versionMajor ∧ minorOf stream = versionMinor

/-- One version number does not match, and there is nothing else wrong with the stream. -/
def OneVersionMatches (stream : List UInt8) : Prop :=
  16 ≤ stream.length ∧ stream.take 8 = cowMagic ∧ (openBody (stream.drop 16)).isSome ∧
    (majorOf stream = versionMajor ∧ minorOf stream ≠ versionMinor ∨
      majorOf stream ≠ versionMajor ∧ minorOf stream = versionMinor)

theorem safeRead_short {count : Nat} {stream : List UInt8} (short : stream.length < count) :
    safeRead count stream = none := if_neg (by omega)

theorem openTable_short {stream : List UInt8} (short : ¬16 ≤ stream.length) : openTable stream = none := by
  unfold openTable safeReadSwap
  by_cases magic : stream.length < 8
  · rw [safeRead_short magic]
  · rw [safeRead, if_pos (by omega)]
    dsimp only
    split
    · rfl
    · by_cases major : (stream.drop 8).length < 4
      · rw [safeRead_short major]
        rfl
      · rw [safeRead, if_pos (by omega), Option.map_some]
        dsimp only
        rw [safeRead_short (by rw [List.length_drop, List.length_drop]; omega)]
        rfl

theorem openTable_eq (stream : List UInt8) : openTable stream =
    if 16 ≤ stream.length ∧ stream.take 8 = cowMagic ∧
      (majorOf stream = versionMajor ∨ minorOf stream = versionMinor) then openBody (stream.drop 16) else none := by
  by_cases versions : 16 ≤ stream.length
  · unfold openTable safeReadSwap safeRead
    rw [if_pos (by omega : 8 ≤ stream.length)]
    dsimp only
    by_cases same : stream.take 8 = cowMagic
    · rw [if_neg (not_not_intro same), if_pos (by rw [List.length_drop]; omega), Option.map_some]
      dsimp only
      rw [if_pos (by rw [List.length_drop, List.length_drop]; omega), Option.map_some]
      dsimp only
      rw [List.drop_drop, List.drop_drop]
      show (if majorOf stream ≠ versionMajor ∧ minorOf stream ≠ versionMinor then none
        else openBody (stream.drop 16)) = _
      by_cases fits : majorOf stream = versionMajor ∨ minorOf stream = versionMinor
      · rw [if_neg fun neither => fits.elim neither.1 neither.2, if_pos ⟨versions, same, fits⟩]
      · rw [if_pos (not_or.mp fits), if_neg fun all => fits all.2.2]
    · rw [if_pos same, if_neg fun all => same all.2.1]
  · rw [if_neg fun all => versions all.1]
    exact openTable_short versions

/-- **What `open` accepts** has the right header, unless there is one version number that does not match. -/
theorem accepts_iff (stream : List UInt8) :
    ((openTable stream).isSome → HeaderMatches stream) ↔ ¬OneVersionMatches stream := by
  rw [openTable_eq]
  unfold HeaderMatches OneVersionMatches
  by_cases front : 16 ≤ stream.length ∧ stream.take 8 = cowMagic
  · obtain ⟨long, magic⟩ := front
    by_cases major : majorOf stream = versionMajor <;> by_cases minor : minorOf stream = versionMinor <;>
      simp [long, magic, major, minor]
  · rw [if_neg fun all => front ⟨all.1, all.2.1⟩]
    exact ⟨fun _ one => front ⟨one.1, one.2.1⟩, fun _ => nofun⟩

/-- **When a copy-on-write image is an array of sectors over its child**, and when `open` accepts no other header. -/
theorem cow_refines_iff {iterate : SectorTable → List (Nat × Sector)}
    (order : ∀ table, (iterate table).Perm table.entries) {n : Nat} {child : DiskImage} (sound : child.base.Sound n)
    (fits : child.base.contents.length < 2 ^ 63) {sectors : Nat → Sector}
    (holds : ∀ offset < n, child.sector offset = (sectors offset).1) (ops : List DiskOp)
    (writable : .writeback ∈ ops → child.Writable) (stream : List UInt8) :
    (DiskAgrees iterate (.create child) ⟨n, sectors, sectors⟩ ops ↔ AvoidsEnd n ops) ∧
      (((openTable stream).isSome → HeaderMatches stream) ↔ ¬OneVersionMatches stream) := by
  have shown : Shows ⟨n, sectors, sectors⟩ (.create child) :=
    ⟨sound, holds, holds, fun _ present => absurd rfl present⟩
  have small : n < 256 ^ 8 := by
    have count := sound.sectors
    have few : n ≤ child.base.contents.length := by
      rw [← count]
      exact Nat.div_le_self ..
    exact few.trans_lt (fits.trans_le (by decide))
  exact ⟨shown.answers_iff order ops small writable, accepts_iff stream⟩

/-- A file of zeros. -/
def zeroImage (n : Nat) : DiskImage := ⟨[], ⟨List.replicate (n * sectorSize) 0, false, false, 0⟩⟩

def zeroSector : Sector := ⟨List.replicate sectorSize 0, List.length_replicate⟩

theorem length_zeroImage (n : Nat) : (zeroImage n).base.contents.length = n * sectorSize := List.length_replicate

theorem zeroImage_sound (n : Nat) : (zeroImage n).base.Sound n where
  working := rfl
  sectors := by rw [length_zeroImage, Nat.mul_div_cancel _ (by decide)]
  known := Or.inl rfl

theorem sector_zeroImage {n offset : Nat} (inside : offset < n) : (zeroImage n).sector offset = zeroSector.1 := by
  show ((List.replicate (n * sectorSize) (0 : UInt8)).drop (offset * sectorSize)).take sectorSize = _
  have room : sectorSize ≤ n * sectorSize - offset * sectorSize := by
    rw [← Nat.sub_mul]
    exact Nat.le_mul_of_pos_left _ (Nat.sub_pos_of_lt inside)
  rw [List.drop_replicate, List.take_replicate, Nat.min_eq_left room]
  rfl

/-- A sector is read, written, written back, saved and read again, and an access beyond the end is rejected. -/
theorem cow_refines_oneSector : DiskAgrees SortedMap.entries (.create (zeroImage 1))
    ⟨1, fun _ => zeroSector, fun _ => zeroSector⟩
    [.read zeroSector 0, .write zeroSector 0, .writeback, .reopen, .read zeroSector 0, .write zeroSector 2] := by
  have fits : (zeroImage 1).base.contents.length < 2 ^ 63 := by
    rw [length_zeroImage]
    decide
  refine (cow_refines_iff (fun _ => .refl _) (zeroImage_sound 1) fits (fun _ => sector_zeroImage) _
    (fun _ _ => rfl) []).1.mpr ?_
  simp [AvoidsEnd, DiskOp.offset?]

/-- A file with version 1.7 and no sectors. -/
def otherMinor : List UInt8 := cowMagic ++ [1, 0, 0, 0] ++ [7, 0, 0, 0] ++ [0, 0, 0, 0, 0, 0, 0, 0]

/-- Sector 1 of an image of one sector can be written, and a file with another minor version is opened. -/
theorem not_cow_refines :
    ¬DiskAgrees SortedMap.entries (.create (zeroImage 1)) ⟨1, fun _ => zeroSector, fun _ => zeroSector⟩
      [.write zeroSector 1] ∧
      ¬((openTable otherMinor).isSome → HeaderMatches otherMinor) := by
  have shown : Shows ⟨1, fun _ => zeroSector, fun _ => zeroSector⟩ (.create (zeroImage 1)) :=
    ⟨zeroImage_sound 1, fun _ => sector_zeroImage, fun _ => sector_zeroImage, fun _ present => absurd rfl present⟩
  exact ⟨shown.not_agrees_end _ rfl [], fun opens => absurd (opens (by decide)).2.2 (by decide)⟩

end Emas.Gem5

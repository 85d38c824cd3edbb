/-
**Disk images.**

`class RawDiskImage` over a file, and `class CowDiskImage` over another image. A `panic` is `none`. The images are
initialised, and the files they open are there. A file is its bytes; the stream of a raw image has failed once a read got
to the end of the file, and then every access panics. The order in which an `unordered_map` is iterated is unspecified:
`iterate` is any order of the entries.

* `DiskImage.Sound n`: an image of `n` sectors whose stream has not failed; `sector` is what a read of it gives.
* `agrees_iff`: **a copy-on-write image is an array of sectors** in exactly the runs that do not access sector `n`. The
  bounds checks compare with `>`.
* `accepts_iff`: the streams that `open` accepts although a version number does not match.
-/

import Emas.Lib.SortedMap
import Mathlib.Data.List.Perm.Basic
import Mathlib.Data.List.Nodup
import Mathlib.Data.List.Range
import Mathlib.Algebra.Group.Nat.Defs

namespace Emas.Gem5

/-! ### Sectors and files -/

def sectorSize : Nat := 512

/-- `struct Sector`, and the buffers of the callers. -/
abbrev Sector := { data : List UInt8 // data.length = sectorSize }

/-- `class RawDiskImage`: the bytes of the file, `readonly`, whether the stream has failed, and `disk_size`. -/
structure RawDiskImage where
  contents : List UInt8
  readonly : Bool
  failed : Bool
  diskSize : Int

namespace RawDiskImage

variable (image : RawDiskImage)

/-- `size( )`, and the image with `disk_size`; `tellg` of a failed stream is `-1`. -/
def size : RawDiskImage × Int :=
  let image :=
    if image.diskSize = 0 then
      { image with diskSize := if image.failed then -1 else image.contents.length }
    else image
  (image, image.diskSize.tdiv sectorSize)

/-- The bytes of a sector, as far as the file has them. -/
def bytesAt (offset : Nat) : List UInt8 := (image.contents.drop (offset * sectorSize)).take sectorSize

/-- The buffer after `stream.read( data, SectorSize )`. -/
def fill (data : Sector) (offset : Nat) : Sector :=
  ⟨image.bytesAt offset ++ data.1.drop (image.bytesAt offset).length, by
    have short : (image.bytesAt offset).length ≤ sectorSize := List.length_take_le ..
    rw [List.length_append, List.length_drop, data.2]
    omega⟩

/-- `read( data, offset )`: at the end of the file the stream fails. -/
def read (data : Sector) (offset : Nat) : Option (RawDiskImage × Sector × Int) :=
  if image.failed then none
  else if (image.bytesAt offset).length = sectorSize then some (image, image.fill data offset, sectorSize)
  else some ({ image with failed := true }, image.fill data offset, -1 - offset * sectorSize)

/-- The file after `stream.write( data, SectorSize )`. -/
def overwrite (data : Sector) (offset : Nat) : List UInt8 :=
  image.contents.take (offset * sectorSize) ++ List.replicate (offset * sectorSize - image.contents.length) 0 ++
    data.1 ++ image.contents.drop (offset * sectorSize + sectorSize)

def write (data : Sector) (offset : Nat) : Option (RawDiskImage × Int) :=
  if image.readonly then none
  else if image.failed then none
  else some ({ image with contents := image.overwrite data offset }, sectorSize)

end RawDiskImage

abbrev SectorTable := SortedMap Nat Sector

/-- `class DiskImage`: a raw image, under the tables of the `CowDiskImage`s that are stacked on it, the top one first. -/
structure DiskImage where
  tables : List SectorTable
  base : RawDiskImage

namespace DiskImage

/-- `read( data, offset )`. -/
def readFrom : List SectorTable → RawDiskImage → Sector → Nat → Option (RawDiskImage × Sector × Int)
  | [], base, data, offset => base.read data offset
  | table :: below, base, data, offset =>
    let (base, size) := base.size
    if (offset : Int) > size then none
    else
      match table.find? offset with
      | none => readFrom below base data offset
      | some sector => some (base, sector, sectorSize)

def read (image : DiskImage) (data : Sector) (offset : Nat) : Option (DiskImage × Sector × Int) :=
  (readFrom image.tables image.base data offset).map fun (base, data, count) =>
    ({ image with base := base }, data, count)

def write (image : DiskImage) (data : Sector) (offset : Nat) : Option (DiskImage × Int) :=
  match image.tables with
  | [] => (image.base.write data offset).map fun (base, count) => ({ image with base := base }, count)
  | table :: below =>
    let (base, size) := image.base.size
    if (offset : Int) > size then none
    else some (⟨table.insert offset data :: below, base⟩, sectorSize)

end DiskImage

/-! ### Streams -/

/-- `SafeRead( stream, data, count )`: the bytes and the rest of the stream. -/
def safeRead (count : Nat) (stream : List UInt8) : Option (List UInt8 × List UInt8) :=
  if count ≤ stream.length then some (stream.take count, stream.drop count) else none

/-- The number that little-endian bytes stand for. -/
def numberOf : List UInt8 → Nat
  | [] => 0
  | byte :: rest => byte.toNat + 256 * numberOf rest

/-- The little-endian bytes of a number. -/
def bytesOfNumber : Nat → Nat → List UInt8
  | 0, _ => []
  | count + 1, number => .ofNat number :: bytesOfNumber count (number / 256)

/-- `SafeReadSwap( stream, data )`, for a number of `count` bytes. -/
def safeReadSwap (count : Nat) (stream : List UInt8) : Option (Nat × List UInt8) :=
  (safeRead count stream).map fun (data, rest) => (numberOf data, rest)

/-- `"COWDISK!"`. -/
def cowMagic : List UInt8 := [67, 79, 87, 68, 73, 83, 75, 33]

/-- `VersionMajor` and `VersionMinor`. -/
def versionMajor : Nat := 1
def versionMinor : Nat := 0

/-- The loop of `open`. -/
def readSectors : Nat → List UInt8 → SectorTable → Option SectorTable
  | 0, _, table => some table
  | count + 1, stream, table =>
    match safeReadSwap 8 stream with
    | none => none
    | some (offset, stream) =>
      if enough : sectorSize ≤ stream.length then
        if table.find? offset = none then
          readSectors count (stream.drop sectorSize)
            (table.insert offset ⟨stream.take sectorSize, List.length_take_of_le enough⟩)
        else none
      else none

/-- `open( file )`, from the sector count on. -/
def openBody (stream : List UInt8) : Option SectorTable :=
  match safeReadSwap 8 stream with
  | none => none
  | some (sectorCount, stream) => readSectors sectorCount stream .empty

/-- `open( file )`: the table. -/
def openTable (stream : List UInt8) : Option SectorTable :=
  match safeRead 8 stream with
  | none => none
  | some (magic, stream) =>
    if magic ≠ cowMagic then none
    else
      match safeReadSwap 4 stream with
      | none => none
      | some (major, stream) =>
        match safeReadSwap 4 stream with
        | none => none
        | some (minor, stream) =>
          if major ≠ versionMajor ∧ minor ≠ versionMinor then none else openBody stream

/-- What `save` writes for an entry of the table. -/
def saveSector (entry : Nat × Sector) : List UInt8 := bytesOfNumber 8 entry.1 ++ entry.2.1

/-- `save( file )`, with the entries in the order of the iteration. -/
def saveTable (entries : List (Nat × Sector)) : List UInt8 :=
  cowMagic ++ bytesOfNumber 4 versionMajor ++ bytesOfNumber 4 versionMinor ++ bytesOfNumber 8 entries.length ++
    entries.flatMap saveSector

/-! ### Copy-on-write images -/

/-- `class CowDiskImage`. -/
structure CowDiskImage where
  table : SectorTable
  child : DiskImage

/-- What is done with an image: `reopen` saves it and opens the file in a new image over the same child. -/
inductive DiskOp where
  | read (data : Sector) (offset : Nat)
  | write (data : Sector) (offset : Nat)
  | writeback
  | reopen

/-- What the caller gets: the buffer and the count of a read, the count of a write. -/
inductive DiskAnswer where
  | read (data : Sector) (count : Int)
  | write (count : Int)
  | done
  deriving DecidableEq

namespace CowDiskImage

variable (iterate : SectorTable → List (Nat × Sector)) (image : CowDiskImage)

/-- `initSectorTable( hash_size )`. -/
def create (child : DiskImage) : CowDiskImage := ⟨.empty, child⟩

/-- The image as one of the stack. -/
def toImage : DiskImage := ⟨image.table :: image.child.tables, image.child.base⟩

/-- The image after a change of what is below it, or of its table. -/
def ofImage (after : DiskImage) : CowDiskImage := ⟨after.tables.headD image.table, ⟨after.tables.tail, after.base⟩⟩

def writeback : Option CowDiskImage :=
  ((iterate image.table).foldlM (fun (child : DiskImage) entry => (child.write entry.2 entry.1).map Prod.fst)
    image.child).map fun child => { image with child := child }

/-- `save` of the image and `open` of the file. -/
def reopen : Option CowDiskImage :=
  (openTable (saveTable (iterate image.table))).map fun table => { image with table := table }

/-- One operation. -/
def perform : DiskOp → Option (CowDiskImage × DiskAnswer)
  | .read data offset =>
    (image.toImage.read data offset).map fun (after, data, count) => (image.ofImage after, .read data count)
  | .write data offset =>
    (image.toImage.write data offset).map fun (after, count) => (image.ofImage after, .write count)
  | .writeback => (image.writeback iterate).map (·, .done)
  | .reopen => (image.reopen iterate).map (·, .done)

end CowDiskImage

end Emas.Gem5

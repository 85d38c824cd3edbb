/-
**Dictionary compressors.**

`class DictionaryCompressor` of `mem/cache/compressors/dictionary_compressor.hh` and the compressors that are built on it.
Each value of a line is matched against patterns, with the entries of the dictionary one after the other; the smallest
pattern stands for it in the compressed data, and may allocate an entry.

* A dictionary entry, an array of bytes, is the value that `fromDictionaryEntry` makes of it. A line is a list of qwords,
  its values are those that the cast of the source finds in them.
* A pattern class is its `isPattern` and its constructor, a pattern carries its `decompress`.
* Where `addToDictionary` fails its assertion, or writes behind the end of the dictionary, there is no result. The statistics
  of the patterns are not part of the model.
-/

import Emas.Lib.Parity
import Mathlib.Data.Nat.Log
import Mathlib.Algebra.Group.Nat.Defs
import Mathlib.Algebra.Group.Int.Defs
import Mathlib.Algebra.GroupWithZero.Nat

namespace Emas.Gem5

open Bits

/-! ### Patterns -/

/-- `class Pattern`, for values of so many bits. -/
structure Pattern (w : Nat) where
  patternNumber : Nat
  code : UInt8
  length : UInt8
  numUnmatchedBits : UInt8
  matchLocation : Int
  allocate : Bool
  decompress : BitVec w → BitVec w

namespace Pattern

variable {w : Nat}

/-- `getMatchLocation( )`, a `uint8_t`. -/
def getMatchLocation (pattern : Pattern w) : Nat := (pattern.matchLocation % 256).toNat

def getSizeBits (pattern : Pattern w) : Nat := pattern.numUnmatchedBits.toNat + pattern.length.toNat

end Pattern

/-- A class of patterns: `isPattern( bytes, dict_bytes, match_location )`, and the constructor. -/
structure PatternClass (w : Nat) where
  isPattern : BitVec w → BitVec w → Int → Bool
  make : BitVec w → Int → Pattern w

namespace PatternClass

variable {w : Nat}

/-- `class UncompressedPattern`. -/
def uncompressed (number code metadataLength : Nat) : PatternClass w where
  isPattern _ _ _ := true
  make bytes matchLocation :=
    ⟨number, .ofNat code, .ofNat metadataLength, .ofNat w, matchLocation, true, fun _ => bytes⟩

/-- `class MaskedPattern`. -/
def masked (mask : BitVec w) (number code metadataLength : Nat) (allocate : Bool) : PatternClass w where
  isPattern bytes dictBytes matchLocation := 0 ≤ matchLocation && bytes &&& mask == dictBytes &&& mask
  make bytes matchLocation :=
    ⟨number, .ofNat code, .ofNat metadataLength, .ofNat (popCount (~~~ mask)), matchLocation, allocate,
      fun dictBytes => bytes &&& ~~~ mask ||| dictBytes &&& mask⟩

/-- `class MaskedValuePattern`. -/
def maskedValue (value mask : BitVec w) (number code metadataLength : Nat) (allocate : Bool) : PatternClass w where
  isPattern bytes _ _ := value &&& mask == bytes &&& mask
  make bytes matchLocation :=
    let pattern := (masked mask number code metadataLength allocate).make bytes matchLocation
    { pattern with decompress := fun _ => pattern.decompress value }

/-- `class LocatedMaskedPattern`: `allocate` is what it is by default. -/
def locatedMasked (mask : BitVec w) (location : Int) (number code metadataLength : Nat) : PatternClass w where
  isPattern bytes dictBytes matchLocation :=
    matchLocation == location && (masked mask number code metadataLength true).isPattern bytes dictBytes matchLocation
  make bytes matchLocation := (masked mask number code metadataLength true).make bytes matchLocation

/-- `class RepeatedValuePattern`, for a repeated value of so many bits. -/
def repeatedValue (repBits : Nat) (number code metadataLength : Nat) (allocate : Bool) : PatternClass w where
  isPattern bytes _ _ :=
    (List.range (w / repBits)).all fun i => (bytes >>> (repBits * i)).setWidth repBits == bytes.setWidth repBits
  make bytes matchLocation :=
    ⟨number, .ofNat code, .ofNat metadataLength, .ofNat repBits, matchLocation, allocate,
      fun _ => (List.range (w / repBits)).foldl
        (fun decompValue _ => decompValue <<< repBits ||| (bytes.setWidth repBits).setWidth w) 0⟩

def isValidDelta (deltaSizeBits : Nat) (bytes base : BitVec w) : Bool :=
  let limit : Int := if deltaSizeBits = 0 then 0 else 2 ^ (deltaSizeBits - 1) - 1
  let delta := (bytes - base).toInt
  decide (-limit ≤ delta ∧ delta ≤ limit)

/-- `class DeltaPattern`. -/
def delta (deltaSizeBits number code metadataLength : Nat) : PatternClass w where
  isPattern bytes dictBytes matchLocation := 0 ≤ matchLocation && isValidDelta deltaSizeBits bytes dictBytes
  make bytes matchLocation :=
    ⟨number, .ofNat code, .ofNat metadataLength, .ofNat deltaSizeBits, matchLocation, false, fun _ => bytes⟩

end PatternClass

/-- `struct Factory`: the classes that are tried in order, and the one that is taken if none of them matches. -/
structure PatternFactory (w : Nat) where
  heads : List (PatternClass w)
  last : PatternClass w

def PatternFactory.getPattern {w : Nat} (factory : PatternFactory w) (bytes dictBytes : BitVec w) (matchLocation : Int) :
    Pattern w :=
  ((factory.heads.find? fun head => head.isPattern bytes dictBytes matchLocation).getD factory.last).make bytes
    matchLocation

/-! ### The dictionary -/

/-- `dictionary` and `numEntries`. -/
structure Dictionary (w : Nat) where
  entries : List (BitVec w)
  numEntries : Nat
  deriving DecidableEq

namespace Dictionary

variable {w : Nat}

/-- `resetDictionary( )`. -/
def reset (dictionarySize : Nat) : Dictionary w := ⟨List.replicate dictionarySize 0, 0⟩

/-- `dictionary[numEntries++] = data`, if this is in it. -/
def append (dictionary : Dictionary w) (data : BitVec w) : Option (Dictionary w) :=
  if dictionary.numEntries < dictionary.entries.length then
    some ⟨dictionary.entries.set dictionary.numEntries data, dictionary.numEntries + 1⟩
  else none

end Dictionary

/-- `class DictionaryCompressor`, with what the classes that are derived from it give it. -/
structure DictionaryCompressor (w : Nat) where
  dictionarySize : Nat
  factory : PatternFactory w
  resetDictionary : Option (Dictionary w)
  addToDictionary : Dictionary w → BitVec w → Option (Dictionary w)

namespace DictionaryCompressor

variable {w : Nat} (compressor : DictionaryCompressor w)

/-- The pattern that is kept of two: the first, unless the other is smaller. -/
def smaller (pattern tempPattern : Pattern w) : Pattern w :=
  if tempPattern.getSizeBits < pattern.getSizeBits then tempPattern else pattern

/-- The pattern for a value: the loop of `compressValue` over the dictionary. -/
def findPattern (dictionary : Dictionary w) (bytes : BitVec w) : Pattern w :=
  (dictionary.entries.take dictionary.numEntries).zipIdx.foldl
    (fun pattern entry => smaller pattern (compressor.factory.getPattern bytes entry.1 entry.2))
    (compressor.factory.getPattern bytes 0 (-1))

/-- Allocates an entry, if the pattern asks for one. -/
def update (dictionary : Dictionary w) (pattern : Pattern w) (bytes : BitVec w) : Option (Dictionary w) :=
  if pattern.allocate then compressor.addToDictionary dictionary bytes else some dictionary

/-- `compressValue( data )` for the values of a line, one after the other: their patterns, and the dictionary. -/
def compressValues : Dictionary w → List (BitVec w) → Option (List (Pattern w) × Dictionary w)
  | dictionary, [] => some ([], dictionary)
  | dictionary, data :: rest =>
    let pattern := compressor.findPattern dictionary data
    (compressor.update dictionary pattern data).bind fun dictionary =>
      (compressValues dictionary rest).map fun (patterns, final) => (pattern :: patterns, final)

def compress (values : List (BitVec w)) : Option (List (Pattern w) × Dictionary w) :=
  compressor.resetDictionary.bind fun dictionary => compressor.compressValues dictionary values

/-- `decompressValue( pattern )`, with the dictionary after it. -/
def decompressValue (dictionary : Dictionary w) (pattern : Pattern w) : Option (BitVec w × Dictionary w) :=
  dictionary.entries[pattern.getMatchLocation]?.bind fun entry =>
    let data := pattern.decompress entry
    (compressor.update dictionary pattern data).map fun dictionary => (data, dictionary)

end DictionaryCompressor

/-- `(T*) data`: the values of so many bits in a line. -/
def valuesOf (w : Nat) (line : List (BitVec 64)) : List (BitVec w) :=
  line.flatMap fun (qword : BitVec 64) => (List.range (64 / w)).map fun i => (qword >>> (w * i)).setWidth w

/-- What `compress( data, comp_lat, decomp_lat )` gives: the patterns and their size, and the latencies. -/
structure CompressedLine (w : Nat) where
  entries : List (Pattern w)
  sizeBits : Nat
  compLat : Nat
  decompLat : Nat

def sizeOfPatterns {w : Nat} (patterns : List (Pattern w)) : Nat := (patterns.map Pattern.getSizeBits).sum

/-- `blkSize` of a line. -/
def blkSizeOf (line : List (BitVec 64)) : Nat := 8 * line.length

/-! ### `class CPack` -/

namespace CPack

def patternZZZZ : PatternClass 32 := .maskedValue 0 0xFFFFFFFF 0 0x0 2 false
def patternXXXX : PatternClass 32 := .uncompressed 1 0x1 2
def patternMMMM : PatternClass 32 := .masked 0xFFFFFFFF 2 0x2 6 true
def patternMMXX : PatternClass 32 := .masked 0xFFFF0000 3 0xC 8 true
def patternZZZX : PatternClass 32 := .maskedValue 0 0xFFFFFF00 4 0xD 4 false
def patternMMMX : PatternClass 32 := .masked 0xFFFFFF00 5 0xE 8 true

def compressor (dictionarySize : Nat) : DictionaryCompressor 32 where
  dictionarySize := dictionarySize
  factory := ⟨[patternZZZZ, patternMMMM, patternZZZX, patternMMMX, patternMMXX], patternXXXX⟩
  resetDictionary := some (.reset dictionarySize)
  addToDictionary := Dictionary.append

def compress (dictionarySize : Nat) (line : List (BitVec 64)) : Option (CompressedLine 32) :=
  ((compressor dictionarySize).compress (valuesOf 32 line)).map fun (patterns, _) =>
    ⟨patterns, sizeOfPatterns patterns, blkSizeOf line / 8 + 5, blkSizeOf line / 8⟩

end CPack

/-! ### `class FPCD` -/

namespace FPCD

def prefixSize : Nat := 4
def previousIndex : Nat := 1
def penultimateIndex : Nat := 0

def patternZZZZ : PatternClass 32 := .maskedValue 0 0xFFFFFFFF 0 0x0 prefixSize true
def patternFFFF : PatternClass 32 := .maskedValue 0xFFFFFFFF 0xFFFFFFFF 1 0x1 prefixSize true
def patternMMMMPenultimate : PatternClass 32 := .locatedMasked 0xFFFFFFFF penultimateIndex 2 0x3 prefixSize
def patternMMMMPrevious : PatternClass 32 := .locatedMasked 0xFFFFFFFF previousIndex 3 0x2 prefixSize
def patternZZZX : PatternClass 32 := .maskedValue 0 0xFFFFFF00 4 0x4 prefixSize true
def patternXZZZ : PatternClass 32 := .maskedValue 0 0x00FFFFFF 5 0x5 prefixSize true
def patternRRRR : PatternClass 32 := .repeatedValue 8 6 0x6 prefixSize true
def patternMMMXPenultimate : PatternClass 32 := .locatedMasked 0xFFFFFF00 penultimateIndex 7 0x8 prefixSize
def patternMMMXPrevious : PatternClass 32 := .locatedMasked 0xFFFFFF00 previousIndex 8 0x7 prefixSize
def patternZZXX : PatternClass 32 := .maskedValue 0 0xFFFF0000 9 0x9 prefixSize true
def patternZXZX : PatternClass 32 := .maskedValue 0 0xFF00FF00 10 0xA prefixSize true
def patternFFXX : PatternClass 32 := .maskedValue 0xFFFFFFFF 0xFFFF0000 11 0xB prefixSize true
def patternXXZZ : PatternClass 32 := .maskedValue 0 0x0000FFFF 12 0xC prefixSize true
def patternMMXXPenultimate : PatternClass 32 := .locatedMasked 0xFFFF0000 penultimateIndex 13 0xE prefixSize
def patternMMXXPrevious : PatternClass 32 := .locatedMasked 0xFFFF0000 previousIndex 14 0xD prefixSize
def patternXXXX : PatternClass 32 := .uncompressed 15 0xF prefixSize

def addToDictionary (dictionary : Dictionary 32) (data : BitVec 32) : Option (Dictionary 32) :=
  if dictionary.numEntries = 2 then
    let moved := dictionary.entries.set penultimateIndex (dictionary.entries.getD previousIndex 0)
    some { dictionary with entries := moved.set previousIndex data }
  else dictionary.append data

def compressor (dictionarySize : Nat) : DictionaryCompressor 32 where
  dictionarySize := dictionarySize
  factory :=
    ⟨[patternZZZZ, patternFFFF, patternMMMMPrevious, patternMMMMPenultimate, patternZZZX, patternXZZZ, patternRRRR,
      patternMMMXPrevious, patternMMMXPenultimate, patternZZXX, patternZXZX, patternFFXX, patternXXZZ, patternMMXXPrevious,
      patternMMXXPenultimate], patternXXXX⟩
  resetDictionary := some (.reset dictionarySize)
  addToDictionary := addToDictionary

def compress (dictionarySize : Nat) (line : List (BitVec 64)) : Option (CompressedLine 32) :=
  ((compressor dictionarySize).compress (valuesOf 32 line)).map fun (patterns, _) =>
    ⟨patterns, sizeOfPatterns patterns, blkSizeOf line / 2, 4⟩

end FPCD

/-! ### `class ZeroCompressor` -/

namespace ZeroCompressor

def patternX : PatternClass 64 := .uncompressed 0 0 1
def patternZ : PatternClass 64 := .maskedValue 0 0xFFFFFFFFFFFFFFFF 1 1 1 false

def compressor (dictionarySize : Nat) : DictionaryCompressor 64 where
  dictionarySize := dictionarySize
  factory := ⟨[patternZ], patternX⟩
  resetDictionary := some (.reset dictionarySize)
  addToDictionary := Dictionary.append

def compress (dictionarySize : Nat) (line : List (BitVec 64)) : Option (CompressedLine 64) :=
  ((compressor dictionarySize).compress (valuesOf 64 line)).map fun (patterns, dictionary) =>
    ⟨patterns, if dictionary.numEntries > 0 then blkSizeOf line * 8 else sizeOfPatterns patterns, 1, 1⟩

end ZeroCompressor

/-! ### `class RepeatedQwordsCompressor` -/

namespace RepeatedQwordsCompressor

def patternX : PatternClass 64 := .uncompressed 0 0 0
def patternM : PatternClass 64 := .locatedMasked 0xFFFFFFFFFFFFFFFF 0 1 1 0

def compressor (dictionarySize : Nat) : DictionaryCompressor 64 where
  dictionarySize := dictionarySize
  factory := ⟨[patternM], patternX⟩
  resetDictionary := some (.reset dictionarySize)
  addToDictionary := Dictionary.append

def compress (dictionarySize : Nat) (line : List (BitVec 64)) : Option (CompressedLine 64) :=
  ((compressor dictionarySize).compress (valuesOf 64 line)).bind fun (patterns, dictionary) =>
    if dictionary.numEntries ≥ 1 then
      some ⟨patterns, if dictionary.numEntries > 1 then blkSizeOf line * 8 else sizeOfPatterns patterns, 1, 1⟩
    else none

end RepeatedQwordsCompressor

/-! ### `class BaseDelta` -/

namespace BaseDelta

def defaultMaxNumBases : Nat := 2

variable (w deltaSizeBits : Nat)

def patternX : PatternClass w := .uncompressed 0 0 (Nat.clog 2 defaultMaxNumBases + deltaSizeBits)
def patternM : PatternClass w := .delta deltaSizeBits 1 1 (Nat.clog 2 defaultMaxNumBases)

def compressor (dictionarySize : Nat) : DictionaryCompressor w where
  dictionarySize := dictionarySize
  factory := ⟨[patternM w deltaSizeBits], patternX w deltaSizeBits⟩
  -- the zero base
  resetDictionary := (Dictionary.reset dictionarySize).append 0
  addToDictionary := Dictionary.append

def compress (dictionarySize : Nat) (line : List (BitVec 64)) : Option (CompressedLine w) :=
  ((compressor w deltaSizeBits dictionarySize).compress (valuesOf w line)).map fun (patterns, dictionary) =>
    let diff : Int := defaultMaxNumBases - dictionary.numEntries
    let sizeBits :=
      if diff < 0 then blkSizeOf line * 8
      else if diff > 0 then sizeOfPatterns patterns + w * diff.toNat
      else sizeOfPatterns patterns
    ⟨patterns, sizeBits, 1 + blkSizeOf line / (w / 8), 1⟩

end BaseDelta

end Emas.Gem5

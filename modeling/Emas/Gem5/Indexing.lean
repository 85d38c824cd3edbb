/-
**Indexing policies.**

`BaseIndexingPolicy`, `SetAssociative` and `SkewedAssociative` of `mem/cache/tags/indexing_policies`. A policy says which
set an address has in each way, and computes the address of an entry back from its tag, its set and its way.

* `size` is of 64 bits, the other parameters are of 32: the size of a set is computed modulo `2 ^ 32`, and so is the
  number of sets. A division by zero, an assertion of `floorLog2`, `fatal` and `panic` end the program: the constructors
  return the check that failed.
* Sets and ways are of 32 bits, and a set that is shifted stays of 32 bits.
* The shifts of an accepted policy are all by less than the width. `insertBits` of a single bit is `setBit`, and
  `bits` of a single bit is a truth value.
-/

import Emas.Gem5.IntMath
import Emas.Gem5.IntlvBits

namespace Emas.Gem5

open Bits AddrRange

/-- The parameters of a policy. -/
structure IndexingParams where
  size : Nat
  entrySize : Nat
  assoc : Nat
  size_lt : size < 2 ^ 64
  entrySize_lt : entrySize < 2 ^ 31
  assoc_lt : assoc < 2 ^ 31

/-- `class BaseIndexingPolicy`, without the entries. -/
structure BaseIndexingPolicy where
  assoc : Nat
  numSets : Nat
  setShift : Nat
  setMask : BitVec 32
  tagShift : Nat

/-- The checks of the constructors. -/
inductive BaseIndexingPolicy.Fatal where
  | divisionByZero
  | logarithmOfZero
  | numSetsPowerOf2
  | associativity
  | tooManyBits
  | tooFewSets
  deriving DecidableEq, Repr

/-- `BaseIndexingPolicy( p )`. -/
def BaseIndexingPolicy.create (p : IndexingParams) : Except Fatal BaseIndexingPolicy :=
  let setSize := p.entrySize * p.assoc % 2 ^ 32
  if setSize = 0 then .error .divisionByZero
  else
    let numSets := p.size / setSize % 2 ^ 32
    if p.entrySize = 0 ∨ numSets = 0 then .error .logarithmOfZero
    else if !isPowerOf2 numSets then .error .numSetsPowerOf2
    else if p.assoc = 0 then .error .associativity
    else .ok {
      assoc := p.assoc
      numSets := numSets
      setShift := p.entrySize.log2
      setMask := BitVec.ofNat 32 (numSets - 1)
      tagShift := p.entrySize.log2 + numSets.log2 }

namespace BaseIndexingPolicy

variable (policy : BaseIndexingPolicy)

def extractTag (addr : Addr) : Addr := addr >>> policy.tagShift

end BaseIndexingPolicy

/-! ### Set associative -/

/-- `class SetAssociative`. -/
structure SetAssociative extends BaseIndexingPolicy

/-- `SetAssociative( p )`. -/
def SetAssociative.create (p : IndexingParams) : Except BaseIndexingPolicy.Fatal SetAssociative :=
  (BaseIndexingPolicy.create p).map fun base => ⟨base⟩

namespace SetAssociative

variable (policy : SetAssociative)

def extractSet (addr : Addr) : BitVec 32 := (addr >>> policy.setShift).setWidth 32 &&& policy.setMask

/-- `regenerateAddr( tag, entry )`, for the set of the entry. -/
def regenerateAddr (tag : Addr) (set : BitVec 32) : Addr :=
  tag <<< policy.tagShift ||| (set <<< policy.setShift).setWidth 64

end SetAssociative

/-! ### Skewed associative -/

def bits (val : Addr) (first last : Nat) : Addr := val >>> last &&& ones (first + 1 - last)

/-- `class SkewedAssociative`. -/
structure SkewedAssociative extends BaseIndexingPolicy where
  msbShift : Nat

def numSkewingFunctions : Nat := 8

/-- `SkewedAssociative( p )`. `msbShift + 1` is `floorLog2( numSets )`. -/
def SkewedAssociative.create (p : IndexingParams) : Except BaseIndexingPolicy.Fatal SkewedAssociative :=
  match BaseIndexingPolicy.create p with
  | .error fatal => .error fatal
  | .ok base =>
    if base.setShift + 2 * base.numSets.log2 > 64 then .error .tooManyBits
    else if base.numSets ≤ 2 then .error .tooFewSets
    else .ok { base with msbShift := base.numSets.log2 - 1 }

namespace SkewedAssociative

variable (policy : SkewedAssociative)

def hash (addr : Addr) : Addr :=
  let lsb := addr.getLsbD 0
  let msb := addr.getLsbD policy.msbShift
  setBit (addr >>> 1) policy.msbShift (msb ^^ lsb)

def dehash (addr : Addr) : Addr :=
  let msb := addr.getLsbD (policy.msbShift - 1)
  let xorBit := addr.getLsbD policy.msbShift
  let addrNoMsb := addr &&& ones policy.msbShift
  setBit (addrNoMsb <<< 1) 0 (msb ^^ xorBit)

/-- The function of the way, on the two parts of an address. -/
def skewing (way : Nat) (addr1 addr2 : Addr) : Addr :=
  match way % numSkewingFunctions with
  | 0 => policy.hash addr1 ^^^ policy.hash addr2 ^^^ addr2
  | 1 => policy.hash addr1 ^^^ policy.hash addr2 ^^^ addr1
  | 2 => policy.hash addr1 ^^^ policy.dehash addr2 ^^^ addr2
  | 3 => policy.hash addr1 ^^^ policy.dehash addr2 ^^^ addr1
  | 4 => policy.dehash addr1 ^^^ policy.hash addr2 ^^^ addr2
  | 5 => policy.dehash addr1 ^^^ policy.hash addr2 ^^^ addr1
  | 6 => policy.dehash addr1 ^^^ policy.dehash addr2 ^^^ addr2
  | _ => policy.dehash addr1 ^^^ policy.dehash addr2 ^^^ addr1

def skew (addr : Addr) (way : Nat) : Addr :=
  let addr1 := bits addr policy.msbShift 0
  let addr2 := bits addr (2 * (policy.msbShift + 1) - 1) (policy.msbShift + 1)
  policy.hash^[way / numSkewingFunctions] (policy.skewing way addr1 addr2)

/-- What takes the skewing function of a way back. -/
def deskewing (way : Nat) (addr1 addr2 : Addr) : Addr :=
  match way % 8 with
  | 0 => policy.dehash (addr1 ^^^ policy.hash addr2 ^^^ addr2)
  | 1 => policy.hash^[policy.msbShift] (addr1 ^^^ policy.hash addr2)
  | 2 => policy.dehash (addr1 ^^^ policy.dehash addr2 ^^^ addr2)
  | 3 => policy.hash^[policy.msbShift] (addr1 ^^^ policy.dehash addr2)
  | 4 => policy.hash (addr1 ^^^ policy.hash addr2 ^^^ addr2)
  | 5 => policy.hash^[policy.msbShift + 1] (addr1 ^^^ policy.hash addr2)
  | 6 => policy.hash (addr1 ^^^ policy.dehash addr2 ^^^ addr2)
  | _ => policy.hash^[policy.msbShift + 1] (addr1 ^^^ policy.dehash addr2)

def deskew (addr : Addr) (way : Nat) : Addr :=
  let addr1 := bits addr policy.msbShift 0
  let addr2 := bits addr (2 * (policy.msbShift + 1) - 1) (policy.msbShift + 1)
  let addr1 :=
    if way ≥ numSkewingFunctions then policy.dehash^[way / numSkewingFunctions] addr1 else addr1
  policy.deskewing way addr1 addr2

def extractSet (addr : Addr) (way : Nat) : BitVec 32 :=
  (policy.skew (addr >>> policy.setShift) way &&& policy.setMask.setWidth 64).setWidth 32

/-- `regenerateAddr( tag, entry )`, for the set and the way of the entry. -/
def regenerateAddr (tag : Addr) (set : BitVec 32) (way : Nat) : Addr :=
  let addrSet := tag <<< (policy.msbShift + 1) ||| set.setWidth 64
  tag <<< policy.tagShift ||| (policy.deskew addrSet way &&& policy.setMask.setWidth 64) <<< policy.setShift

end SkewedAssociative

/-! ### Either of them -/

/-- An indexing policy of either kind. -/
inductive IndexingPolicy where
  | setAssociative (policy : SetAssociative)
  | skewedAssociative (policy : SkewedAssociative)

namespace IndexingPolicy

/-- A policy that a constructor accepts, for entries whose size is a power of two. -/
inductive Accepted (p : IndexingParams) : IndexingPolicy → Prop where
  | setAssociative {policy : SetAssociative} (power : isPowerOf2 p.entrySize)
      (created : SetAssociative.create p = .ok policy) : Accepted p (setAssociative policy)
  | skewedAssociative {policy : SkewedAssociative} (power : isPowerOf2 p.entrySize)
      (created : SkewedAssociative.create p = .ok policy) : Accepted p (skewedAssociative policy)

/-- What the policies share. -/
def base : IndexingPolicy → BaseIndexingPolicy
  | setAssociative policy => policy.toBaseIndexingPolicy
  | skewedAssociative policy => policy.toBaseIndexingPolicy

variable (policy : IndexingPolicy)

def extractTag (addr : Addr) : Addr := policy.base.extractTag addr

def extractSet (addr : Addr) (way : Nat) : BitVec 32 :=
  match policy with
  | setAssociative policy => policy.extractSet addr
  | skewedAssociative policy => policy.extractSet addr way

def regenerateAddr (tag : Addr) (set : BitVec 32) (way : Nat) : Addr :=
  match policy with
  | setAssociative policy => policy.regenerateAddr tag set
  | skewedAssociative policy => policy.regenerateAddr tag set way

end IndexingPolicy

end Emas.Gem5

/-
**Address ranges.**

`class AddrRange` of `base/addr_range.hh`, with what it uses of `base/bitfield.hh`. A range is an interval of addresses
and a list of masks; each mask selects, by the parity of the bits it reads, one bit of the stripe that an address
belongs to. `removeIntlvBits` takes the lowest bit of every mask out of an address, `addIntlvBits` is to put them
back.

* An address is a bit vector, `int` is `Int`. A shift by a negative amount or by more than the width is undefined;
  a function that makes one has no result (`none`).
* `fatal` and `panic` end the program: the constructors return the check that failed, and `intersects` and `isSubset`
  have no result for the ranges that they refuse.
-/

import Emas.Lib.Parity
import Mathlib.Data.List.Sort
import Mathlib.Algebra.Group.Nat.Defs

namespace Emas.Gem5

open Bits

/-- `typedef uint64_t Addr`. -/
abbrev Addr := BitVec 64

/-! ### Bit fields -/

/-- `mask( nbits )`: that many ones. -/
def mask (nbits : Int) : Option Addr :=
  if nbits = 64 then some (BitVec.allOnes 64)
  else if 0 ≤ nbits ∧ nbits < 64 then some (1#64 <<< nbits.toNat - 1#64)
  else none

def insertBits (val : Addr) (first last : Int) (bitVal : Addr) : Option Addr :=
  if 0 ≤ last ∧ last < 64 then
    (mask (first - last + 1)).map fun (ones : Addr) =>
      let bmask := ones <<< last.toNat
      bitVal <<< last.toNat &&& bmask ||| val &&& ~~~ bmask
  else none

def ctz64 (value : Addr) : Nat := ((List.range 64).find? value.getLsbD).getD 64

/-- `~(1 << lsb)` as an address: the shift is one of `int`, and the result is extended with its sign. -/
def notShifted (lsb : Nat) : Option Addr :=
  if lsb < 31 then some (~~~ bitAt 64 lsb)
  else if lsb = 31 then some 0x7fffffff#64
  else none

/-! ### Ranges -/

/-- `class AddrRange`. -/
structure AddrRange where
  startAddr : Addr
  endAddr : Addr
  masks : List Addr
  intlvMatch : UInt8
  deriving DecidableEq

/-- The checks of the constructors. -/
inductive AddrRange.Fatal where
  | matchDoesNotFit
  | sameHighBit
  | xorTooClose
  | intlvTooClose
  | undefinedShift
  | rangeCount
  | cannotMerge
  | unexpectedMatch
  deriving DecidableEq, Repr

namespace AddrRange

variable (range : AddrRange)

def interleaved : Bool := 0 < range.masks.length

def size : Addr := (range.endAddr - range.startAddr) >>> range.masks.length

/-- `granularity( )`. The masks are combined in an `int`, which keeps their low 32 bits and extends the sign. -/
def granularity : Addr :=
  if range.interleaved then
    let combined := range.masks.foldl (fun combined mask => combined ||| mask.truncate 32) 0#32
    1#64 <<< ctz64 (combined.signExtend 64)
  else range.size

/-- The bits that the masks select from an address: `sel`. -/
def selector (masks : List Addr) (a : Addr) : Nat :=
  masks.zipIdx.foldl (fun sel entry => sel ||| (popCount (a &&& entry.1) % 2) <<< entry.2) 0

/-- `contains( a )`, for an address. -/
def contains (a : Addr) : Bool :=
  if range.startAddr ≤ a ∧ a < range.endAddr then selector range.masks a = range.intlvMatch.toNat else false

def mergesWith (r : AddrRange) : Bool :=
  r.startAddr = range.startAddr ∧ r.endAddr = range.endAddr ∧ r.masks = range.masks

def intersects (r : AddrRange) : Option Bool :=
  if range.startAddr ≥ r.endAddr ∨ range.endAddr ≤ r.startAddr then some false
  else if !range.interleaved && !r.interleaved then some true
  else if r.size = 1 then some (range.contains r.startAddr)
  else if range.mergesWith r then some (range.intlvMatch = r.intlvMatch)
  else none

def isSubset (r : AddrRange) : Option Bool :=
  if range.interleaved then none
  else if r.interleaved then
    some (r.contains range.startAddr && r.contains (range.endAddr - 1) && range.size ≤ r.granularity)
  else some (range.startAddr ≥ r.startAddr ∧ range.endAddr ≤ r.endAddr)

/-! ### Constructors -/

/-- The mask of round `i` of the legacy constructor: its bits are counted down in `uint8_t`. -/
def legacyMask (intlvHighBit xorHighBit : UInt8) (i : Nat) : Option Addr :=
  let bit1 := intlvHighBit - UInt8.ofNat i
  let bit2 := xorHighBit - UInt8.ofNat i
  if bit1.toNat < 64 ∧ (xorHighBit = 0 ∨ bit2.toNat < 64) then
    some (if xorHighBit = 0 then bitAt 64 bit1.toNat else bitAt 64 bit1.toNat ||| bitAt 64 bit2.toNat)
  else none

/-- The masks of the legacy constructor: round `i` sets `masks[_intlv_bits - i - 1]`. -/
def legacyMasks (intlvHighBit xorHighBit : UInt8) (intlvBits : Nat) : Option (List Addr) :=
  (List.range intlvBits).mapM fun index => legacyMask intlvHighBit xorHighBit (intlvBits - index - 1)

/-- The distance that the legacy constructor demands of the interleaving and the XOR bits. -/
def checkXor (intlvHighBit xorHighBit intlvBits : UInt8) : Option Fatal :=
  if intlvBits ≠ 0 ∧ xorHighBit ≠ 0 then
    if xorHighBit = intlvHighBit then some .sameHighBit
    else if xorHighBit > intlvHighBit then
      if xorHighBit.toNat - intlvHighBit.toNat < intlvBits.toNat then some .xorTooClose else none
    else if intlvHighBit.toNat - xorHighBit.toNat < intlvBits.toNat then some .intlvTooClose
    else none
  else none

/-- `AddrRange( _start, _end, _intlv_high_bit, _xor_high_bit, _intlv_bits, _intlv_match )`. -/
def legacy (startAddr endAddr : Addr) (intlvHighBit xorHighBit intlvBits intlvMatch : UInt8) : Except Fatal AddrRange :=
  if 64 ≤ intlvBits.toNat then .error .undefinedShift
  else if intlvBits ≠ 0 ∧ intlvMatch.toNat ≥ 2 ^ intlvBits.toNat then .error .matchDoesNotFit
  else
    match checkXor intlvHighBit xorHighBit intlvBits with
    | some fatal => .error fatal
    | none =>
      match legacyMasks intlvHighBit xorHighBit intlvBits.toNat with
      | none => .error .undefinedShift
      | some masks => .ok ⟨startAddr, endAddr, masks, intlvMatch⟩

def mergeLoop (first : AddrRange) : List AddrRange → UInt8 → Option Fatal
  | [], _ => none
  | r :: rest, intlvMatch =>
    if !first.mergesWith r then some .cannotMerge
    else if r.intlvMatch ≠ intlvMatch then some .unexpectedMatch
    else mergeLoop first rest (intlvMatch + 1)

/-- `AddrRange( ranges )`. -/
def merge : List AddrRange → Except Fatal AddrRange
  | [] => .ok ⟨1, 0, [], 0⟩
  | [first] => .ok first
  | first :: rest =>
    if (first :: rest).length ≠ 2 ^ first.masks.length then .error .rangeCount
    else
      match mergeLoop first (first :: rest) 0 with
      | some fatal => .error fatal
      | none => .ok { first with masks := [], intlvMatch := 0 }

/-! ### Interleaving bits -/

/-- `masks_lsb`, sorted. -/
def masksLsb (masks : List Addr) : List Nat := (masks.map ctz64).insertionSort (· ≤ ·)

/-- One round of the loop of `removeIntlvBits`. -/
def removeStep (a : Addr) (entry : Nat × Nat) : Option Addr :=
  if entry.1 > 0 then insertBits (a >>> 1) ((entry.1 : Int) - entry.2 - 1) 0 a else some (a >>> 1)

def removeIntlvBits (a : Addr) : Option Addr := (masksLsb range.masks).zipIdx.foldlM removeStep a

/-- One round of the first loop of `addIntlvBits`. -/
def addStep (a : Addr) (entry : Nat × Nat) : Option Addr :=
  if entry.1 > 0 then insertBits (a <<< 1) ((entry.1 : Int) + entry.2 - 1) 0 a else some (a <<< 1)

/-- One round of the second loop of `addIntlvBits`: the lowest bit of a mask. -/
def selectStep (a : Addr) (entry : Addr × Nat) : Option Addr :=
  let lsb := ctz64 entry.1
  let intlvBit : Nat := if range.intlvMatch.toNat.testBit entry.2 then 1 else 0
  (notShifted lsb).bind fun others =>
    let masked := a &&& entry.1 &&& others
    insertBits a lsb lsb (BitVec.ofNat 64 (intlvBit ^^^ popCount masked))

def addIntlvBits (a : Addr) : Option Addr :=
  ((masksLsb range.masks).zipIdx.foldlM addStep a).bind fun a => range.masks.zipIdx.foldlM range.selectStep a

def maxAddr : Addr := BitVec.allOnes 64

def getOffset (a : Addr) : Option Addr :=
  if range.startAddr ≤ a ∧ a < range.endAddr then
    if range.interleaved then
      (range.removeIntlvBits a).bind fun offset =>
        (range.removeIntlvBits range.startAddr).map fun base => offset - base
    else some (a - range.startAddr)
  else some maxAddr

end AddrRange

/-! ### The order of addresses

The order of addresses, for maps with addresses as keys.
-/

/-- The order of the keys of a `std::map` over addresses. -/
instance : LinearOrder Addr where
  le_refl := BitVec.le_refl
  le_trans _ _ _ := BitVec.le_trans
  le_antisymm _ _ := BitVec.le_antisymm
  le_total := BitVec.le_total
  lt_iff_le_not_ge _ _ := by rw [BitVec.le_def, BitVec.le_def, BitVec.lt_def]; omega
  toDecidableLE := inferInstance
  toDecidableLT := inferInstance

end Emas.Gem5

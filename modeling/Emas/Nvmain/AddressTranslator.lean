/-
**Address translation: `TranslationMethod` and `AddressTranslator`.**

A physical address has, above the offset into a burst, one field for each `MemoryPartition`, packed in
the order a scheme string such as `R:RK:BK:CH:C` lists them from high to low. `setAddressMappingScheme`
is the parser, with the numbering of the fields it does not find; `translate` peels the fields off an
address, `reverseTranslate` puts them together. Both ask `findOrder` for the field of each position.

Addresses, counts and fields are `uint64_t`, so sums, products and left shifts are taken modulo `2^64`
(a shift by a width is a product with a power of two; no width reaches `64`). The widths are computed
by `mlog2` from the counts, through a conversion to `int`: `toInt`. The scheme is copied into a buffer
of 16 characters; `none` stands for an overflow of the buffer, and for a write through
`partitions[MEM_UNKNOWN]`. What the functions print is left out.
-/

import Mathlib.Logic.Function.Basic
import Mathlib.Algebra.Group.Nat.Defs
import Mathlib.Algebra.Group.Int.Defs

namespace Emas.Nvmain

/-- `enum MemoryPartition`, less `MEM_UNKNOWN`. -/
inductive MemoryPartition where
  | row
  | col
  | bank
  | rank
  | channel
  | subarray
  deriving DecidableEq, Repr

namespace MemoryPartition

/-- The partitions in the order of the enumeration, which is that of the tests in `FindOrder`. -/
def all : List MemoryPartition := [row, col, bank, rank, channel, subarray]

/-- The token of a scheme string. -/
def token : MemoryPartition → List Char
  | row => ['R']
  | col => ['C']
  | bank => ['B', 'K']
  | rank => ['R', 'K']
  | channel => ['C', 'H']
  | subarray => ['S', 'A']

def ofToken (text : List Char) : Option MemoryPartition := all.find? (·.token = text)

end MemoryPartition

open MemoryPartition

/-! ### Widths -/

/-- The conversion of a `uint64_t` to an `int`. -/
def toInt (value : Nat) : Int :=
  let low : Nat := value % 2 ^ 32
  if low < 2 ^ 31 then (low : Int) else (low : Int) - 2 ^ 32

/-- The loop of `mlog2` on a positive `int`, which has at most 31 bits. -/
def mlog2Loop : Nat → Nat → Int → Int
  | 0, _, retVal => retVal
  | bits + 1, newNum, retVal => if newNum = 0 then retVal else mlog2Loop bits (newNum / 2) (retVal + 1)

def mlog2 (num : Int) : Nat := if num < 2 then 0 else (mlog2Loop 32 num.toNat (-1)).toNat

/-! ### The translation method -/

/-- `class TranslationMethod`. -/
structure TranslationMethod where
  bitWidths : MemoryPartition → Nat
  count : MemoryPartition → Nat
  order : MemoryPartition → Int

namespace TranslationMethod

/-- `SetBitWidths` and `SetCount` as `SetConfig` calls them, on the counts of the configuration. -/
def setCounts (method : TranslationMethod) (counts : MemoryPartition → Nat) : TranslationMethod :=
  { method with bitWidths := fun part => mlog2 (toInt (counts part)), count := counts }

/-- `SetOrder( row, col, bank, rank, channel, subarray )`. -/
def setOrder (method : TranslationMethod) (orders : MemoryPartition → Int) : TranslationMethod :=
  { method with order := fun part => orders part - 1 }

/-- `TranslationMethod( )`. -/
def create : TranslationMethod where
  bitWidths
    | row => 10
    | col => 8
    | bank => 3
    | rank => 1
    | channel => 1
    | subarray => 6
  count := fun _ => 0
  order
    | row => 3
    | col => 0
    | bank => 2
    | rank => 4
    | channel => 5
    | subarray => 1

/-- Successive calls of `strtok_r( ..., ":", ... )`: the non-empty pieces between the colons. -/
def strtok (text : List Char) : List (List Char) := (text.splitOn ':').filter (· ≠ [])

/-- The loop over the tokens: each gives its partition the current order. -/
def parse : List (List Char) → (MemoryPartition → Int) × Int → (MemoryPartition → Int) × Int
  | [], state => state
  | token :: rest, (orders, currentOrder) =>
    match ofToken token with
    | some part => parse rest (Function.update orders part currentOrder, currentOrder - 1)
    | none => parse rest (orders, currentOrder - 1)

/-- The orders of the partitions that no token names. -/
def fill : List MemoryPartition → (MemoryPartition → Int) × Int → (MemoryPartition → Int) × Int
  | [], state => state
  | part :: rest, (orders, currentOrder) =>
    if orders part = 0 then
      fill rest (Function.update orders part currentOrder, currentOrder - 1)
    else fill rest (orders, currentOrder)

/-- The sequence in which `SetAddressMappingScheme` sets what is unset. -/
def unset : List MemoryPartition := [subarray, channel, rank, bank, row, col]

/-- `SetAddressMappingScheme( scheme )`. -/
def setAddressMappingScheme (method : TranslationMethod) (scheme : String) : Option TranslationMethod :=
  if scheme.length < 16 then
    some (method.setOrder (fill unset (parse (strtok scheme.toList) (fun _ => 0, 6))).1)
  else none

end TranslationMethod

/-! ### The translator -/

/-- `class AddressTranslator`, with its method. -/
structure AddressTranslator where
  method : TranslationMethod
  busWidth : Nat
  burstLength : Nat

namespace AddressTranslator

/-- `a + b`, `a * b` on `uint64_t`. -/
def add64 (a b : Nat) : Nat := (a + b) % 2 ^ 64

def mul64 (a b : Nat) : Nat := a * b % 2 ^ 64

/-- `a << bits` on `uint64_t`. -/
def shl64 (a bits : Nat) : Nat := a * 2 ^ bits % 2 ^ 64

/-- `a >> bits` on `uint64_t`. -/
def shr64 (a bits : Nat) : Nat := a / 2 ^ bits

variable (translator : AddressTranslator)

def busOffsetBits : Nat := mlog2 (translator.busWidth / 8 : Nat)

def burstBits : Nat := mlog2 (translator.busWidth * translator.burstLength / 8 : Nat)

def lowColBits : Nat := translator.burstBits - translator.busOffsetBits

/-- `FindOrder( order, &part )`; `none` is `MEM_UNKNOWN`. -/
def findOrder (order : Int) : Option MemoryPartition :=
  all.find? (translator.method.order · = order)

/-- `Divide( partSize, partition )`. -/
def divide (partSize : Nat) (part : MemoryPartition) : Nat :=
  shr64 partSize (translator.method.bitWidths part)

/-- `Modulo( partialAddr, partition )`. -/
def modulo (partialAddr : Nat) (part : MemoryPartition) : Nat :=
  partialAddr % shl64 1 (translator.method.bitWidths part)

/-- The loop of `Translate`, over the positions from low to high. -/
def translateLoop : List Int → Nat → (MemoryPartition → Nat) → Option (MemoryPartition → Nat)
  | [], _, partitions => some partitions
  | order :: rest, refAddress, partitions =>
    match translator.findOrder order with
    | none => none
    | some part =>
      translateLoop rest (translator.divide refAddress part)
        (Function.update partitions part (translator.modulo refAddress part))

/-- The positions, low to high. -/
def positions : List Int := [0, 1, 2, 3, 4, 5]

/-- `Translate( request, row, col, bank, rank, channel, subarray )`. -/
def translate (address : Nat) : Option (MemoryPartition → Nat) :=
  translator.translateLoop positions (shr64 (shr64 address translator.busOffsetBits) translator.lowColBits) fun _ => 0

/-- The loop of `ReverseTranslate`; a position without a partition is skipped. -/
def reverseLoop (fields : MemoryPartition → Nat) : List Int → Nat → Nat → Nat
  | [], phyAddr, _ => phyAddr
  | order :: rest, phyAddr, unitAddr =>
    match translator.findOrder order with
    | none => reverseLoop fields rest phyAddr unitAddr
    | some part =>
      reverseLoop fields rest (add64 phyAddr (mul64 (fields part) unitAddr))
        (shl64 unitAddr (translator.method.bitWidths part))

/-- `ReverseTranslate( row, col, bank, rank, channel, subarray )`. -/
def reverseTranslate (fields : MemoryPartition → Nat) : Nat :=
  translator.reverseLoop fields positions 0 (shl64 (shl64 1 translator.busOffsetBits) translator.lowColBits)

end AddressTranslator

end Emas.Nvmain

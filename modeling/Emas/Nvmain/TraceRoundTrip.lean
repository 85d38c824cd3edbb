/-
**Trace files: what is read back.**

Field by field, the reader of `TraceFile` undoes the writer (`parseLine_text`), except that a cycle goes through
`atoi` into an `unsigned int`. Line by line, its first call always consumes a line before the one it returns: the
header of a file that the writer made, the first access of a file without one.

* `roundTrip_iff` — **the round trip**, and the old files without a header.
-/

import Emas.Lib.Text
import Emas.Nvmain.DeviceData
import Mathlib.Algebra.Group.Int.Defs
import Mathlib.Data.UInt

namespace Emas.Nvmain.Trace

/-! ### Trace files: the writer and the reader

`NVMainTraceWriter` prints a header line and one line for each access, `NVMainTraceReader::GetNextAccess` reads them
back. The two are written independently. A file is a list of characters, open and readable; the machine is
little-endian.

* `NVMDataBlock` is its bytes, the empty list for a block that was never given a size.
* `atoi` is `(int) strtol( text, NULL, 10 )`: clamped to the range of `long`, then narrowed. Extraction in base
  sixteen takes an optional sign and an optional `0x`, and clamps at the largest value of the type.
* A call returns, or `substr` throws, or it reads the local variable `address` which no field has set; the result of
  that is not determined.

Warnings that are printed to the console are left out.
-/

open Text

/-! ### Trace lines -/

/-- `class TraceLine`; `address` is the physical address. -/
structure TraceLine where
  address : UInt64
  operation : DeviceOp
  cycle : UInt64
  data : List UInt8
  oldData : List UInt8
  threadId : Int
  deriving DecidableEq

/-- The line that `GetNextAccess` gives at the end of the trace. -/
def TraceLine.dummy : TraceLine := ⟨0xDEADC0DEDEADBEEF, .nop, 0, [], [], 0⟩

/-! ### The writer -/

/-- `std::setw( 2 ) << std::setfill( '0' )` of a byte, in hexadecimal. -/
def printByte (byte : UInt8) : List Char := (Nat.toDigits 16 byte.toNat).leftpad 2 '0'

/-- `NVMDataBlock::Print`. -/
def printBlock (block : List UInt8) : List Char := block.flatMap printByte

/-- A signed number in decimal. -/
def printInt : Int → List Char
  | .ofNat value => Nat.toDigits 10 value
  | .negSucc value => '-' :: Nat.toDigits 10 (value + 1)

/-- The operation of a line that is written. -/
def printOperation (operation : DeviceOp) : List Char := if operation = .read then ['R'] else ['W']

/-- `NVMainTraceWriter::WriteTraceLine`, without the end of the line. -/
def TraceLine.text (line : TraceLine) : List Char :=
  Nat.toDigits 10 line.cycle.toNat ++ [' '] ++ printOperation line.operation ++ [' '] ++
    (['0', 'x'] ++ Nat.toDigits 16 line.address.toNat) ++ [' '] ++ printBlock line.data ++ [' '] ++
    printBlock line.oldData ++ [' '] ++ printInt line.threadId

/-- `NVMainTraceWriter::WriteTraceLine`: only reads and writes are printed. -/
def writeTraceLine (line : TraceLine) : List Char :=
  if line.operation ≠ .read ∧ line.operation ≠ .write then [] else line.text ++ ['\n']

/-- The file after `SetTraceFile` and one `SetNextAccess` for each line. -/
def writeTrace (lines : List TraceLine) : List Char :=
  ['N', 'V', 'M', 'V', '1'] ++ ['\n'] ++ lines.flatMap writeTraceLine

/-! ### Numbers in a trace -/

def isSpace (c : Char) : Bool := c = ' ' ∨ (9 ≤ c.toNat ∧ c.toNat ≤ 13)

/-- The sign in front of a number and what follows it. -/
def splitSign : List Char → Bool × List Char
  | '-' :: rest => (true, rest)
  | '+' :: rest => (false, rest)
  | text => (false, text)

def strtol (text : List Char) : Int :=
  let signed := splitSign (text.dropWhile isSpace)
  let value : Int := numeral 10 signed.2
  max (-2 ^ 63) (min (2 ^ 63 - 1) (if signed.1 then -value else value))

/-- `unsigned int` of `atoi( text )`: narrowing to `int` and then to `unsigned int` keeps the low 32 bits. -/
def atoi (text : List Char) : UInt32 := .ofInt (strtol text)

/-- What follows the `0x` in front of a hexadecimal number. -/
def dropBase : List Char → List Char
  | '0' :: 'x' :: rest => rest
  | '0' :: 'X' :: rest => rest
  | text => text

/-- `fmat << std::hex << text; fmat >> value`, for an unsigned value of `bits` bits. -/
def extractHex (bits : Nat) (text : List Char) : Nat :=
  let signed := splitSign (text.dropWhile isSpace)
  let value := numeral 16 (dropBase signed.2)
  if 2 ^ bits ≤ value then 2 ^ bits - 1
  else if signed.1 then (2 ^ bits - value) % 2 ^ bits
  else value

/-- The bytes of a 32-bit word in memory. -/
def bytesOfWord (word : Nat) : List UInt8 :=
  [.ofNat word, .ofNat (word / 2 ^ 8), .ofNat (word / 2 ^ 16), .ofNat (word / 2 ^ 24)]

/-- `htonl( word )` of a 32-bit word: its bytes the other way round. -/
def htonl (word : Nat) : Nat :=
  word % 2 ^ 8 * 2 ^ 24 + word / 2 ^ 8 % 2 ^ 8 * 2 ^ 16 + word / 2 ^ 16 % 2 ^ 8 * 2 ^ 8 + word / 2 ^ 24 % 2 ^ 8

/-- One round of the loop over a data field: `rawData[byte]`. -/
def readWord (field : List Char) (byte : Nat) : List UInt8 :=
  bytesOfWord (htonl (extractHex 32 ((field.drop (8 * byte)).take 8)))

/-- A data field: sixteen words of eight characters. `substr` throws when it starts behind the end, and the last
word starts at 120. -/
def readBlock (field : List Char) : Option (List UInt8) :=
  if field.length < 120 then none else some ((List.range 16).flatMap (readWord field))

/-! ### The reader -/

/-- The local variables of `GetNextAccess`. -/
structure Locals where
  cycle : UInt32
  operation : DeviceOp
  address : Option UInt64
  dataBlock : List UInt8
  oldDataBlock : List UInt8
  threadId : UInt32
  fieldId : UInt8

def Locals.initial : Locals := ⟨0, .read, none, [], [], 0, 0⟩

/-- One field of a line, by its number. -/
def Locals.assign (traceVersion : UInt32) (locals : Locals) (field : List Char) : Option Locals :=
  if locals.fieldId = 0 then some { locals with cycle := atoi field }
  else if locals.fieldId = 1 then
    if field = ['R'] then some { locals with operation := .read }
    else if field = ['W'] then some { locals with operation := .write }
    else some locals
  else if locals.fieldId = 2 then some { locals with address := some (.ofNat (extractHex 64 field)) }
  else if locals.fieldId = 3 then (readBlock field).map fun block => { locals with dataBlock := block }
  else if locals.fieldId = 4 then
    if traceVersion = 0 then
      some { locals with threadId := atoi field, oldDataBlock := List.replicate 64 0 }
    else (readBlock field).map fun block => { locals with oldDataBlock := block }
  else if locals.fieldId = 5 then some { locals with threadId := atoi field }
  else some locals

/-- One round of the loop over the fields. -/
def Locals.step (traceVersion : UInt32) (locals : Locals) (field : List Char) : Option Locals :=
  (locals.assign traceVersion field).map fun locals => { locals with fieldId := locals.fieldId + 1 }

/-- How a call of `GetNextAccess` ends. -/
inductive Outcome where
  | returned (rv : Bool) (nextAccess : TraceLine)
  | outOfRange
  | indeterminate
  deriving DecidableEq

/-- The end of `GetNextAccess`, from the line on. -/
def parseLine (traceVersion : UInt32) (fullLine : List Char) : Outcome :=
  match (fields ' ' fullLine).foldlM (Locals.step traceVersion) Locals.initial with
  | none => .outOfRange
  | some locals =>
    match locals.address with
    | none => .indeterminate
    | some address =>
      .returned true ⟨address, locals.operation, locals.cycle.toUInt64, locals.dataBlock, locals.oldDataBlock,
        locals.threadId.toNat⟩

/-- `class NVMainTraceReader` with its file; `trace` is what is unread, `none` once the end was met. -/
structure Reader where
  trace : Option (List Char)
  traceVersion : UInt32
  readVersion : Bool

def Reader.openFile (file : List Char) : Reader := ⟨some file, 0, false⟩

/-- `getline( trace, fullLine )`. -/
def nextLine : Option (List Char) → List Char × Option (List Char)
  | none => ([], none)
  | some text => getline '\n' text

/-- The version in the first line of a file. -/
def headerVersion (traceVersion : UInt32) (fullLine : List Char) : UInt32 :=
  if fullLine.take 4 = ['N', 'V', 'M', 'V'] then atoi (fullLine.drop 4) else traceVersion

/-- `NVMainTraceReader::GetNextAccess`. The second `getline` of the first call is not conditional on a header, nor
is the end of the file checked after it. -/
def getNextAccess (reader : Reader) : Outcome × Reader :=
  match nextLine reader.trace with
  | (_, none) => (.returned false .dummy, { reader with trace := none })
  | (fullLine, some unread) =>
    if reader.readVersion then
      (parseLine reader.traceVersion fullLine, { reader with trace := some unread })
    else
      let version := headerVersion reader.traceVersion fullLine
      let next := nextLine (some unread)
      (parseLine version next.1, ⟨next.2, version, true⟩)

/-- What `count` calls return, one after the other. -/
def calls : Nat → Reader → List Outcome
  | 0, _ => []
  | count + 1, reader => (getNextAccess reader).1 :: calls count (getNextAccess reader).2


/-! ### Characters -/

theorem toNat_le_of_le {low c : Char} (le : low ≤ c) : low.toNat ≤ c.toNat := UInt32.le_iff_toNat_le.mp le

theorem plain_of_digit {c : Char} (digit : digitValue c < 16) :
    isSpace c = false ∧ c ≠ '-' ∧ c ≠ '+' ∧ c ≠ 'x' ∧ c ≠ 'X' := by
  have space : isSpace c = false := by
    by_contra h
    have spaced : c = ' ' ∨ (9 ≤ c.toNat ∧ c.toNat ≤ 13) := by
      rw [Bool.not_eq_false] at h
      exact of_decide_eq_true h
    have low : c.toNat < 48 := by
      rcases spaced with rfl | between
      · decide
      · omega
    have noDigit : digitValue c = 16 := by
      have below : ∀ first : Char, 48 ≤ first.toNat → ¬ first ≤ c := fun first large le =>
        absurd (toNat_le_of_le le) (by omega)
      simp [digitValue, below '0' (by decide), below 'a' (by decide), below 'A' (by decide)]
    omega
  refine ⟨space, ?_, ?_, ?_, ?_⟩ <;> (rintro rfl; revert digit; decide)

theorem digit_ne_of_space {c separator : Char} (digit : digitValue c < 16) (space : isSpace separator = true) :
    c ≠ separator := by
  rintro rfl
  rw [(plain_of_digit digit).1] at space
  exact Bool.false_ne_true space

section Digits

variable {digits : List Char}

theorem dropWhile_isSpace (all : ∀ c ∈ digits, digitValue c < 16) : digits.dropWhile isSpace = digits := by
  cases digits with
  | nil => rfl
  | cons c rest => simp [(plain_of_digit (all c (List.mem_cons_self ..))).1]

theorem splitSign_digits (all : ∀ c ∈ digits, digitValue c < 16) : splitSign digits = (false, digits) := by
  unfold splitSign
  split
  · exact absurd rfl (plain_of_digit (all '-' (List.mem_cons_self ..))).2.1
  · exact absurd rfl (plain_of_digit (all '+' (List.mem_cons_self ..))).2.2.1
  · rfl

theorem dropBase_digits (all : ∀ c ∈ digits, digitValue c < 16) : dropBase digits = digits := by
  unfold dropBase
  split
  · exact absurd rfl (plain_of_digit (all 'x' (by simp))).2.2.2.1
  · exact absurd rfl (plain_of_digit (all 'X' (by simp))).2.2.2.2
  · rfl

theorem numeral_digits (all : ∀ c ∈ digits, digitValue c < 16) : numeral 16 digits = valueOf 16 digits 0 := by
  rw [numeral, takeWhile_digits all]

theorem extractHex_digits {bits : Nat} (all : ∀ c ∈ digits, digitValue c < 16)
    (fits : valueOf 16 digits 0 < 2 ^ bits) : extractHex bits digits = valueOf 16 digits 0 := by
  have plain : splitSign (digits.dropWhile isSpace) = (false, digits) := by
    rw [dropWhile_isSpace all, splitSign_digits all]
  simp only [extractHex, plain, dropBase_digits all, numeral_digits all, if_neg (Nat.not_le.mpr fits)]
  simp

end Digits

theorem digits_of_toDigits (base : Nat) (large : 1 < base) (small : base ≤ 16) (n : Nat) :
    ∀ c ∈ Nat.toDigits base n, digitValue c < 16 := fun c member =>
  Nat.lt_of_lt_of_le (digitValue_of_mem_toDigits large small n c member) small

theorem strtol_toDigits (n : Nat) : strtol (Nat.toDigits 10 n) = min (2 ^ 63 - 1) (n : Int) := by
  have all := digits_of_toDigits 10 (by decide) (by decide) n
  have plain : splitSign ((Nat.toDigits 10 n).dropWhile isSpace) = (false, Nat.toDigits 10 n) := by
    rw [dropWhile_isSpace all, splitSign_digits all]
  simp only [strtol, plain, @numeral_toDigits 10 (by decide) (by decide) n, Bool.false_eq_true, if_false]
  omega

theorem atoi_toDigits (n : Nat) : (atoi (Nat.toDigits 10 n)).toNat = min (2 ^ 63 - 1) n % 2 ^ 32 := by
  rw [atoi, strtol_toDigits, UInt32.ofInt]
  have cast : (min (2 ^ 63 - 1) (n : Int) % 2 ^ 32).toNat = min (2 ^ 63 - 1) n % 2 ^ 32 := by omega
  rw [cast, UInt32.toNat_ofNat']
  omega

theorem extractHex_address (address : UInt64) :
    extractHex 64 ('0' :: 'x' :: Nat.toDigits 16 address.toNat) = address.toNat := by
  have fits := address.toNat_lt
  have read : numeral 16 (Nat.toDigits 16 address.toNat) = address.toNat :=
    numeral_toDigits (by decide) (by decide) _
  have plain : splitSign (('0' :: 'x' :: Nat.toDigits 16 address.toNat).dropWhile isSpace) =
      (false, '0' :: 'x' :: Nat.toDigits 16 address.toNat) := by
    rw [List.dropWhile_cons_of_neg (by decide)]
    rfl
  simp only [extractHex, plain, dropBase, read, if_neg (Nat.not_le.mpr fits)]
  simp

/-! ### Data blocks -/

theorem printByte_eq (byte : UInt8) : printByte byte = [(byte.toNat / 16).digitChar, (byte.toNat % 16).digitChar] := by
  have small := byte.toNat_lt
  rw [printByte, Nat.toDigits_eq_if (by decide)]
  split
  · rename_i below
    rw [Nat.div_eq_of_lt below, Nat.mod_eq_of_lt below]
    rfl
  · rw [Nat.toDigits_of_lt_base (by omega)]
    rfl

theorem printByte_length (byte : UInt8) : (printByte byte).length = 2 := by
  rw [printByte_eq]
  rfl

theorem printByte_digits (byte : UInt8) : ∀ c ∈ printByte byte, digitValue c < 16 := by
  have small := byte.toNat_lt
  intro c member
  rw [printByte_eq, List.mem_cons, List.mem_singleton] at member
  rcases member with rfl | rfl <;> rw [digitValue_digitChar (by omega)] <;> omega

theorem valueOf_printByte (byte : UInt8) (before : Nat) :
    valueOf 16 (printByte byte) before = 2 ^ 8 * before + byte.toNat := by
  have small := byte.toNat_lt
  rw [printByte_eq]
  show 16 * (16 * before + digitValue (byte.toNat / 16).digitChar) + digitValue (byte.toNat % 16).digitChar = _
  rw [digitValue_digitChar (by omega), digitValue_digitChar (by omega)]
  omega

theorem printBlock_digits (block : List UInt8) : ∀ c ∈ printBlock block, digitValue c < 16 := by
  intro c member
  obtain ⟨byte, _, inside⟩ := List.mem_flatMap.mp member
  exact printByte_digits byte c inside

theorem printBlock_length (block : List UInt8) : (printBlock block).length = 2 * block.length := by
  induction block with
  | nil => rfl
  | cons byte rest ih =>
    have split : printBlock (byte :: rest) = printByte byte ++ printBlock rest := rfl
    rw [split, List.length_append, printByte_length, ih, List.length_cons]
    omega

theorem printBlock_word (a b c d : UInt8) (rest : List UInt8) :
    printBlock (a :: b :: c :: d :: rest) = printBlock [a, b, c, d] ++ printBlock rest := by
  simp [printBlock]

theorem bytesOfWord_htonl (a b c d : UInt8) :
    bytesOfWord (htonl (2 ^ 8 * (2 ^ 8 * (2 ^ 8 * a.toNat + b.toNat) + c.toNat) + d.toNat)) = [a, b, c, d] := by
  have boundA := a.toNat_lt
  have boundB := b.toNat_lt
  have boundC := c.toNat_lt
  have boundD := d.toNat_lt
  have swapped : htonl (2 ^ 8 * (2 ^ 8 * (2 ^ 8 * a.toNat + b.toNat) + c.toNat) + d.toNat) =
      d.toNat * 2 ^ 24 + c.toNat * 2 ^ 16 + b.toNat * 2 ^ 8 + a.toNat := by
    rw [htonl]
    omega
  rw [swapped, bytesOfWord]
  have byte : ∀ (value : Nat) (byte : UInt8), value % 2 ^ 8 = byte.toNat → UInt8.ofNat value = byte := by
    intro value byte same
    rw [← UInt8.toNat_inj, UInt8.toNat_ofNat', same]
  rw [byte _ a (by omega), byte _ b (by omega), byte _ c (by omega), byte _ d (by omega)]

theorem word_printed (a b c d : UInt8) (rest : List UInt8) :
    bytesOfWord (htonl (extractHex 32 ((printBlock (a :: b :: c :: d :: rest)).take 8))) = [a, b, c, d] := by
  have boundA := a.toNat_lt
  have boundB := b.toNat_lt
  have boundC := c.toNat_lt
  have boundD := d.toNat_lt
  have head : (printBlock (a :: b :: c :: d :: rest)).take 8 = printBlock [a, b, c, d] := by
    rw [printBlock_word]
    exact List.take_left' (printBlock_length _)
  have value : valueOf 16 (printBlock [a, b, c, d]) 0 =
      2 ^ 8 * (2 ^ 8 * (2 ^ 8 * a.toNat + b.toNat) + c.toNat) + d.toNat := by
    have split : printBlock [a, b, c, d] = printByte a ++ (printByte b ++ (printByte c ++ printByte d)) := by
      simp [printBlock]
    rw [split, valueOf_append, valueOf_append, valueOf_append]
    simp only [valueOf_printByte, Nat.mul_zero, Nat.zero_add]
  rw [head, extractHex_digits (printBlock_digits _) (by rw [value]; omega), value, bytesOfWord_htonl]

theorem words_printed (words : Nat) : ∀ block : List UInt8, block.length = 4 * words →
    (List.range words).flatMap (readWord (printBlock block)) = block := by
  induction words with
  | zero =>
    intro block length
    rw [List.eq_nil_of_length_eq_zero length]
    rfl
  | succ words ih =>
    intro block length
    match block, length with
    | a :: b :: c :: d :: rest, length =>
      have later : ∀ word, readWord (printBlock (a :: b :: c :: d :: rest)) (word + 1) =
          readWord (printBlock rest) word := by
        intro word
        have skip : (printBlock (a :: b :: c :: d :: rest)).drop 8 = printBlock rest := by
          rw [printBlock_word]
          exact List.drop_left' (printBlock_length _)
        rw [readWord, readWord, Nat.mul_succ, Nat.add_comm, ← List.drop_drop, skip]
      rw [List.range_succ_eq_map, List.flatMap_cons, List.flatMap_map]
      simp only [later]
      rw [ih rest (by simpa [Nat.mul_succ] using length)]
      show bytesOfWord (htonl (extractHex 32 ((printBlock (a :: b :: c :: d :: rest)).take 8))) ++ rest = _
      rw [word_printed]
      rfl

/-- **A data block is read back.** -/
theorem readBlock_printBlock {block : List UInt8} (size : block.length = 64) :
    readBlock (printBlock block) = some block := by
  rw [readBlock, printBlock_length, size, if_neg (by decide), words_printed 16 block size]

/-! ### Lines -/

/-- A line of a trace: a read or a write of sixty-four bytes by a thread with a non-negative `int` for an id. -/
structure Access extends TraceLine where
  readWrite : operation = .read ∨ operation = .write
  dataSize : data.length = 64
  oldDataSize : oldData.length = 64
  threadNonneg : 0 ≤ threadId
  threadInt : threadId < 2 ^ 31

namespace Access

variable (access : Access)

/-- The fields of the printed line. -/
def texts : List (List Char) :=
  [Nat.toDigits 10 access.cycle.toNat, printOperation access.operation,
    ['0', 'x'] ++ Nat.toDigits 16 access.address.toNat, printBlock access.data, printBlock access.oldData,
    Nat.toDigits 10 access.threadId.toNat]

theorem text_eq : access.text = [' '].intercalate access.texts := by
  have thread : printInt access.threadId = Nat.toDigits 10 access.threadId.toNat := by
    obtain ⟨value, same⟩ := Int.eq_ofNat_of_zero_le access.threadNonneg
    rw [same]
    rfl
  simp [TraceLine.text, texts, thread, List.intercalate, List.intersperse]

theorem texts_plain {separator : Char} (space : isSpace separator = true) :
    ∀ text ∈ access.texts, separator ∉ text := by
  have digits : ∀ text : List Char, (∀ c ∈ text, digitValue c < 16) → separator ∉ text := fun text all member =>
    digit_ne_of_space (all _ member) space rfl
  have decimal : ∀ n, separator ∉ Nat.toDigits 10 n := fun n =>
    digits _ (digits_of_toDigits 10 (by decide) (by decide) n)
  have letter : ∀ c, isSpace c = false → separator ≠ c := by
    rintro c plain rfl
    rw [plain] at space
    exact Bool.false_ne_true space
  have operation : separator ∉ printOperation access.operation := by
    unfold printOperation
    split <;> simp [letter 'R' (by decide), letter 'W' (by decide)]
  have address : separator ∉ ['0', 'x'] ++ Nat.toDigits 16 access.address.toNat := by
    have hex := digits _ (digits_of_toDigits 16 (by decide) (by decide) access.address.toNat)
    simp [letter '0' (by decide), letter 'x' (by decide), hex]
  have block : ∀ data, separator ∉ printBlock data := fun data => digits _ (printBlock_digits data)
  simp only [texts, List.forall_mem_cons]
  exact ⟨decimal _, operation, address, block _, block _, decimal _, by simp⟩

theorem texts_filled : ∀ text ∈ access.texts, text ≠ [] := by
  have block : ∀ data : List UInt8, data.length = 64 → printBlock data ≠ [] := by
    intro data size none
    have length := printBlock_length data
    rw [none, size] at length
    simp at length
  have operation : printOperation access.operation ≠ [] := by
    unfold printOperation
    split <;> simp
  simp only [texts, List.forall_mem_cons]
  exact ⟨Nat.toDigits_ne_nil, operation, by simp, block _ access.dataSize, block _ access.oldDataSize,
    Nat.toDigits_ne_nil, by simp⟩

/-- The line as it is read back. -/
def readBack : TraceLine :=
  { access.toTraceLine with cycle := (atoi (Nat.toDigits 10 access.cycle.toNat)).toUInt64 }

theorem thread_readBack : ((atoi (Nat.toDigits 10 access.threadId.toNat)).toNat : Int) = access.threadId := by
  have nonneg := access.threadNonneg
  have small := access.threadInt
  rw [atoi_toDigits]
  omega

/-- **A line is read back**, up to its cycle. -/
theorem parseLine_text {version : UInt32} (versioned : version ≠ 0) :
    parseLine version access.text = .returned true access.readBack := by
  have split : fields ' ' access.text = access.texts := by
    rw [text_eq]
    exact fields_intercalate (access.texts_plain (by decide)) access.texts_filled (by simp [texts])
  have folded : access.texts.foldlM (Locals.step version) Locals.initial =
      some ⟨atoi (Nat.toDigits 10 access.cycle.toNat), access.operation, some access.address, access.data,
        access.oldData, atoi (Nat.toDigits 10 access.threadId.toNat), 6⟩ := by
    have data := readBlock_printBlock access.dataSize
    have oldData := readBlock_printBlock access.oldDataSize
    have address := extractHex_address access.address
    rcases access.readWrite with isRead | isWrite
    · simp [texts, Locals.step, Locals.assign, Locals.initial, printOperation, isRead, versioned, data, oldData,
        address]
    · simp [texts, Locals.step, Locals.assign, Locals.initial, printOperation, isWrite, versioned, data, oldData,
        address]
  rw [parseLine, split, folded]
  simp only [thread_readBack]
  rfl

theorem text_plain : '\n' ∉ access.text := by
  rw [text_eq]
  exact not_mem_intercalate (by decide) (access.texts_plain (by decide))

theorem readBack_eq_iff : access.readBack = access.toTraceLine ↔ access.cycle.toNat < 2 ^ 32 := by
  have cycle : access.readBack = access.toTraceLine ↔
      (atoi (Nat.toDigits 10 access.cycle.toNat)).toUInt64 = access.cycle := by
    constructor
    · exact fun same => congrArg TraceLine.cycle same
    · intro same
      rw [readBack, same]
  rw [cycle, ← UInt64.toNat_inj, UInt32.toNat_toUInt64, atoi_toDigits]
  omega

end Access

/-! ### Files -/

theorem nextLine_unlines {line : List Char} (plain : '\n' ∉ line) (rest : List (List Char)) :
    nextLine (some (unlines '\n' (line :: rest))) = (line, some (unlines '\n' rest)) :=
  getline_unlines plain rest

theorem nextLine_unlines_nil : nextLine (some (unlines '\n' [])) = ([], none) := rfl

/-- After the first call, one line a call and then the end of the trace. -/
theorem calls_unlines (version : UInt32) {lines : List (List Char)} (plain : ∀ line ∈ lines, '\n' ∉ line) :
    calls (lines.length + 1) ⟨some (unlines '\n' lines), version, true⟩ =
      lines.map (parseLine version) ++ [.returned false .dummy] := by
  induction lines with
  | nil => rfl
  | cons line rest ih =>
    have one : getNextAccess ⟨some (unlines '\n' (line :: rest)), version, true⟩ =
        (parseLine version line, ⟨some (unlines '\n' rest), version, true⟩) := by
      simp [getNextAccess, nextLine_unlines (plain line (List.mem_cons_self ..)) rest]
    show (getNextAccess _).1 :: calls (rest.length + 1) (getNextAccess _).2 = _
    rw [one, ih fun line member => plain line (.tail _ member)]
    rfl

theorem getNextAccess_first {first second : List Char} (plainFirst : '\n' ∉ first) (plainSecond : '\n' ∉ second)
    (rest : List (List Char)) :
    getNextAccess (.openFile (unlines '\n' (first :: second :: rest))) =
      (parseLine (headerVersion 0 first) second, ⟨some (unlines '\n' rest), headerVersion 0 first, true⟩) := by
  simp [getNextAccess, Reader.openFile, nextLine_unlines plainFirst, nextLine_unlines plainSecond]

theorem getNextAccess_single {first : List Char} (plain : '\n' ∉ first) :
    (getNextAccess (.openFile (unlines '\n' [first]))).1 = .indeterminate := by
  simp only [getNextAccess, Reader.openFile, nextLine_unlines plain, nextLine_unlines_nil]
  rfl

theorem calls_openFile {first second : List Char} {rest : List (List Char)}
    (plain : ∀ line ∈ first :: second :: rest, '\n' ∉ line) :
    calls (rest.length + 2) (.openFile (unlines '\n' (first :: second :: rest))) =
      (second :: rest).map (parseLine (headerVersion 0 first)) ++ [.returned false .dummy] := by
  show (getNextAccess _).1 :: calls (rest.length + 1) (getNextAccess _).2 = _
  rw [getNextAccess_first (plain first (by simp)) (plain second (by simp)) rest,
    calls_unlines _ fun line member => plain line (by simp [member])]
  rfl

/-! ### The round trip -/

/-- Reading the file that was written for the accesses returns them and then the end of the trace. -/
def RoundTrip (accesses : List Access) : Prop :=
  calls (accesses.length + 1) (.openFile (writeTrace (accesses.map Access.toTraceLine))) =
    accesses.map (fun access => .returned true access.toTraceLine) ++ [.returned false .dummy]

/-- Reading the file returns that many accesses and then the end of the trace. -/
def Yields (file : List Char) (count : Nat) : Prop :=
  ∃ accesses : List TraceLine, accesses.length = count ∧
    calls (count + 1) (.openFile file) = accesses.map (.returned true) ++ [.returned false .dummy]

/-- The lines of a file without a header. -/
structure OldFile where
  lines : List (List Char)
  plain : ∀ line ∈ lines, '\n' ∉ line
  noHeader : ∀ line ∈ lines.head?, line.take 4 ≠ ['N', 'V', 'M', 'V']

def OldFile.text (file : OldFile) : List Char := unlines '\n' file.lines

theorem writeTrace_eq (accesses : List Access) :
    writeTrace (accesses.map Access.toTraceLine) =
      unlines '\n' (['N', 'V', 'M', 'V', '1'] :: accesses.map (·.text)) := by
  have each : ∀ access : Access, writeTraceLine access.toTraceLine = access.text ++ ['\n'] := by
    intro access
    rcases access.readWrite with isRead | isWrite
    · simp [writeTraceLine, isRead]
    · simp [writeTraceLine, isWrite]
  simp [writeTrace, unlines, List.flatMap_map, each]

theorem roundTrip_iff_cycles (accesses : List Access) :
    RoundTrip accesses ↔ accesses ≠ [] ∧ ∀ access ∈ accesses, access.cycle.toNat < 2 ^ 32 := by
  rw [RoundTrip, writeTrace_eq]
  cases accesses with
  | nil =>
    have first := @getNextAccess_single ['N', 'V', 'M', 'V', '1'] (by decide)
    refine ⟨fun same => ?_, fun both => absurd rfl both.1⟩
    have head := (List.cons.inj same).1
    exact absurd (first.symm.trans head) (by simp)
  | cons access rest =>
    have plain : ∀ line ∈ ['N', 'V', 'M', 'V', '1'] :: (access :: rest).map (·.text), '\n' ∉ line := by
      intro line member
      rcases List.mem_cons.mp member with rfl | later
      · decide
      · obtain ⟨one, _, rfl⟩ := List.mem_map.mp later
        exact one.text_plain
    have read := calls_openFile plain
    rw [List.length_map] at read
    rw [List.map_cons, List.length_cons, read, List.append_cancel_right_eq]
    show ((access :: rest).map (·.text)).map _ = _ ↔ _
    rw [List.map_map, List.map_inj_left]
    refine (forall₂_congr fun one _ => ?_).trans (and_iff_right (List.cons_ne_nil access rest)).symm
    have version : headerVersion 0 ['N', 'V', 'M', 'V', '1'] ≠ 0 := by decide
    rw [Function.comp_apply, one.parseLine_text version, Outcome.returned.injEq]
    exact (and_iff_right rfl).trans one.readBack_eq_iff

theorem calls_take (count : Nat) (reader : Reader) : (calls (count + 1) reader).take count = calls count reader := by
  induction count generalizing reader with
  | zero => rfl
  | succ count ih => exact congrArg ((getNextAccess reader).1 :: ·) (ih _)

theorem yields_iff_empty (file : OldFile) : Yields file.text file.lines.length ↔ file.lines = [] := by
  obtain ⟨lines, plain, noHeader⟩ := file
  show Yields (unlines '\n' lines) lines.length ↔ lines = []
  match lines with
  | [] => exact iff_of_true ⟨[], rfl, rfl⟩ rfl
  | [first] =>
    refine iff_of_false ?_ (List.cons_ne_nil first [])
    rintro ⟨accesses, length, same⟩
    obtain ⟨access, rfl⟩ := List.length_eq_one_iff.mp length
    have unset := getNextAccess_single (plain first (List.mem_singleton.mpr rfl))
    exact absurd (unset.symm.trans (List.cons.inj same).1) (by simp)
  | first :: second :: rest =>
    refine iff_of_false ?_ (List.cons_ne_nil first (second :: rest))
    rintro ⟨accesses, length, same⟩
    -- the end of the trace comes one call too early
    have early := congrArg (List.take (rest.length + 2)) same
    have whole : (accesses.map (Outcome.returned true)).length = rest.length + 2 := by
      rw [List.length_map, length]
      rfl
    rw [List.length_cons, List.length_cons, calls_take, calls_openFile plain, List.take_left' whole] at early
    have last : Outcome.returned false .dummy ∈ accesses.map (.returned true) := by
      rw [← early]
      simp
    simp at last

/-- **The round trip.** A list of accesses comes back from its file, followed by the end of the trace, if and only if
it is not empty and every cycle fits into 32 bits; a file of `n` lines without a header yields `n` accesses only if it
is empty. -/
theorem roundTrip_iff (accesses : List Access) (file : OldFile) :
    (RoundTrip accesses ↔ accesses ≠ [] ∧ ∀ access ∈ accesses, access.cycle.toNat < 2 ^ 32) ∧
      (Yields file.text file.lines.length ↔ file.lines = []) :=
  ⟨roundTrip_iff_cycles accesses, yields_iff_empty file⟩

/-- A read at the given cycle, of a block of zeros. -/
def Access.readAt (cycle : UInt64) : Access where
  address := 64
  operation := .read
  cycle := cycle
  data := List.replicate 64 0
  oldData := List.replicate 64 0
  threadId := 0
  readWrite := .inl rfl
  dataSize := List.length_replicate
  oldDataSize := List.length_replicate
  threadNonneg := Int.le_refl 0
  threadInt := by decide

/-- An access in the format without old data. -/
def oldLine : List Char := "0 R 0x40 ".toList ++ List.replicate 128 '0' ++ " 0".toList

/-- Two accesses without a header. -/
def OldFile.two : OldFile where
  lines := [oldLine, oldLine]
  plain := by decide
  noHeader := by decide

/-- **Accesses that do not come back**: a cycle of 2^32 is read as 0, an empty trace returns an access, and two lines
without a header return one. -/
theorem accesses_lost : ¬ RoundTrip [.readAt (2 ^ 32)] ∧ ¬ RoundTrip [] ∧ ¬ Yields OldFile.two.text 2 := by
  refine ⟨?_, ?_, ?_⟩
  · intro holds
    have fits := ((roundTrip_iff_cycles _).mp holds).2 _ (List.mem_singleton.mpr rfl)
    exact absurd fits (by decide)
  · intro holds
    exact ((roundTrip_iff_cycles _).mp holds).1 rfl
  · intro holds
    exact absurd ((yields_iff_empty OldFile.two).mp holds) (List.cons_ne_nil oldLine [oldLine])

end Emas.Nvmain.Trace

/-
**Arrays in a checkpoint.**

`arrayParamOut` and `arrayParamIn` of `sim/serialize.hh` for a vector of bytes. The text of a checkpoint is read by
`IniFile::load` of `base/inifile.cc`; `tokenize`, `eat_white` and `to_number` are those of `base/str.hh`.

* A text is a list of characters, and a file is open and readable. `stoull` with base 0 takes white space, a sign, and
  the `0` or `0x` of another base.
* Reading has no result (`none`) where the program ends by `fatal`, and for a line that begins with `=`, before which
  the code reads a character.

**`arrayParamIn_checkpoint`** — an array that is written into its section is read back.
-/

import Emas.Nvmain.TraceRoundTrip
import Mathlib.Data.List.DropRight

namespace Emas.Gem5

open Text Nvmain.Trace

namespace Checkpoint

/-! ### Texts -/

/-- `eat_lead_white( s )`: blanks alone are kept. -/
def eatLeadWhite (s : List Char) : List Char := if s.any (· ≠ ' ') then s.dropWhile (· = ' ') else s

def eatEndWhite (s : List Char) : List Char := if s.any (· ≠ ' ') then s.rdropWhile (· = ' ') else s

def eatWhite (s : List Char) : List Char := eatEndWhite (eatLeadWhite s)

/-- `tokenize( vector, s, ' ' )`, without the empty strings. -/
def tokenize (s : List Char) : List (List Char) := fields ' ' s

/-- The base of a number, and the text behind its prefix. -/
def splitBase : List Char → Nat × List Char
  | '0' :: 'x' :: c :: rest => if digitValue c < 16 then (16, c :: rest) else (8, ['0'])
  | '0' :: 'X' :: c :: rest => if digitValue c < 16 then (16, c :: rest) else (8, ['0'])
  | '0' :: rest => (8, '0' :: rest)
  | text => (10, text)

/-- `std::stoull( value, nullptr, 0 )`, unless it throws. -/
def stoull (value : List Char) : Option Nat :=
  let signed := splitSign (value.dropWhile isSpace)
  let split := splitBase signed.2
  if split.2.takeWhile (digitValue · < split.1) = [] then none
  else
    let r := numeral split.1 split.2
    if 2 ^ 64 ≤ r then none
    else some (if signed.1 then (2 ^ 64 - r) % 2 ^ 64 else r)

/-- `parseParam( s, value )` of an `unsigned char`. -/
def parseParam (s : List Char) : Option UInt8 :=
  (stoull s).bind fun r => if r > 255 then none else some (.ofNat r)

/-- `showParam( os, value )` of an `unsigned char`. -/
def showParam (value : UInt8) : List Char := Nat.toDigits 10 value.toNat

/-! ### `IniFile` -/

/-- The entries of a section. -/
abbrev IniSection := List Char → Option (List Char)

/-- `class IniFile`: the sections. -/
abbrev IniFile := List Char → Option IniSection

def addEntry (table : IniSection) (entryName value : List Char) (append : Bool) : IniSection :=
  match table entryName, append with
  | some before, true => Function.update table entryName (some (before ++ ' ' :: value))
  | _, _ => Function.update table entryName (some value)

/-- `Section::add( assignment )`. -/
def addAssignment (table : IniSection) (assignment : List Char) : Option IniSection :=
  match assignment.takeWhile (· ≠ '='), assignment.dropWhile (· ≠ '=') with
  | c :: front, _ :: value =>
    let append := (c :: front).getLast? = some '+'
    let entryName := if append then (c :: front).dropLast else c :: front
    some (addEntry table (eatWhite entryName) (eatWhite value) append)
  | _, _ => none

def addSection (file : IniFile) (sectionName : List Char) : IniFile :=
  if file sectionName = none then Function.update file sectionName (some fun _ => none) else file

/-- What `load` keeps: the current section, and the file. -/
structure IniLoad where
  current : Option (List Char)
  file : IniFile

/-- One line in the loop of `load`. -/
def loadLine (load : IniLoad) (line : List Char) : Option IniLoad :=
  let line := eatEndWhite line
  if line.head? = some '[' ∧ line.getLast? = some ']' then
    let sectionName := eatWhite (line.drop 1).dropLast
    some ⟨some sectionName, addSection load.file sectionName⟩
  else
    match load.current with
    | none => some load
    | some sectionName => (addAssignment ((load.file sectionName).getD fun _ => none) line).map fun table =>
        { load with file := Function.update load.file sectionName (some table) }

/-- The loop of `load`. -/
def loadLines : Nat → List Char → IniLoad → Option IniLoad
  | 0, _, _ => none
  | fuel + 1, text, load =>
    match text.dropWhile isSpace with
    | [] => some load
    | c :: text =>
      let line := getline '\n' (c :: text)
      (loadLine load line.1).bind (loadLines fuel (line.2.getD []))

def load (text : List Char) : Option IniFile :=
  (loadLines (text.length + 1) text ⟨none, fun _ => none⟩).map IniLoad.file

def find (file : IniFile) (sectionName entryName : List Char) : Option (List Char) :=
  (file sectionName).bind fun table => table entryName

/-! ### Arrays -/

/-- An entry of a checkpoint: `currentSection( )`, which is the path of an object, and the name of a parameter. -/
structure Entry where
  path : List Char
  name : List Char
  pathLine : '\n' ∉ path
  pathTrimmed : path.head? ≠ some ' ' ∧ path.getLast? ≠ some ' '
  nameLine : '\n' ∉ name ∧ '=' ∉ name
  nameStart : ∃ c ∈ name.head?, isSpace c = false
  nameEnd : name.getLast? ≠ some ' ' ∧ name.getLast? ≠ some '+'

def nameOut (entry : Entry) : List Char := '\n' :: '[' :: entry.path ++ [']', '\n']

def arrayParamOut (entry : Entry) (param : List UInt8) : List Char :=
  entry.name ++ '=' :: [' '].intercalate (param.map showParam) ++ ['\n']

/-- The section with the array in it. -/
def checkpoint (entry : Entry) (param : List UInt8) : List Char := nameOut entry ++ arrayParamOut entry param

/-- `arrayParamIn( cp, name, param )`, from the text of the checkpoint. -/
def arrayParamIn (entry : Entry) (text : List Char) : Option (List UInt8) :=
  (load text).bind fun file => (find file entry.path entry.name).bind fun str => (tokenize str).mapM parseParam

/-! ### Numbers -/

theorem head?_toDigits {n : Nat} (positive : 0 < n) : (Nat.toDigits 10 n).head? ≠ some '0' := by
  induction n using Nat.strongRecOn with
  | ind n ih =>
    rw [Nat.toDigits_eq_if (by decide)]
    split
    · next small =>
      have each : ∀ digit : Fin 10, 0 < digit.val → [digit.val.digitChar].head? ≠ some '0' := by decide
      exact each ⟨n, small⟩ positive
    · rw [List.head?_append_of_ne_nil _ Nat.toDigits_ne_nil]
      exact ih (n / 10) (by omega) (by omega)

theorem splitBase_toDigits {n : Nat} (positive : 0 < n) : splitBase (Nat.toDigits 10 n) = (10, Nat.toDigits 10 n) := by
  have head := head?_toDigits positive
  revert head
  generalize Nat.toDigits 10 n = text
  intro head
  unfold splitBase
  split
  · exact absurd rfl head
  · exact absurd rfl head
  · exact absurd rfl head
  · rfl

theorem stoull_toDigits {n : Nat} (small : n < 2 ^ 64) : stoull (Nat.toDigits 10 n) = some n := by
  rcases Nat.eq_zero_or_pos n with rfl | positive
  · decide
  · have all := digits_of_toDigits 10 (by decide) (by decide) n
    have plain : splitSign ((Nat.toDigits 10 n).dropWhile isSpace) = (false, Nat.toDigits 10 n) := by
      rw [dropWhile_isSpace all, splitSign_digits all]
    have digits := takeWhile_digits (@digitValue_of_mem_toDigits 10 (by decide) (by decide) n)
    simp only [stoull, plain, splitBase_toDigits positive, digits, Nat.toDigits_ne_nil, if_false,
      @numeral_toDigits 10 (by decide) (by decide), if_neg (Nat.not_le.mpr small), Bool.false_eq_true]

/-- **A byte is read back.** -/
theorem parseParam_showParam (value : UInt8) : parseParam (showParam value) = some value := by
  have small := value.toNat_lt
  rw [parseParam, showParam, stoull_toDigits (by omega), Option.bind_some, if_neg (by omega), UInt8.ofNat_toNat]

theorem texts_plain {c : Char} (other : digitValue c = 16) (param : List UInt8) :
    ∀ text ∈ param.map showParam, c ∉ text := by
  intro text member inside
  obtain ⟨value, -, rfl⟩ := List.mem_map.mp member
  have digit := digits_of_toDigits 10 (by decide) (by decide) _ c inside
  omega

theorem texts_filled (param : List UInt8) : ∀ text ∈ param.map showParam, text ≠ [] := by
  intro text member
  obtain ⟨value, -, rfl⟩ := List.mem_map.mp member
  exact Nat.toDigits_ne_nil

/-- **The tokens of the printed array** are read back. -/
theorem parse_tokens (param : List UInt8) :
    (tokenize ([' '].intercalate (param.map showParam))).mapM parseParam = some param := by
  have tokens : tokenize ([' '].intercalate (param.map showParam)) = param.map showParam := by
    by_cases none : param = []
    · subst none
      rfl
    · exact fields_intercalate (texts_plain rfl param) (texts_filled param) (by simpa using none)
  rw [tokens]
  clear tokens
  induction param with
  | nil => rfl
  | cons value param ih => simp [parseParam_showParam, ih]

/-! ### Lines -/

theorem eatLeadWhite_of_head {s : List Char} (first : s.head? ≠ some ' ') : eatLeadWhite s = s := by
  unfold eatLeadWhite
  split
  · cases s with
    | nil => rfl
    | cons c s => rw [List.dropWhile_cons_of_neg (by simpa using first)]
  · rfl

theorem eatEndWhite_of_last {s : List Char} (last : s.getLast? ≠ some ' ') : eatEndWhite s = s := by
  unfold eatEndWhite
  split
  · refine List.rdropWhile_eq_self_iff.mpr fun some blank => last ?_
    rw [List.getLast?_eq_some_getLast some, of_decide_eq_true blank]
  · rfl

theorem eatWhite_of_trimmed {s : List Char} (first : s.head? ≠ some ' ') (last : s.getLast? ≠ some ' ') :
    eatWhite s = s := by
  rw [eatWhite, eatLeadWhite_of_head first, eatEndWhite_of_last last]

theorem loadLines_space {c : Char} (space : isSpace c = true) (fuel : Nat) (text : List Char) (load : IniLoad) :
    loadLines (fuel + 1) (c :: text) load = loadLines (fuel + 1) text load := by
  simp only [loadLines, List.dropWhile_cons_of_pos space]

theorem loadLines_line {line : List Char} (plain : '\n' ∉ line) (start : ∃ c ∈ line.head?, isSpace c = false) (fuel : Nat)
    (text : List Char) (load : IniLoad) :
    loadLines (fuel + 1) (line ++ '\n' :: text) load = (loadLine load line).bind (loadLines fuel text) := by
  obtain ⟨c, head, visible⟩ := start
  obtain ⟨rest, rfl⟩ : ∃ rest, line = c :: rest := List.head?_eq_some_iff.mp head
  have kept : (c :: (rest ++ '\n' :: text)).dropWhile isSpace = c :: (rest ++ '\n' :: text) :=
    List.dropWhile_cons_of_neg (by rw [visible]; exact Bool.false_ne_true)
  rw [List.cons_append, loadLines, kept]
  dsimp only
  rw [← List.cons_append, getline_append plain]
  rfl

theorem loadLine_header {path : List Char} (trimmed : path.head? ≠ some ' ' ∧ path.getLast? ≠ some ' ') (load : IniLoad) :
    loadLine load ('[' :: path ++ [']']) = some ⟨some path, addSection load.file path⟩ := by
  have last : ('[' :: path ++ [']']).getLast? = some ']' := by rw [List.getLast?_append]; rfl
  have inner : (('[' :: path ++ [']']).drop 1).dropLast = path := by simp
  have line : eatEndWhite ('[' :: path ++ [']']) = '[' :: path ++ [']'] := by
    refine eatEndWhite_of_last ?_
    rw [last]
    decide
  rw [loadLine, line]
  dsimp only
  rw [if_pos ⟨rfl, last⟩, inner, eatWhite_of_trimmed trimmed.1 trimmed.2]

theorem loadLine_entry {entry : Entry} {value : List Char}
    (trimmed : value.head? ≠ some ' ' ∧ value.getLast? ≠ some ' ') (noHeader : value.getLast? ≠ some ']')
    {load : IniLoad} (current : load.current = some entry.path) :
    loadLine load (entry.name ++ '=' :: value) = some ⟨load.current, Function.update load.file entry.path
      (some (Function.update ((load.file entry.path).getD fun _ => none) entry.name (some value)))⟩ := by
  have last : (entry.name ++ '=' :: value).getLast? = ('=' :: value).getLast? :=
    List.getLast?_append_of_ne_nil _ (List.cons_ne_nil '=' value)
  have behind : ∀ c, c ≠ '=' → value.getLast? ≠ some c → ('=' :: value).getLast? ≠ some c := by
    intro c other not
    cases value with
    | nil => simpa using other.symm
    | cons d value => rwa [List.getLast?_cons_cons]
  have line : eatEndWhite (entry.name ++ '=' :: value) = entry.name ++ '=' :: value := by
    refine eatEndWhite_of_last ?_
    rw [last]
    exact behind ' ' (by decide) trimmed.2
  have plain : ∀ c ∈ entry.name, decide (c ≠ '=') = true := by
    intro c member
    refine decide_eq_true ?_
    rintro rfl
    exact entry.nameLine.2 member
  obtain ⟨c, first, visible⟩ := entry.nameStart
  obtain ⟨rest, named⟩ : ∃ rest, entry.name = c :: rest := List.head?_eq_some_iff.mp first
  have start : entry.name.head? ≠ some ' ' := by
    rintro blank
    rw [first, Option.some.injEq] at blank
    rw [blank] at visible
    exact absurd visible (by decide)
  have added : ∀ table, addAssignment table (entry.name ++ '=' :: value) =
      some (Function.update table entry.name (some value)) := by
    intro table
    have front : (entry.name ++ '=' :: value).takeWhile (· ≠ '=') = entry.name := by
      rw [List.takeWhile_append_of_pos plain]
      simp
    have back : (entry.name ++ '=' :: value).dropWhile (· ≠ '=') = '=' :: value := by
      rw [List.dropWhile_append_of_pos plain]
      simp
    rw [addAssignment, front, back, named]
    dsimp only
    rw [← named, decide_eq_false entry.nameEnd.2, if_neg entry.nameEnd.2, eatWhite_of_trimmed start entry.nameEnd.1,
      eatWhite_of_trimmed trimmed.1 trimmed.2, addEntry]
    simp
  rw [loadLine, line]
  dsimp only
  rw [if_neg ?_, current]
  · simp only [added, Option.map_some]
  · rintro ⟨-, bracket⟩
    rw [last] at bracket
    exact behind ']' (by decide) noHeader bracket

/-- **The round trip**: an array that is written into its section is read back. -/
theorem arrayParamIn_checkpoint (entry : Entry) (param : List UInt8) :
    arrayParamIn entry (checkpoint entry param) = some param := by
  have blank := @texts_plain ' ' rfl param
  have bracket := @texts_plain ']' rfl param
  have newline := @texts_plain '\n' rfl param
  have trimmed := ends_intercalate blank (texts_filled param)
  have noHeader : ([' '].intercalate (param.map showParam)).getLast? ≠ some ']' := fun last =>
    not_mem_intercalate (by decide) bracket (List.mem_of_getLast? last)
  have header : '\n' ∉ '[' :: entry.path ++ [']'] := by simpa using entry.pathLine
  have oneLine : '\n' ∉ entry.name ++ '=' :: [' '].intercalate (param.map showParam) := by
    have values := @not_mem_intercalate ' ' '\n' _ (by decide) newline
    simpa [entry.nameLine.1] using values
  obtain ⟨c, first, visible⟩ := entry.nameStart
  have text : checkpoint entry param = '\n' :: (('[' :: entry.path ++ [']']) ++ '\n' ::
      (entry.name ++ '=' :: [' '].intercalate (param.map showParam) ++ '\n' :: [])) := by
    simp [checkpoint, nameOut, arrayParamOut]
  have long : 3 ≤ (checkpoint entry param).length := by
    rw [text, List.length_cons, List.length_append, List.length_append, List.length_singleton, List.length_cons]
    omega
  obtain ⟨fuel, enough⟩ := Nat.exists_eq_add_of_le' long
  have loaded : load (checkpoint entry param) = some (Function.update (addSection (fun _ => none) entry.path) entry.path
      (some (Function.update (fun _ => none) entry.name (some ([' '].intercalate (param.map showParam)))))) := by
    rw [load, enough, text, loadLines_space rfl, loadLines_line header ⟨'[', rfl, rfl⟩,
      loadLine_header entry.pathTrimmed, Option.bind_some,
      loadLines_line oneLine ⟨c, by rw [List.head?_append, first]; rfl, visible⟩, loadLine_entry trimmed noHeader rfl]
    simp [addSection, loadLines]
  rw [arrayParamIn, loaded]
  simp [find, parse_tokens]

end Checkpoint

end Emas.Gem5

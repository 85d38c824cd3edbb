/-
**Text: lines, fields and numerals.**

Texts are lists of characters. A stream is read up to a delimiter (`getline`); a text whose lines all end in the
delimiter is read line by line (`getline_unlines`). Numerals are printed by `Nat.toDigits` and read by `numeral`, the
value of the longest run of digits:

* `numeral_toDigits` — **a printed number is read back**, in any base up to sixteen.
-/

import Mathlib.Data.List.Basic
import Mathlib.Data.List.TakeWhile
import Mathlib.Algebra.Group.Nat.Defs

namespace Emas.Text

/-! ### Lines -/

/-- `getline( stream, line, delim )`: the line, and what follows the delimiter. `none` is the end of the stream. -/
def getline (delim : Char) (text : List Char) : List Char × Option (List Char) :=
  (text.takeWhile (· ≠ delim),
    match text.dropWhile (· ≠ delim) with
    | [] => none
    | _ :: rest => some rest)

def unlines (delim : Char) (lines : List (List Char)) : List Char := lines.flatMap (· ++ [delim])

theorem getline_append {delim : Char} {line : List Char} (inside : delim ∉ line) (rest : List Char) :
    getline delim (line ++ delim :: rest) = (line, some rest) := by
  have plain : ∀ c ∈ line, decide (c ≠ delim) = true := by
    intro c member
    simp only [ne_eq, decide_eq_true_eq]
    rintro rfl
    exact inside member
  rw [getline, List.takeWhile_append_of_pos plain, List.dropWhile_append_of_pos plain]
  simp

theorem getline_unlines {delim : Char} {line : List Char} (inside : delim ∉ line) (lines : List (List Char)) :
    getline delim (unlines delim (line :: lines)) = (line, some (unlines delim lines)) := by
  have split : unlines delim (line :: lines) = line ++ delim :: unlines delim lines := by
    simp [unlines]
  rw [split, getline_append inside]

/-- The fields of a line: `while( getline( stream, field, delim ) )`, without the empty ones. -/
def fields (delim : Char) (line : List Char) : List (List Char) := (line.splitOn delim).filter (· ≠ [])

theorem fields_intercalate {delim : Char} {texts : List (List Char)}
    (inside : ∀ text ∈ texts, delim ∉ text) (filled : ∀ text ∈ texts, text ≠ []) (some : texts ≠ []) :
    fields delim ([delim].intercalate texts) = texts := by
  rw [fields, List.splitOn_intercalate delim inside some]
  exact List.filter_eq_self.mpr fun text member => by simpa using filled text member

theorem not_mem_intercalate {delim c : Char} {texts : List (List Char)} (other : c ≠ delim)
    (inside : ∀ text ∈ texts, c ∉ text) : c ∉ [delim].intercalate texts := by
  induction texts with
  | nil => simp
  | cons text rest ih =>
    have later := ih fun text member => inside text (.tail _ member)
    cases rest with
    | nil => simpa using inside text (List.mem_cons_self ..)
    | cons next rest =>
      rw [List.intercalate_cons_cons]
      simp [other, inside text (List.mem_cons_self ..), later]

theorem ends_intercalate {delim : Char} {texts : List (List Char)} (inside : ∀ text ∈ texts, delim ∉ text)
    (filled : ∀ text ∈ texts, text ≠ []) :
    ([delim].intercalate texts).head? ≠ some delim ∧ ([delim].intercalate texts).getLast? ≠ some delim := by
  induction texts with
  | nil => simp
  | cons text rest ih =>
    have plain := inside text (List.mem_cons_self ..)
    have some := filled text (List.mem_cons_self ..)
    cases rest with
    | nil =>
      rw [List.intercalate_singleton]
      exact ⟨fun first => plain (List.mem_of_head? first), fun last => plain (List.mem_of_getLast? last)⟩
    | cons next rest =>
      have later := ih (fun text member => inside text (.tail _ member)) fun text member => filled text (.tail _ member)
      have more : [delim].intercalate (next :: rest) ≠ [] := by
        cases rest with
        | nil =>
          rw [List.intercalate_singleton]
          exact filled next (.tail _ (List.mem_cons_self ..))
        | cons => simp [List.intercalate_cons_cons]
      rw [List.intercalate_cons_cons, List.append_assoc, List.head?_append_of_ne_nil _ some,
        List.getLast?_append_of_ne_nil _ (by simp), List.getLast?_append_of_ne_nil _ more]
      exact ⟨fun first => plain (List.mem_of_head? first), later.2⟩

/-! ### Numerals -/

/-- The value of a digit; sixteen for any other character. -/
def digitValue (c : Char) : Nat :=
  if '0' ≤ c ∧ c ≤ '9' then c.toNat - '0'.toNat
  else if 'a' ≤ c ∧ c ≤ 'f' then c.toNat - 'a'.toNat + 10
  else if 'A' ≤ c ∧ c ≤ 'F' then c.toNat - 'A'.toNat + 10
  else 16

def valueOf (base : Nat) (digits : List Char) (before : Nat) : Nat :=
  digits.foldl (fun value c => base * value + digitValue c) before

/-- The value of the longest run of digits that the text starts with. -/
def numeral (base : Nat) (text : List Char) : Nat :=
  valueOf base (text.takeWhile (digitValue · < base)) 0

theorem digitValue_digitChar {digit : Nat} (small : digit < 16) : digitValue digit.digitChar = digit := by
  have each : ∀ digit : Fin 16, digitValue digit.val.digitChar = digit.val := by decide
  exact each ⟨digit, small⟩

theorem digitValue_of_mem_toDigits {base : Nat} (large : 1 < base) (small : base ≤ 16) (n : Nat) :
    ∀ c ∈ Nat.toDigits base n, digitValue c < base := by
  induction n using Nat.strongRecOn with
  | ind n ih =>
    rw [Nat.toDigits_eq_if large]
    split
    · intro c member
      rw [List.mem_singleton.mp member, digitValue_digitChar (by omega)]
      assumption
    · intro c member
      have lower : n % base < base := Nat.mod_lt _ (by omega)
      rcases List.mem_append.mp member with front | last
      · exact ih (n / base) (Nat.div_lt_self (by omega) large) c front
      · rw [List.mem_singleton.mp last, digitValue_digitChar (by omega)]
        exact lower

theorem valueOf_append (base : Nat) (first second : List Char) (before : Nat) :
    valueOf base (first ++ second) before = valueOf base second (valueOf base first before) :=
  List.foldl_append

theorem valueOf_toDigits {base : Nat} (large : 1 < base) (small : base ≤ 16) (n : Nat) :
    valueOf base (Nat.toDigits base n) 0 = n := by
  induction n using Nat.strongRecOn with
  | ind n ih =>
    rw [Nat.toDigits_eq_if large]
    split
    · show base * 0 + digitValue n.digitChar = n
      rw [digitValue_digitChar (by omega), Nat.mul_zero, Nat.zero_add]
    · have lower : n % base < base := Nat.mod_lt _ (by omega)
      rw [valueOf_append, ih (n / base) (Nat.div_lt_self (by omega) large)]
      show base * (n / base) + digitValue (n % base).digitChar = n
      rw [digitValue_digitChar (by omega)]
      exact Nat.div_add_mod n base

theorem takeWhile_digits {base : Nat} {digits : List Char} (all : ∀ c ∈ digits, digitValue c < base) :
    digits.takeWhile (digitValue · < base) = digits :=
  List.takeWhile_eq_self_iff.mpr fun c member => decide_eq_true (all c member)

/-- **A printed number is read back.** -/
theorem numeral_toDigits {base : Nat} (large : 1 < base) (small : base ≤ 16) (n : Nat) :
    numeral base (Nat.toDigits base n) = n := by
  rw [numeral, takeWhile_digits (digitValue_of_mem_toDigits large small n), valueOf_toDigits large small]

end Emas.Text

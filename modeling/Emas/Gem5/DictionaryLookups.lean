/-
**Where decompression looks in the dictionary.**

`decompressValue` reads the entry at the match location of a pattern, whether the pattern needs it or not. A pattern that
matched no entry has the location -1, which `getMatchLocation` returns as 255.

**`lookups_inside_iff`** — every entry that is read is in the dictionary if and only if the dictionary has 256 entries or
more, or the zero base of `BaseDelta` is near all values.
-/

import Emas.Gem5.DictionaryCompressor

namespace Emas.Gem5

open PatternClass

/-! ### Patterns and locations -/

theorem Pattern.getMatchLocation_lt {w : Nat} (pattern : Pattern w) : pattern.getMatchLocation < 256 := by
  rw [getMatchLocation]
  omega

/-- The classes of a factory give their patterns the location they are called with. -/
def PatternFactory.Located {w : Nat} (factory : PatternFactory w) : Prop :=
  ∀ head ∈ factory.last :: factory.heads, ∀ bytes matchLocation, (head.make bytes matchLocation).matchLocation = matchLocation

theorem PatternFactory.Located.getPattern {w : Nat} {factory : PatternFactory w} (located : factory.Located)
    (bytes dictBytes : BitVec w) (matchLocation : Int) :
    (factory.getPattern bytes dictBytes matchLocation).matchLocation = matchLocation := by
  unfold PatternFactory.getPattern
  cases found : factory.heads.find? fun head => head.isPattern bytes dictBytes matchLocation with
  | none => exact located _ (List.mem_cons_self ..) _ _
  | some head => exact located head (List.mem_cons_of_mem _ (List.mem_of_find?_eq_some found)) _ _

namespace DictionaryCompressor

variable {w : Nat} {compressor : DictionaryCompressor w}

theorem compressValues_cons {dictionary final : Dictionary w} {value : BitVec w} {rest : List (BitVec w)}
    {patterns : List (Pattern w)} (done : compressor.compressValues dictionary (value :: rest) = some (patterns, final)) :
    ∃ updated others, compressor.update dictionary (compressor.findPattern dictionary value) value = some updated ∧
      compressor.compressValues updated rest = some (others, final) ∧
      patterns = compressor.findPattern dictionary value :: others := by
  obtain ⟨updated, update, done⟩ := Option.bind_eq_some_iff.mp done
  obtain ⟨⟨others, last⟩, onward, same⟩ := Option.map_eq_some_iff.mp done
  obtain ⟨rfl, rfl⟩ := Prod.mk.inj same
  exact ⟨updated, others, update, onward, rfl⟩

/-- The first value of a line meets an empty dictionary, unless this has a base in it from the start. -/
theorem findPattern_reset (dictionarySize : Nat) (bytes : BitVec w) :
    compressor.findPattern (.reset dictionarySize) bytes = compressor.factory.getPattern bytes 0 (-1) := rfl

theorem first_unmatched {dictionarySize : Nat} (located : compressor.factory.Located)
    (empty : compressor.resetDictionary = some (.reset dictionarySize)) {values : List (BitVec w)} (nonempty : values ≠ [])
    {patterns : List (Pattern w)} {dictionary : Dictionary w} (done : compressor.compress values = some (patterns, dictionary)) :
    ∃ pattern ∈ patterns, pattern.matchLocation = -1 := by
  obtain ⟨first, rest, rfl⟩ := List.exists_cons_of_ne_nil nonempty
  rw [compress, empty, Option.bind_some] at done
  obtain ⟨updated, others, -, -, rfl⟩ := compressValues_cons done
  exact ⟨_, List.mem_cons_self .., by rw [findPattern_reset]; exact located.getPattern ..⟩

theorem compressValues_isSome (appends : compressor.addToDictionary = Dictionary.append) {dictionary : Dictionary w}
    {values : List (BitVec w)} (room : dictionary.numEntries + values.length ≤ dictionary.entries.length) :
    ∃ result, compressor.compressValues dictionary values = some result := by
  induction values generalizing dictionary with
  | nil => exact ⟨_, rfl⟩
  | cons value rest ih =>
    rw [List.length_cons] at room
    have updated : ∃ next, compressor.update dictionary (compressor.findPattern dictionary value) value = some next ∧
        next.numEntries + rest.length ≤ next.entries.length := by
      rw [update, appends]
      split
      · rw [Dictionary.append, if_pos (by omega)]
        exact ⟨_, rfl, by dsimp only; rw [List.length_set]; omega⟩
      · exact ⟨_, rfl, by omega⟩
    obtain ⟨next, update, fits⟩ := updated
    obtain ⟨result, onward⟩ := ih fits
    exact ⟨_, by rw [compressValues, update, Option.bind_some, onward]; rfl⟩

theorem compress_isSome {dictionarySize : Nat} (appends : compressor.addToDictionary = Dictionary.append)
    (empty : compressor.resetDictionary = some (.reset dictionarySize)) {values : List (BitVec w)}
    (room : values.length ≤ dictionarySize) :
    ∃ patterns dictionary, compressor.compress values = some (patterns, dictionary) := by
  obtain ⟨⟨patterns, dictionary⟩, done⟩ := compressValues_isSome appends
    (show (Dictionary.reset dictionarySize : Dictionary w).numEntries + values.length ≤ _ by
      rw [Dictionary.reset, List.length_replicate, Nat.zero_add]
      exact room)
  exact ⟨patterns, dictionary, by rw [compress, empty]; exact done⟩

theorem foldl_smaller_eq {patterns : List (Pattern w)} {start : Pattern w}
    (least : ∀ pattern ∈ patterns, start.getSizeBits ≤ pattern.getSizeBits) : patterns.foldl smaller start = start := by
  induction patterns with
  | nil => rfl
  | cons pattern rest ih =>
    rw [List.foldl_cons, smaller, if_neg (Nat.not_lt.mpr (least pattern (List.mem_cons_self ..)))]
    exact ih fun other member => least other (List.mem_cons_of_mem _ member)

end DictionaryCompressor

/-! ### Bases -/

/-- The sizes of a base and of a delta, as the `static_assert` wants them, for values that a qword is made of. -/
structure DeltaSizes where
  baseBits : Nat
  deltaSizeBits : Nat
  smaller : deltaSizeBits < baseBits
  dvd : baseBits ∣ 64

namespace DeltaSizes

/-- `class Base64Delta8`. -/
def base64Delta8 : DeltaSizes := ⟨64, 8, by decide, by decide⟩

/-- `class Base64Delta16`. -/
def base64Delta16 : DeltaSizes := ⟨64, 16, by decide, by decide⟩

/-- `class Base64Delta32`. -/
def base64Delta32 : DeltaSizes := ⟨64, 32, by decide, by decide⟩

/-- `class Base32Delta8`. -/
def base32Delta8 : DeltaSizes := ⟨32, 8, by decide, by decide⟩

/-- `class Base32Delta16`. -/
def base32Delta16 : DeltaSizes := ⟨32, 16, by decide, by decide⟩

/-- `class Base16Delta8`. -/
def base16Delta8 : DeltaSizes := ⟨16, 8, by decide, by decide⟩

end DeltaSizes

namespace BaseDelta

variable (sizes : DeltaSizes)

theorem deltaSizeBits_lt : sizes.deltaSizeBits < 64 := Nat.lt_of_lt_of_le sizes.smaller (Nat.le_of_dvd (by decide) sizes.dvd)

theorem size_patternM (bytes : BitVec sizes.baseBits) (matchLocation : Int) :
    ((patternM sizes.baseBits sizes.deltaSizeBits).make bytes matchLocation).getSizeBits = sizes.deltaSizeBits + 1 := by
  have small := deltaSizeBits_lt sizes
  have one : Nat.clog 2 defaultMaxNumBases = 1 := by decide
  simp [patternM, delta, Pattern.getSizeBits, one]
  omega

theorem size_patternX (bytes : BitVec sizes.baseBits) (matchLocation : Int) :
    ((patternX sizes.baseBits sizes.deltaSizeBits).make bytes matchLocation).getSizeBits =
      sizes.baseBits + (sizes.deltaSizeBits + 1) := by
  have small := deltaSizeBits_lt sizes
  have fits := Nat.le_of_dvd (by decide) sizes.dvd
  have one : Nat.clog 2 defaultMaxNumBases = 1 := by decide
  simp [patternX, uncompressed, Pattern.getSizeBits, one]
  omega

theorem getPattern_eq (dictionarySize : Nat) (bytes base : BitVec sizes.baseBits) (i : Nat) :
    (compressor sizes.baseBits sizes.deltaSizeBits dictionarySize).factory.getPattern bytes base i =
      if isValidDelta sizes.deltaSizeBits bytes base then (patternM sizes.baseBits sizes.deltaSizeBits).make bytes i
      else (patternX sizes.baseBits sizes.deltaSizeBits).make bytes i := by
  by_cases near : isValidDelta sizes.deltaSizeBits bytes base = true
  · simp [PatternFactory.getPattern, compressor, patternM, delta, near]
  · simp [PatternFactory.getPattern, compressor, patternM, delta, near]

/-- The entries that are in use. -/
def bases {w : Nat} (dictionary : Dictionary w) : List (BitVec w) := dictionary.entries.take dictionary.numEntries

/-- **What stands for a value**: a delta from the first base that is near, or a new base. -/
theorem findPattern_eq (dictionarySize : Nat) (dictionary : Dictionary sizes.baseBits) (bytes : BitVec sizes.baseBits) :
    (compressor sizes.baseBits sizes.deltaSizeBits dictionarySize).findPattern dictionary bytes =
      match (bases dictionary).findIdx? (isValidDelta sizes.deltaSizeBits bytes) with
      | some i => (patternM sizes.baseBits sizes.deltaSizeBits).make bytes i
      | none => (patternX sizes.baseBits sizes.deltaSizeBits).make bytes (-1) := by
  suffices found : ∀ (bases : List (BitVec sizes.baseBits)) (k : Nat),
      (bases.zipIdx k).foldl (fun pattern entry => DictionaryCompressor.smaller pattern
        ((compressor sizes.baseBits sizes.deltaSizeBits dictionarySize).factory.getPattern bytes entry.1 entry.2))
        ((patternX sizes.baseBits sizes.deltaSizeBits).make bytes (-1)) =
      match bases.findIdx? (isValidDelta sizes.deltaSizeBits bytes) with
      | some i => (patternM sizes.baseBits sizes.deltaSizeBits).make bytes ((i + k : Nat) : Int)
      | none => (patternX sizes.baseBits sizes.deltaSizeBits).make bytes (-1) from found (bases dictionary) 0
  intro bases
  induction bases with
  | nil => exact fun _ => rfl
  | cons base rest ih =>
    intro k
    rw [List.zipIdx_cons, List.foldl_cons, List.findIdx?_cons, getPattern_eq, DictionaryCompressor.smaller]
    by_cases near : isValidDelta sizes.deltaSizeBits bytes base = true
    · -- no later pattern is smaller than a delta
      have less : sizes.deltaSizeBits + 1 < sizes.baseBits + (sizes.deltaSizeBits + 1) := by
        have positive := sizes.smaller
        omega
      rw [if_pos near, if_pos near, size_patternM, size_patternX, if_pos less]
      have stays : ((rest.zipIdx (k + 1)).map fun entry => (compressor sizes.baseBits sizes.deltaSizeBits
          dictionarySize).factory.getPattern bytes entry.1 entry.2).foldl DictionaryCompressor.smaller
          ((patternM sizes.baseBits sizes.deltaSizeBits).make bytes k) =
          (patternM sizes.baseBits sizes.deltaSizeBits).make bytes k := by
        refine DictionaryCompressor.foldl_smaller_eq fun pattern member => ?_
        obtain ⟨entry, -, rfl⟩ := List.mem_map.mp member
        rw [getPattern_eq, size_patternM]
        split
        · rw [size_patternM]
        · rw [size_patternX]
          exact less.le
      rw [List.foldl_map] at stays
      rw [stays]
      dsimp only
      rw [Nat.zero_add]
    · rw [if_neg near, if_neg near, size_patternX, size_patternX, if_neg (Nat.lt_irrefl _), ih]
      cases rest.findIdx? (isValidDelta sizes.deltaSizeBits bytes) with
      | none => rfl
      | some i =>
        show (patternM sizes.baseBits sizes.deltaSizeBits).make bytes ((i + (k + 1) : Nat) : Int) =
          (patternM sizes.baseBits sizes.deltaSizeBits).make bytes ((i + 1 + k : Nat) : Int)
        rw [Nat.add_right_comm, Nat.add_assoc]

variable {sizes}

theorem bases_reset {dictionarySize : Nat} {dictionary : Dictionary sizes.baseBits}
    (reset : (compressor sizes.baseBits sizes.deltaSizeBits dictionarySize).resetDictionary = some dictionary) :
    0 < dictionarySize ∧ bases dictionary = [0] := by
  have appended : (Dictionary.reset dictionarySize).append 0 = some dictionary := reset
  unfold Dictionary.append at appended
  split at appended
  · next room =>
    have positive : 0 < dictionarySize := by simpa [Dictionary.reset] using room
    obtain ⟨rest, rfl⟩ := Nat.exists_eq_succ_of_ne_zero positive.ne'
    cases appended
    exact ⟨positive, rfl⟩
  · cases appended

theorem inside_iff {dictionarySize : Nat} (positive : 0 < dictionarySize) {dictionary final : Dictionary sizes.baseBits}
    (zeroBase : bases dictionary = [0]) {values : List (BitVec sizes.baseBits)} {patterns : List (Pattern sizes.baseBits)}
    (done : (compressor sizes.baseBits sizes.deltaSizeBits dictionarySize).compressValues dictionary values =
      some (patterns, final)) : (∀ pattern ∈ patterns, pattern.getMatchLocation < dictionarySize) ↔
      256 ≤ dictionarySize ∨ ∀ value ∈ values, isValidDelta sizes.deltaSizeBits value 0 = true := by
  induction values generalizing patterns with
  | nil =>
    cases done
    exact iff_of_true (fun _ => nofun) (.inr fun _ => nofun)
  | cons value rest ih =>
    obtain ⟨updated, others, update, onward, rfl⟩ := DictionaryCompressor.compressValues_cons done
    rw [findPattern_eq, zeroBase, List.findIdx?_singleton] at update ⊢
    by_cases near : isValidDelta sizes.deltaSizeBits value 0 = true
    · rw [if_pos near] at update ⊢
      cases update
      rw [List.forall_mem_cons, ih onward, List.forall_mem_cons, and_iff_right near]
      exact and_iff_right positive
    · rw [if_neg near]
      constructor
      · intro inside
        exact .inl (inside _ (List.mem_cons_self ..))
      · rintro (large | all)
        · exact fun pattern _ => Nat.lt_of_lt_of_le pattern.getMatchLocation_lt large
        · exact absurd (all value (List.mem_cons_self ..)) near

end BaseDelta

/-! ### Every compressor -/

/-- The dictionary compressors. -/
inductive DictionaryScheme where
  | cpack
  | fpcd
  | zero
  | repeatedQwords
  | baseDelta (sizes : DeltaSizes)

theorem CPack.located (dictionarySize : Nat) : (CPack.compressor dictionarySize).factory.Located := by
  repeat refine List.forall_mem_cons.mpr ⟨fun _ _ => rfl, ?_⟩
  exact fun _ => nofun

theorem FPCD.located (dictionarySize : Nat) : (FPCD.compressor dictionarySize).factory.Located := by
  repeat refine List.forall_mem_cons.mpr ⟨fun _ _ => rfl, ?_⟩
  exact fun _ => nofun

theorem ZeroCompressor.located (dictionarySize : Nat) : (ZeroCompressor.compressor dictionarySize).factory.Located := by
  repeat refine List.forall_mem_cons.mpr ⟨fun _ _ => rfl, ?_⟩
  exact fun _ => nofun

theorem RepeatedQwordsCompressor.located (dictionarySize : Nat) :
    (RepeatedQwordsCompressor.compressor dictionarySize).factory.Located := by
  repeat refine List.forall_mem_cons.mpr ⟨fun _ _ => rfl, ?_⟩
  exact fun _ => nofun

namespace DictionaryScheme

/-- The size of the values. -/
def width : DictionaryScheme → Nat
  | cpack | fpcd => 32
  | zero | repeatedQwords => 64
  | baseDelta sizes => sizes.baseBits

/-- The compressor, with a dictionary of so many entries. -/
def compressor : (scheme : DictionaryScheme) → Nat → DictionaryCompressor scheme.width
  | cpack => CPack.compressor
  | fpcd => FPCD.compressor
  | zero => ZeroCompressor.compressor
  | repeatedQwords => RepeatedQwordsCompressor.compressor
  | baseDelta sizes => BaseDelta.compressor sizes.baseBits sizes.deltaSizeBits

/-- No value of the line takes a pattern without an entry. -/
def AllMatch : DictionaryScheme → List (BitVec 64) → Prop
  | baseDelta sizes, line => ∀ value ∈ valuesOf sizes.baseBits line, isValidDelta sizes.deltaSizeBits value 0 = true
  | _, line => line = []

theorem length_valuesOf (w : Nat) (line : List (BitVec 64)) : (valuesOf w line).length = line.length * (64 / w) := by
  induction line with
  | nil => rw [List.length_nil, Nat.zero_mul]; rfl
  | cons qword rest ih =>
    have split : valuesOf w (qword :: rest) = valuesOf w [qword] ++ valuesOf w rest := by simp [valuesOf]
    have one : (valuesOf w [qword]).length = 64 / w := by simp [valuesOf]
    rw [split, List.length_append, ih, one, List.length_cons, Nat.succ_mul, Nat.add_comm]

theorem valuesOf_eq_nil {w : Nat} (dvd : w ∣ 64) {line : List (BitVec 64)} : valuesOf w line = [] ↔ line = [] := by
  have positive : 64 / w ≠ 0 := (Nat.div_pos (Nat.le_of_dvd (by decide) dvd) (Nat.pos_of_dvd_of_pos dvd (by decide))).ne'
  rw [← List.length_eq_zero_iff, length_valuesOf, Nat.mul_eq_zero, or_iff_left positive, List.length_eq_zero_iff]

theorem inside_iff_of_empty {w dictionarySize : Nat} {compressor : DictionaryCompressor w} (dvd : w ∣ 64)
    (located : compressor.factory.Located) (empty : compressor.resetDictionary = some (.reset dictionarySize))
    {line : List (BitVec 64)} {patterns : List (Pattern w)} {dictionary : Dictionary w}
    (done : compressor.compress (valuesOf w line) = some (patterns, dictionary)) :
    (∀ pattern ∈ patterns, pattern.getMatchLocation < dictionarySize) ↔ 256 ≤ dictionarySize ∨ line = [] := by
  constructor
  · intro inside
    refine or_iff_not_imp_right.mpr fun nonempty => ?_
    obtain ⟨pattern, member, unmatched⟩ := DictionaryCompressor.first_unmatched located empty
      (fun none => nonempty ((valuesOf_eq_nil dvd).mp none)) done
    have location := inside pattern member
    rw [Pattern.getMatchLocation, unmatched] at location
    exact location
  · rintro (large | rfl)
    · exact fun pattern _ => Nat.lt_of_lt_of_le pattern.getMatchLocation_lt large
    · rw [(valuesOf_eq_nil dvd).mpr rfl, DictionaryCompressor.compress, empty] at done
      cases done
      exact fun _ => nofun

/-- **When every lookup is inside the dictionary.** -/
theorem lookups_inside_iff (scheme : DictionaryScheme) (dictionarySize : Nat) (line : List (BitVec 64))
    {patterns : List (Pattern scheme.width)} {dictionary : Dictionary scheme.width}
    (done : (scheme.compressor dictionarySize).compress (valuesOf scheme.width line) = some (patterns, dictionary)) :
    (∀ pattern ∈ patterns, pattern.getMatchLocation < dictionarySize) ↔ 256 ≤ dictionarySize ∨ scheme.AllMatch line := by
  cases scheme with
  | baseDelta sizes =>
    obtain ⟨start, reset, onward⟩ := Option.bind_eq_some_iff.mp done
    obtain ⟨positive, zeroBase⟩ := BaseDelta.bases_reset reset
    exact BaseDelta.inside_iff positive zeroBase onward
  | cpack => exact inside_iff_of_empty (by decide) (CPack.located _) rfl done
  | fpcd => exact inside_iff_of_empty (by decide) (FPCD.located _) rfl done
  | zero => exact inside_iff_of_empty (by decide) (ZeroCompressor.located _) rfl done
  | repeatedQwords => exact inside_iff_of_empty (by decide) (RepeatedQwordsCompressor.located _) rfl done

/-- A line that `CPack` compresses, with a dictionary of 256 entries. -/
theorem lookups_inside_cpack : ∃ patterns dictionary,
    (CPack.compressor 256).compress (valuesOf 32 [1]) = some (patterns, dictionary) ∧
      ∀ pattern ∈ patterns, pattern.getMatchLocation < 256 := by
  obtain ⟨patterns, dictionary, done⟩ := @DictionaryCompressor.compress_isSome 32 (CPack.compressor 256) 256 rfl rfl
    (valuesOf 32 [1]) (by decide)
  exact ⟨patterns, dictionary, done, (lookups_inside_iff .cpack 256 [1] done).mpr (.inl (Nat.le_refl _))⟩

/-- **The first lookup of a line is outside a dictionary of 64 entries.** -/
theorem first_lookup_outside : ¬ ∀ patterns dictionary,
    (CPack.compressor 64).compress (valuesOf 32 [1]) = some (patterns, dictionary) →
      ∀ pattern ∈ patterns, pattern.getMatchLocation < 64 := by
  intro all
  obtain ⟨patterns, dictionary, done⟩ := @DictionaryCompressor.compress_isSome 32 (CPack.compressor 64) 64 rfl rfl
    (valuesOf 32 [1]) (by decide)
  obtain ⟨pattern, member, unmatched⟩ := DictionaryCompressor.first_unmatched (CPack.located 64) rfl
    (fun none => absurd ((@valuesOf_eq_nil 32 (by decide) [1]).mp none) (List.cons_ne_nil _ _)) done
  have inside := all patterns dictionary done pattern member
  rw [Pattern.getMatchLocation, unmatched] at inside
  exact absurd inside (by decide)

end DictionaryScheme

end Emas.Gem5

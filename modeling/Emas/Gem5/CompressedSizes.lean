/-
**What the size of a compressed line tells.**

`ZeroCompressor`, `RepeatedQwordsCompressor` and `BaseDelta` judge from the number of dictionary entries whether a line could
be compressed.

**`sizesTell_iff`** — the sizes tell what a line is, if and only if its qwords are not all equal.
-/

import Emas.Gem5.DictionaryLookups
import Emas.Lib.Cover

namespace Emas.Gem5

open PatternClass

theorem Dictionary.append_eq {w : Nat} {dictionary next : Dictionary w} {data : BitVec w}
    (done : dictionary.append data = some next) : dictionary.numEntries < dictionary.entries.length ∧
      next = ⟨dictionary.entries.set dictionary.numEntries data, dictionary.numEntries + 1⟩ := by
  unfold append at done
  split at done
  · next room =>
    cases done
    exact ⟨room, rfl⟩
  · cases done

namespace DictionaryCompressor

variable {w : Nat} {compressor : DictionaryCompressor w}

theorem findPattern_of_uniform {bytes : BitVec w} (uniform : ∀ entry (i : Nat),
    (compressor.factory.getPattern bytes entry i).getSizeBits = (compressor.factory.getPattern bytes 0 (-1)).getSizeBits)
    (dictionary : Dictionary w) : compressor.findPattern dictionary bytes = compressor.factory.getPattern bytes 0 (-1) := by
  have stays : ((dictionary.entries.take dictionary.numEntries).zipIdx.map fun entry =>
      compressor.factory.getPattern bytes entry.1 entry.2).foldl smaller (compressor.factory.getPattern bytes 0 (-1)) =
      compressor.factory.getPattern bytes 0 (-1) := by
    refine foldl_smaller_eq fun pattern member => ?_
    obtain ⟨entry, -, rfl⟩ := List.mem_map.mp member
    exact (uniform entry.1 entry.2).ge
  rwa [List.foldl_map] at stays

theorem findPattern_of_all {bytes : BitVec w} {fits : Pattern w → Prop}
    (all : ∀ entry matchLocation, fits (compressor.factory.getPattern bytes entry matchLocation)) (dictionary : Dictionary w) :
    fits (compressor.findPattern dictionary bytes) := by
  unfold findPattern
  generalize (dictionary.entries.take dictionary.numEntries).zipIdx = entries
  generalize start : compressor.factory.getPattern bytes 0 (-1) = pattern
  replace start : fits pattern := start ▸ all 0 (-1)
  induction entries generalizing pattern with
  | nil => exact start
  | cons entry rest ih =>
    refine ih _ ?_
    show fits (smaller pattern (compressor.factory.getPattern bytes entry.1 entry.2))
    unfold smaller
    split
    · exact all _ _
    · exact start

theorem compressValues_fits (appends : compressor.addToDictionary = Dictionary.append) {dictionary final : Dictionary w}
    (fits : dictionary.numEntries ≤ dictionary.entries.length) {values : List (BitVec w)} {patterns : List (Pattern w)}
    (done : compressor.compressValues dictionary values = some (patterns, final)) :
    final.entries.length = dictionary.entries.length ∧ final.numEntries ≤ dictionary.entries.length := by
  induction values generalizing dictionary patterns with
  | nil =>
    cases done
    exact ⟨rfl, fits⟩
  | cons value rest ih =>
    obtain ⟨updated, others, update, onward, -⟩ := compressValues_cons done
    rw [DictionaryCompressor.update, appends] at update
    split at update
    · obtain ⟨room, rfl⟩ := Dictionary.append_eq update
      have rest_fits := ih (by rw [List.length_set]; exact room) onward
      rwa [List.length_set] at rest_fits
    · cases update
      exact ih fits onward

end DictionaryCompressor

theorem valuesOf_qwords (line : List (BitVec 64)) : valuesOf 64 line = line := by
  have one (qword : BitVec 64) : (List.range (64 / 64)).map (fun i => (qword >>> (64 * i)).setWidth 64) = [qword] := by
    simp
  simp only [valuesOf, one]
  exact List.flatMap_singleton' line

/-! ### Zeros -/

namespace ZeroCompressor

variable {dictionarySize : Nat} {dictionary final : Dictionary 64} {values : List (BitVec 64)} {patterns : List (Pattern 64)}

theorem getPattern_eq (bytes entry : BitVec 64) (matchLocation : Int) :
    (compressor dictionarySize).factory.getPattern bytes entry matchLocation =
      if bytes = 0 then patternZ.make bytes matchLocation else patternX.make bytes matchLocation := by
  have ones (value : BitVec 64) : value &&& 0xFFFFFFFFFFFFFFFF#64 = value := BitVec.and_allOnes
  have matched : patternZ.isPattern bytes entry matchLocation = decide (bytes = 0) := by
    show ((0 : BitVec 64) &&& 0xFFFFFFFFFFFFFFFF#64 == bytes &&& 0xFFFFFFFFFFFFFFFF#64) = _
    rw [ones, ones, Bool.beq_eq_decide_eq]
    exact decide_eq_decide.mpr eq_comm
  unfold PatternFactory.getPattern
  show (([patternZ].find? _).getD patternX).make bytes matchLocation = _
  rw [List.find?_singleton, matched]
  by_cases zero : bytes = 0
  · rw [decide_eq_true zero, if_pos rfl, if_pos zero]
    rfl
  · rw [decide_eq_false zero, if_neg Bool.false_ne_true, if_neg zero]
    rfl

theorem findPattern_eq (dictionary : Dictionary 64) (bytes : BitVec 64) :
    (compressor dictionarySize).findPattern dictionary bytes =
      if bytes = 0 then patternZ.make bytes (-1) else patternX.make bytes (-1) := by
  rw [DictionaryCompressor.findPattern_of_uniform ?_, getPattern_eq]
  intro entry i
  rw [getPattern_eq, getPattern_eq]
  split <;> rfl

/-- **A run over the values of a line**: an entry for each that is not zero, one bit for each that is. -/
theorem compressValues_spec (done : (compressor dictionarySize).compressValues dictionary values = some (patterns, final)) :
    final.numEntries = dictionary.numEntries + values.countP (· ≠ 0) ∧
      ((∀ value ∈ values, value = 0) → sizeOfPatterns patterns = values.length) := by
  induction values generalizing dictionary patterns with
  | nil =>
    cases done
    exact ⟨rfl, fun _ => rfl⟩
  | cons value rest ih =>
    obtain ⟨updated, others, update, onward, rfl⟩ := DictionaryCompressor.compressValues_cons done
    obtain ⟨entries, size⟩ := ih onward
    rw [findPattern_eq] at update ⊢
    by_cases zero : value = 0
    · rw [if_pos zero] at update ⊢
      obtain rfl : dictionary = updated := Option.some.inj update
      refine ⟨by rw [entries, List.countP_cons_of_neg (by simpa using zero)], fun all => ?_⟩
      have one : (patternZ.make value (-1)).getSizeBits = 1 := rfl
      have others := size fun other member => all other (List.mem_cons_of_mem _ member)
      rw [sizeOfPatterns, List.map_cons, List.sum_cons, one, ← sizeOfPatterns, others, List.length_cons, Nat.add_comm]
    · rw [if_neg zero] at update ⊢
      obtain ⟨-, rfl⟩ := Dictionary.append_eq update
      refine ⟨?_, fun all => absurd (all value (List.mem_cons_self ..)) zero⟩
      rw [entries, List.countP_cons_of_pos (by simpa using zero), Nat.add_right_comm, Nat.add_assoc]

theorem sizeBits_eq {line : List (BitVec 64)} {out : CompressedLine 64} (done : compress dictionarySize line = some out) :
    out.sizeBits = if ∀ qword ∈ line, qword = 0 then line.length else blkSizeOf line * 8 := by
  obtain ⟨⟨patterns, final⟩, run, rfl⟩ := Option.map_eq_some_iff.mp done
  rw [valuesOf_qwords] at run
  obtain ⟨entries, size⟩ := compressValues_spec run
  have some_entry : final.numEntries > 0 ↔ ¬ ∀ qword ∈ line, qword = 0 := by
    rw [entries, show (Dictionary.reset dictionarySize : Dictionary 64).numEntries = 0 from rfl, Nat.zero_add,
      gt_iff_lt, List.countP_pos_iff]
    push Not
    simp
  dsimp only
  by_cases zeros : ∀ qword ∈ line, qword = 0
  · rw [if_neg (fun entry => some_entry.mp entry zeros), if_pos zeros, size zeros]
  · rw [if_pos (some_entry.mpr zeros), if_neg zeros]

end ZeroCompressor

/-! ### Repeated qwords -/

namespace RepeatedQwordsCompressor

variable {dictionarySize : Nat} {dictionary final : Dictionary 64} {values : List (BitVec 64)} {patterns : List (Pattern 64)}

theorem findPattern_allocate (dictionary : Dictionary 64) (bytes : BitVec 64) :
    ((compressor dictionarySize).findPattern dictionary bytes).allocate = true := by
  refine @DictionaryCompressor.findPattern_of_all 64 (compressor dictionarySize) bytes (·.allocate = true) ?_ dictionary
  intro entry matchLocation
  show ((([patternM].find? fun head => head.isPattern bytes entry matchLocation).getD patternX).make bytes
    matchLocation).allocate = true
  rw [List.find?_singleton]
  split <;> rfl

/-- **A run over the values of a line**: an entry for every value. -/
theorem compressValues_numEntries
    (done : (compressor dictionarySize).compressValues dictionary values = some (patterns, final)) :
    final.numEntries = dictionary.numEntries + values.length := by
  induction values generalizing dictionary patterns with
  | nil =>
    cases done
    rfl
  | cons value rest ih =>
    obtain ⟨updated, others, update, onward, rfl⟩ := DictionaryCompressor.compressValues_cons done
    rw [DictionaryCompressor.update, if_pos (findPattern_allocate ..)] at update
    obtain ⟨-, rfl⟩ := Dictionary.append_eq update
    rw [ih onward, List.length_cons, Nat.add_right_comm, Nat.add_assoc]

theorem sizeBits_eq {line : List (BitVec 64)} (many : 1 < line.length) {out : CompressedLine 64}
    (done : compress dictionarySize line = some out) : out.sizeBits = blkSizeOf line * 8 := by
  obtain ⟨⟨patterns, final⟩, run, done⟩ := Option.bind_eq_some_iff.mp done
  rw [valuesOf_qwords] at run
  have entries : final.numEntries = 0 + line.length := compressValues_numEntries run
  rw [Nat.zero_add] at entries
  dsimp only at done
  rw [entries, if_pos many.le, if_pos many] at done
  cases done
  rfl

end RepeatedQwordsCompressor

/-! ### Deltas -/

namespace BaseDelta

variable {sizes : DeltaSizes} {dictionarySize : Nat} {dictionary final : Dictionary sizes.baseBits}
  {values : List (BitVec sizes.baseBits)} {patterns : List (Pattern sizes.baseBits)}

theorem isValidDelta_self {w : Nat} (deltaSizeBits : Nat) (bytes : BitVec w) : isValidDelta deltaSizeBits bytes bytes = true := by
  unfold isValidDelta
  have none : (bytes - bytes).toInt = 0 := by rw [BitVec.sub_self, BitVec.toInt_zero]
  rw [none, decide_eq_true_iff]
  have limit : (1 : Int) ≤ 2 ^ (deltaSizeBits - 1) := by exact_mod_cast Nat.one_le_two_pow
  split <;> omega

theorem bases_append {w : Nat} {dictionary next : Dictionary w} {data : BitVec w}
    (done : dictionary.append data = some next) : bases next = bases dictionary ++ [data] := by
  obtain ⟨room, rfl⟩ := Dictionary.append_eq done
  unfold bases
  rw [List.take_succ_eq_append_getElem (by rwa [List.length_set]), List.getElem_set_self, List.take_set_of_le (Nat.le_refl _)]

/-- **A run over the values of a line**: the bases are a cover of the values, and every delta and every base has its size. -/
theorem compressValues_spec
    (done : (compressor sizes.baseBits sizes.deltaSizeBits dictionarySize).compressValues dictionary values =
      some (patterns, final)) : bases final = cover (isValidDelta sizes.deltaSizeBits) (bases dictionary) values ∧
      sizeOfPatterns patterns + sizes.baseBits * (bases dictionary).length =
        values.length * (sizes.deltaSizeBits + 1) + sizes.baseBits * (bases final).length := by
  induction values generalizing dictionary patterns with
  | nil =>
    cases done
    exact ⟨rfl, by rw [List.length_nil, Nat.zero_mul]; rfl⟩
  | cons value rest ih =>
    obtain ⟨updated, others, update, onward, rfl⟩ := DictionaryCompressor.compressValues_cons done
    obtain ⟨covered, size⟩ := ih onward
    have sum (pattern : Pattern sizes.baseBits) : sizeOfPatterns (pattern :: others) =
        pattern.getSizeBits + sizeOfPatterns others := List.sum_cons
    rw [sum, List.length_cons, Nat.succ_mul, cover_cons]
    rw [findPattern_eq] at update ⊢
    cases found : (bases dictionary).findIdx? (isValidDelta sizes.deltaSizeBits value) with
    | some i =>
      -- a delta
      rw [found] at update
      obtain rfl : dictionary = updated := Option.some.inj update
      have close : (bases dictionary).any (isValidDelta sizes.deltaSizeBits value) = true := by
        rw [← List.findIdx?_isSome, found]
        rfl
      rw [addTo_of_near close]
      exact ⟨covered, by dsimp only; rw [size_patternM]; omega⟩
    | none =>
      -- a new base
      rw [found] at update
      have appended : bases updated = bases dictionary ++ [value] := bases_append update
      have far : ¬ (bases dictionary).any (isValidDelta sizes.deltaSizeBits value) = true := by
        rw [← List.findIdx?_isSome, found]
        exact Bool.false_ne_true
      rw [appended] at covered size
      rw [addTo_of_far far]
      rw [List.length_append, List.length_singleton, Nat.mul_succ] at size
      exact ⟨covered, by dsimp only; rw [size_patternX]; omega⟩

theorem length_bases
    (done : (compressor sizes.baseBits sizes.deltaSizeBits dictionarySize).compress values = some (patterns, final)) :
    (bases final).length = final.numEntries := by
  obtain ⟨start, reset, run⟩ := Option.bind_eq_some_iff.mp done
  obtain ⟨room, rfl⟩ := Dictionary.append_eq reset
  obtain ⟨size, fits⟩ := DictionaryCompressor.compressValues_fits rfl (by rw [List.length_set]; exact room) run
  rw [bases, List.length_take, size, Nat.min_eq_left fits]

/-- Every value is near zero, or near the first one that is not near zero. -/
def TwoBases (sizes : DeltaSizes) (line : List (BitVec 64)) : Prop :=
  ∀ value ∈ valuesOf sizes.baseBits line, isValidDelta sizes.deltaSizeBits value 0 = true ∨
    ∃ base, (valuesOf sizes.baseBits line).find? (fun other => !isValidDelta sizes.deltaSizeBits other 0) = some base ∧
      isValidDelta sizes.deltaSizeBits value base = true

theorem sizeBits_eq {line : List (BitVec 64)} [Decidable (TwoBases sizes line)] {out : CompressedLine sizes.baseBits}
    (done : compress sizes.baseBits sizes.deltaSizeBits dictionarySize line = some out) :
    out.sizeBits = if TwoBases sizes line
      then (valuesOf sizes.baseBits line).length * (sizes.deltaSizeBits + 1) + sizes.baseBits
      else blkSizeOf line * 8 := by
  obtain ⟨⟨patterns, final⟩, run, rfl⟩ := Option.map_eq_some_iff.mp done
  obtain ⟨start, reset, onward⟩ := Option.bind_eq_some_iff.mp run
  obtain ⟨covered, size⟩ := compressValues_spec onward
  obtain ⟨-, zeroBase⟩ := bases_reset reset
  have entries := length_bases run
  rw [zeroBase] at covered size
  rw [entries, List.length_singleton] at size
  have two : final.numEntries ≤ 2 ↔ TwoBases sizes line := by
    rw [← entries, covered, length_cover_singleton_le fun _ => isValidDelta_self ..]
    rfl
  have positive : 1 ≤ final.numEntries := by
    have kept : [0] <+: bases final := covered ▸ prefix_cover
    have first := kept.length_le
    rwa [entries] at first
  dsimp only [defaultMaxNumBases]
  by_cases near : TwoBases sizes line
  · rw [if_pos near, if_neg (by have := two.mpr near; omega)]
    by_cases one : final.numEntries = 1
    · rw [one, Nat.mul_one, Nat.add_right_cancel_iff] at size
      rw [one, if_pos (by decide), size]
      simp
    · have both : final.numEntries = 2 := by
        have := two.mpr near
        omega
      rw [both] at size ⊢
      rw [if_neg (by decide)]
      omega
  · rw [if_neg near, if_pos (by have := mt two.mp near; omega)]

/-- Two qwords that are near to each other, for `Base64Delta8`. -/
example {out : CompressedLine 64} (done : compress DeltaSizes.base64Delta8.baseBits
    DeltaSizes.base64Delta8.deltaSizeBits dictionarySize [0x1000, 0x1004] = some out) : out.sizeBits = 2 * (8 + 1) + 64 := by
  classical
  have near : TwoBases .base64Delta8 [0x1000, 0x1004] := by
    rw [TwoBases, DeltaSizes.base64Delta8, valuesOf_qwords]
    simp [isValidDelta]
  rw [@sizeBits_eq .base64Delta8 _ _ _ _ done, if_pos near, DeltaSizes.base64Delta8, valuesOf_qwords]
  rfl

end BaseDelta

/-! ### Every line -/

/-- The compressors report sizes that tell what the line is, and they report one where there is room. -/
structure SizesTell (dictionarySize : Nat) (sizes : DeltaSizes) (line : List (BitVec 64)) : Prop where
  zero : 1 < line.length → ∀ out, ZeroCompressor.compress dictionarySize line = some out →
    (out.sizeBits < blkSizeOf line * 8 ↔ ∀ qword ∈ line, qword = 0)
  repeatedQwords : 1 < line.length → ∀ out, RepeatedQwordsCompressor.compress dictionarySize line = some out →
    (out.sizeBits < blkSizeOf line * 8 ↔ ∀ qword ∈ line, ∀ other ∈ line, qword = other)
  baseDelta : ∀ out, BaseDelta.compress sizes.baseBits sizes.deltaSizeBits dictionarySize line = some out →
    (BaseDelta.TwoBases sizes line →
      out.sizeBits = (valuesOf sizes.baseBits line).length * (sizes.deltaSizeBits + 1) + sizes.baseBits) ∧
    (¬ BaseDelta.TwoBases sizes line → out.sizeBits = blkSizeOf line * 8)
  reports : 1 < line.length → (valuesOf sizes.baseBits line).length < dictionarySize →
    (∃ out, ZeroCompressor.compress dictionarySize line = some out) ∧
    (∃ out, RepeatedQwordsCompressor.compress dictionarySize line = some out) ∧
    ∃ out, BaseDelta.compress sizes.baseBits sizes.deltaSizeBits dictionarySize line = some out

theorem ZeroCompressor.compress_isSome {dictionarySize : Nat} {line : List (BitVec 64)}
    (room : line.length ≤ dictionarySize) : ∃ out, compress dictionarySize line = some out := by
  obtain ⟨patterns, final, done⟩ := @DictionaryCompressor.compress_isSome 64 (compressor dictionarySize) dictionarySize rfl rfl
    (valuesOf 64 line) (by rwa [valuesOf_qwords])
  exact ⟨_, by rw [compress, done]; rfl⟩

theorem RepeatedQwordsCompressor.compress_isSome {dictionarySize : Nat} {line : List (BitVec 64)} (many : 1 < line.length)
    (room : line.length ≤ dictionarySize) : ∃ out, compress dictionarySize line = some out := by
  obtain ⟨patterns, final, done⟩ := @DictionaryCompressor.compress_isSome 64 (compressor dictionarySize) dictionarySize rfl rfl
    (valuesOf 64 line) (by rwa [valuesOf_qwords])
  have entries : final.numEntries = 0 + (valuesOf 64 line).length := compressValues_numEntries done
  rw [valuesOf_qwords, Nat.zero_add] at entries
  have positive : final.numEntries ≥ 1 := entries ▸ many.le
  exact ⟨_, by rw [compress, done, Option.bind_some]; exact if_pos positive⟩

theorem RepeatedQwordsCompressor.length_le {dictionarySize : Nat} {line : List (BitVec 64)} {out : CompressedLine 64}
    (done : compress dictionarySize line = some out) : line.length ≤ dictionarySize := by
  obtain ⟨⟨patterns, final⟩, run, -⟩ := Option.bind_eq_some_iff.mp done
  rw [valuesOf_qwords] at run
  have entries : final.numEntries = 0 + line.length := compressValues_numEntries run
  have fits := (DictionaryCompressor.compressValues_fits rfl (Nat.zero_le _) run).2
  rwa [entries, Nat.zero_add, Dictionary.reset, List.length_replicate] at fits

theorem BaseDelta.compress_isSome {sizes : DeltaSizes} {dictionarySize : Nat} {line : List (BitVec 64)}
    (room : (valuesOf sizes.baseBits line).length < dictionarySize) :
    ∃ out, compress sizes.baseBits sizes.deltaSizeBits dictionarySize line = some out := by
  have reset : (compressor sizes.baseBits sizes.deltaSizeBits dictionarySize).resetDictionary =
      some ⟨(List.replicate dictionarySize 0).set 0 0, 1⟩ := by
    show (Dictionary.reset dictionarySize).append 0 = _
    rw [Dictionary.append, if_pos (by rw [Dictionary.reset, List.length_replicate]; exact Nat.zero_lt_of_lt room)]
    rfl
  obtain ⟨⟨patterns, final⟩, run⟩ := @DictionaryCompressor.compressValues_isSome _
    (compressor sizes.baseBits sizes.deltaSizeBits dictionarySize) rfl ⟨(List.replicate dictionarySize 0).set 0 0, 1⟩
    (valuesOf sizes.baseBits line) (by rw [List.length_set, List.length_replicate]; dsimp only; omega)
  exact ⟨_, by rw [compress, DictionaryCompressor.compress, reset, Option.bind_some, run]; rfl⟩

theorem DeltaSizes.length_le (sizes : DeltaSizes) (line : List (BitVec 64)) :
    line.length ≤ (valuesOf sizes.baseBits line).length := by
  rw [DictionaryScheme.length_valuesOf]
  have positive : 0 < 64 / sizes.baseBits :=
    Nat.div_pos (Nat.le_of_dvd (by decide) sizes.dvd) (Nat.pos_of_dvd_of_pos sizes.dvd (by decide))
  exact Nat.le_mul_of_pos_right _ positive

/-- **When the sizes tell what a line is.** -/
theorem sizesTell_iff (dictionarySize : Nat) (sizes : DeltaSizes) (line : List (BitVec 64)) :
    SizesTell dictionarySize sizes line ↔
      line.length ≤ 1 ∨ (¬ ∀ qword ∈ line, ∀ other ∈ line, qword = other) ∨ dictionarySize < line.length := by
  constructor
  · intro tell
    by_contra! failing
    obtain ⟨many, equal, room⟩ := failing
    obtain ⟨out, done⟩ := RepeatedQwordsCompressor.compress_isSome many room
    have less := (tell.repeatedQwords many out done).mpr equal
    rw [RepeatedQwordsCompressor.sizeBits_eq many done] at less
    exact Nat.lt_irrefl _ less
  · intro condition
    refine ⟨fun many out done => ?_, fun many out done => ?_, fun out done => ?_, fun many room => ?_⟩
    · rw [ZeroCompressor.sizeBits_eq done]
      split
      · next zeros => exact iff_of_true (by rw [blkSizeOf]; omega) zeros
      · next zeros => exact iff_of_false (Nat.lt_irrefl _) zeros
    · rw [RepeatedQwordsCompressor.sizeBits_eq many done]
      refine iff_of_false (Nat.lt_irrefl _) fun equal => ?_
      rcases condition with one | differ | short
      · omega
      · exact differ equal
      · exact absurd (RepeatedQwordsCompressor.length_le done) (Nat.not_le.mpr short)
    · classical
      rw [BaseDelta.sizeBits_eq done]
      exact ⟨fun near => if_pos near, fun far => if_neg far⟩
    · have fits := (sizes.length_le line).trans room.le
      exact ⟨ZeroCompressor.compress_isSome fits, RepeatedQwordsCompressor.compress_isSome many fits,
        BaseDelta.compress_isSome room⟩

/-- **A line of two equal qwords is not compressed.** -/
theorem equal_qwords_uncompressed : ¬ ∀ out, RepeatedQwordsCompressor.compress 64 [1, 1] = some out →
    (out.sizeBits < blkSizeOf [1, 1] * 8 ↔ ∀ qword ∈ [(1 : BitVec 64), 1], ∀ other ∈ [1, 1], qword = other) := by
  intro all
  obtain ⟨out, done⟩ := @RepeatedQwordsCompressor.compress_isSome 64 [1, 1] (by decide) (by decide)
  have less := (all out done).mpr (by simp)
  rw [RepeatedQwordsCompressor.sizeBits_eq (by decide) done] at less
  exact Nat.lt_irrefl _ less

end Emas.Gem5

/-
**Looking up ranges.**

What `AddrRangeMap` stores stays pairwise disjoint, and its searches find what a search from the front of the list finds,
as long as its callers keep to `Obeys`. Between them its clauses leave out the ways in which the map goes wrong:

* a stripe stored over a range of another group, or a group with stripes of a single address: the walk back from
  `upper_bound` stops at the wrong neighbour, and `intersects` answers for the start of the group;
* a query at the very start of a group whose stripe lies behind `upper_bound`, and the last address, whose range wraps;
* a range that intersects several stored ones: the first of them is not the one that is returned;
* `erase( p, q )` when the cache holds an entry behind `p`: it stays there.

`lookup_refines` — **refinement**: in every run that obeys, for every size of the cache, the tree holds the ranges of the
reference, pairwise disjoint, the answers are those of the reference, and the cache names stored entries only.
-/

import Emas.Gem5.AddrRangeMap
import Mathlib.Data.List.TakeWhile
import Mathlib.Data.Set.Finite.Lemmas
import Mathlib.Data.Set.Finite.List

namespace Emas.Gem5

/-! ### Ranges -/

namespace AddrRange

/-- Not empty; the match value belongs to the masks, and the granularity fits the `int` it is computed in. -/
structure Proper (r : AddrRange) : Prop where
  nonempty : r.startAddr < r.endAddr
  plain : r.masks = [] → r.intlvMatch = 0
  grained : r.granularity ≠ 0

/-- The intervals do not overlap. -/
def Apart (r r' : AddrRange) : Prop := r.endAddr ≤ r'.startAddr ∨ r'.endAddr ≤ r.startAddr

/-- Ranges whose intersection the code can tell: not overlapping, both plain, or of one group whose stripes have more
than one address. -/
def Compatible (r r' : AddrRange) : Prop :=
  r.Apart r' ∨ (r.masks = [] ∧ r'.masks = []) ∨ (r.mergesWith r' = true ∧ r.size ≠ 1)

/-- Ranges that do not intersect, by their intervals or as stripes of one group. -/
def Clear (r r' : AddrRange) : Prop :=
  r.Apart r' ∨ (r.mergesWith r' = true ∧ r.intlvMatch ≠ r'.intlvMatch)

instance (r : AddrRange) : Decidable r.Proper :=
  decidable_of_iff (r.startAddr < r.endAddr ∧ (r.masks = [] → r.intlvMatch = 0) ∧ r.granularity ≠ 0)
    ⟨fun parts => ⟨parts.1, parts.2.1, parts.2.2⟩, fun proper => ⟨proper.nonempty, proper.plain, proper.grained⟩⟩

instance (r r' : AddrRange) : Decidable (r.Apart r') :=
  inferInstanceAs (Decidable (r.endAddr ≤ r'.startAddr ∨ r'.endAddr ≤ r.startAddr))

instance (r r' : AddrRange) : Decidable (r.Compatible r') :=
  inferInstanceAs (Decidable (r.Apart r' ∨ (r.masks = [] ∧ r'.masks = []) ∨ (r.mergesWith r' = true ∧ r.size ≠ 1)))

instance (r r' : AddrRange) : Decidable (r.Clear r') :=
  inferInstanceAs (Decidable (r.Apart r' ∨ (r.mergesWith r' = true ∧ r.intlvMatch ≠ r'.intlvMatch)))

variable {r r' : AddrRange}

theorem mergesWith_iff : r.mergesWith r' = true ↔
    r'.startAddr = r.startAddr ∧ r'.endAddr = r.endAddr ∧ r'.masks = r.masks := by
  simp [mergesWith]

theorem mergesWith_symm (merges : r.mergesWith r' = true) : r'.mergesWith r = true := by
  obtain ⟨start, stop, masks⟩ := mergesWith_iff.mp merges
  exact mergesWith_iff.mpr ⟨start.symm, stop.symm, masks.symm⟩

theorem Clear.symm (clear : r.Clear r') : r'.Clear r := by
  rcases clear with apart | ⟨merges, other⟩
  · exact .inl apart.symm
  · exact .inr ⟨mergesWith_symm merges, other.symm⟩

/-- The order of the tree, as an order of numbers. -/
def key (r : AddrRange) : Nat := r.startAddr.toNat * 256 + r.intlvMatch.toNat

theorem less_iff : r.less r' = true ↔ r.key < r'.key := by
  have bound := r.intlvMatch.toNat_lt
  have bound' := r'.intlvMatch.toNat_lt
  unfold less key
  by_cases same : r.startAddr = r'.startAddr
  · rw [if_neg (not_not_intro same), decide_eq_true_eq, UInt8.lt_iff_toNat_lt, same]
    omega
  · have other : r.startAddr.toNat ≠ r'.startAddr.toNat := fun equal => same (BitVec.eq_of_toNat_eq equal)
    rw [if_pos same, decide_eq_true_eq, BitVec.lt_def]
    omega

/-- **`intersects` is decided for compatible ranges.** -/
theorem intersects_eq (proper : r.Proper) (proper' : r'.Proper) (compatible : r.Compatible r') :
    ∃ meets, r.intersects r' = some meets ∧ (meets = false ↔ r.Clear r') := by
  by_cases apart : r.Apart r'
  · refine ⟨false, ?_, iff_of_true rfl (.inl apart)⟩
    rw [intersects, if_pos (apart.symm.imp id id)]
  · have overlap : ¬ (r.startAddr ≥ r'.endAddr ∨ r.endAddr ≤ r'.startAddr) := fun outside =>
      apart outside.symm
    by_cases plain : r.masks = [] ∧ r'.masks = []
    · refine ⟨true, ?_, iff_of_false (by simp) ?_⟩
      · rw [intersects, if_neg overlap, if_pos (by simp [interleaved, plain.1, plain.2])]
      · rintro (outside | ⟨-, other⟩)
        · exact apart outside
        · exact other ((proper.plain plain.1).trans (proper'.plain plain.2).symm)
    · obtain ⟨merges, size⟩ := (compatible.resolve_left apart).resolve_left plain
      obtain ⟨start, stop, masks⟩ := mergesWith_iff.mp merges
      have striped : ¬ (!r.interleaved && !r'.interleaved) = true := by
        intro both
        refine plain ?_
        simpa [interleaved, masks] using both
      have sameSize : ¬ r'.size = 1 := by
        rw [AddrRange.size, start, stop, masks]
        exact size
      refine ⟨decide (r.intlvMatch = r'.intlvMatch), ?_, ?_⟩
      · rw [intersects, if_neg overlap, if_neg striped, if_neg sameSize, if_pos merges]
      · rw [decide_eq_false_iff_not]
        refine ⟨fun other => .inr ⟨merges, other⟩, ?_⟩
        rintro (outside | ⟨-, other⟩)
        · exact absurd outside apart
        · exact other

theorem contains_iff {a : Addr} : r.contains a = true ↔
    (r.startAddr ≤ a ∧ a < r.endAddr) ∧ selector r.masks a = r.intlvMatch.toNat := by
  rw [contains]
  split
  · rename_i within
    simp [within]
  · rename_i outside
    simp [outside]

/-- **Ranges that do not intersect share no address.** -/
theorem Clear.disjoint (clear : r.Clear r') (a : Addr) : ¬ (r.contains a = true ∧ r'.contains a = true) := by
  rintro ⟨inside, inside'⟩
  obtain ⟨⟨above, below⟩, selected⟩ := contains_iff.mp inside
  obtain ⟨⟨above', below'⟩, selected'⟩ := contains_iff.mp inside'
  rcases clear with apart | ⟨merges, other⟩
  · simp only [Apart, BitVec.le_def, BitVec.lt_def] at apart above below above' below'
    omega
  · rw [(mergesWith_iff.mp merges).2.2, selected] at selected'
    exact other (UInt8.toNat_inj.mp selected')

theorem contains_of_isSubset {q : AddrRange} (proper : r.Proper) (nonempty : q.startAddr < q.endAddr)
    (subset : q.isSubset r = some true) : r.contains q.startAddr = true := by
  unfold isSubset at subset
  split at subset
  · exact absurd subset (by simp)
  · split at subset
    · simp only [Option.some.injEq, Bool.and_eq_true] at subset
      exact subset.1.1
    · rename_i plain
      have masks : r.masks = [] := by simpa [interleaved] using plain
      obtain ⟨above, below⟩ : q.startAddr ≥ r.startAddr ∧ q.endAddr ≤ r.endAddr := by simpa using subset
      refine contains_iff.mpr ⟨⟨above, ?_⟩, ?_⟩
      · rw [BitVec.lt_def] at nonempty ⊢
        rw [BitVec.le_def] at below
        omega
      · rw [proper.plain masks, masks]
        rfl

theorem isSubset_defined {q : AddrRange} (plain : q.masks = []) (r : AddrRange) :
    ∃ inside, q.isSubset r = some inside := by
  unfold isSubset
  rw [if_neg (by simp [interleaved, plain])]
  split <;> exact ⟨_, rfl⟩

theorem isSubset_rangeSize (proper : r.Proper) {a : Addr} (last : a ≠ maxAddr) :
    (rangeSize a 1).isSubset r = some (r.contains a) := by
  have next : (a + 1).toNat = a.toNat + 1 := by
    have bound := a.isLt
    have below : a.toNat ≠ 2 ^ 64 - 1 := fun same => last (BitVec.eq_of_toNat_eq same)
    rw [BitVec.toNat_add]
    show (a.toNat + 1) % 2 ^ 64 = _
    omega
  unfold isSubset
  rw [if_neg (by simp [interleaved, rangeSize, AddrRange.plain])]
  split
  · have back : a + 1 - 1 = a := BitVec.add_sub_cancel ..
    have single : (rangeSize a 1).size = 1 := by
      show (a + 1 - a) >>> 0 = 1
      rw [BitVec.add_comm, BitVec.add_sub_cancel]
      rfl
    have grained : (1 : Addr) ≤ r.granularity := by
      have nonzero : r.granularity.toNat ≠ 0 := fun zero => proper.grained (BitVec.eq_of_toNat_eq zero)
      rw [BitVec.le_def]
      exact Nat.one_le_iff_ne_zero.mpr nonzero
    rw [single]
    show some (r.contains a && r.contains (a + 1 - 1) && decide ((1 : Addr) ≤ r.granularity)) = _
    rw [back, decide_eq_true grained, Bool.and_true, Bool.and_self]
  · rename_i striped
    have masks : r.masks = [] := by simpa [interleaved] using striped
    have selected : selector r.masks a = r.intlvMatch.toNat := by
      rw [proper.plain masks, masks]
      rfl
    refine congrArg some ?_
    rw [Bool.eq_iff_iff, contains_iff, and_iff_left selected, decide_eq_true_eq]
    show a ≥ r.startAddr ∧ a + 1 ≤ r.endAddr ↔ _
    rw [BitVec.le_def, BitVec.lt_def, next]
    rfl

end AddrRange

/-! ### Searching -/

namespace AddrRangeMap

variable {V : Type} {cond : AddrRange → Option Bool} {c : Node V → Bool}

/-- The condition is defined on a list of nodes. -/
def Decides (cond : AddrRange → Option Bool) (c : Node V → Bool) (l : List (Node V)) : Prop :=
  ∀ node ∈ l, cond node.range = some (c node)

variable {l : List (Node V)}

theorem Decides.tail {node : Node V} (decides : Decides cond c (node :: l)) :
    Decides cond c l := fun later member => decides later (.tail _ member)

theorem scan_eq (decides : Decides cond c l) : scan cond l = some (l.find? c) := by
  induction l with
  | nil => rfl
  | cons node rest ih =>
    rw [scan, decides node (List.mem_cons_self ..), Option.bind_some, List.find?_cons, ih decides.tail]
    cases c node <;> rfl

theorem walkBack_sound (decides : Decides cond c l) :
    ∃ result, walkBack cond l = some result ∧ ∀ it ∈ result, it ∈ l ∧ c it = true := by
  induction l with
  | nil => exact ⟨none, rfl, by simp⟩
  | cons i rest ih =>
    rw [walkBack.eq_def]
    simp only [decides i (List.mem_cons_self ..), Option.bind_some]
    cases met : c i with
    | true => exact ⟨some i, rfl, by rintro it ⟨⟩; exact ⟨List.mem_cons_self .., met⟩⟩
    | false =>
      obtain ⟨result, walked, sound⟩ := ih decides.tail
      have later : ∀ it ∈ result, it ∈ i :: rest ∧ c it = true := fun it found =>
        ⟨.tail _ (sound it found).1, (sound it found).2⟩
      cases rest with
      | nil => exact ⟨none, rfl, by simp⟩
      | cons next l =>
        by_cases merges : next.range.mergesWith i.range = true
        · exact ⟨result, by simpa [merges] using walked, later⟩
        · exact ⟨none, by simp [merges], by simp⟩

theorem walkBack_complete {n : Node V} {first rest : List (Node V)} (met : c n = true)
    (decides : Decides cond c (first ++ n :: rest)) (merges : ∀ m ∈ first, n.range.mergesWith m.range = true) :
    ∃ it, walkBack cond (first ++ n :: rest) = some (some it) := by
  induction first with
  | nil =>
    refine ⟨n, ?_⟩
    rw [List.nil_append, walkBack.eq_def]
    simp [decides n (List.mem_cons_self ..), met]
  | cons i first ih =>
    have here := decides i (List.mem_cons_self ..)
    obtain ⟨it, walked⟩ := ih decides.tail fun m member => merges m (.tail _ member)
    rw [List.cons_append, walkBack.eq_def]
    simp only [here, Option.bind_some]
    cases found : c i with
    | true => exact ⟨i, rfl⟩
    | false =>
      refine ⟨it, ?_⟩
      obtain ⟨next, l, tail, group⟩ : ∃ next l, first ++ n :: rest = next :: l ∧
          next.range.mergesWith i.range = true := by
        have same := AddrRange.mergesWith_iff.mp (merges i (List.mem_cons_self ..))
        cases first with
        | nil => exact ⟨n, rest, rfl, merges i (List.mem_cons_self ..)⟩
        | cons next l =>
          have other := AddrRange.mergesWith_iff.mp (merges next (by simp))
          refine ⟨next, _, rfl, AddrRange.mergesWith_iff.mpr ?_⟩
          rw [same.1, same.2.1, same.2.2, other.1, other.2.1, other.2.2]
          exact ⟨rfl, rfl, rfl⟩
      rw [tail] at walked ⊢
      simpa [group] using walked

variable {map : AddrRangeMap V} {r : AddrRange}

theorem upTo_append_upperBound (map : AddrRangeMap V) (r : AddrRange) :
    (map.upTo r).reverse ++ map.upperBound r = map.tree := by
  rw [upTo, upperBound, List.reverse_reverse, List.takeWhile_append_dropWhile]

theorem key_le_of_mem_upTo {node : Node V} (member : node ∈ map.upTo r) : node.range.key ≤ r.key := by
  have notLess := List.mem_takeWhile_imp (List.mem_reverse.mp member)
  rw [Bool.not_eq_true', ← Bool.not_eq_true, AddrRange.less_iff] at notLess
  omega

/-- The order of the tree. -/
def Sorted (tree : List (Node V)) : Prop := tree.Pairwise fun n n' => n.range.key < n'.range.key

theorem lt_key_of_mem_upperBound (sorted : Sorted map.tree) {node : Node V} (member : node ∈ map.upperBound r) :
    r.key < node.range.key := by
  have suffix : Sorted (map.upperBound r) := sorted.sublist (List.dropWhile_sublist _)
  cases found : map.upperBound r with
  | nil => simp [found] at member
  | cons next rest =>
    have head : r.less next.range = true := by
      have stopped := List.head?_dropWhile_not (fun node => !r.less node.range) map.tree
      rw [show map.tree.dropWhile (fun node => !r.less node.range) = next :: rest from found] at stopped
      simpa using stopped
    rw [AddrRange.less_iff] at head
    rw [found] at member suffix
    rcases List.mem_cons.mp member with rfl | later
    · exact head
    · exact Nat.lt_trans head ((List.pairwise_cons.mp suffix).1 node later)

/-- The search of `find` comes past a node: no other one lies between it and the query, except for stripes of its
group, which the walk back passes through. -/
def Reached (tree : List (Node V)) (r : AddrRange) (n : Node V) : Prop :=
  (n.range.key ≤ r.key ∧ ∀ m ∈ tree, n.range.key < m.range.key → m.range.key ≤ r.key →
      n.range.mergesWith m.range = true) ∨
    (r.key < n.range.key ∧ ∀ m ∈ tree, r.key < m.range.key → n.range.key ≤ m.range.key)

theorem search_spec (sorted : Sorted map.tree) (decides : Decides cond c map.tree) :
    ∃ result, map.search r cond = some result ∧ (∀ it ∈ result, it ∈ map.tree ∧ c it = true) ∧
      ∀ n ∈ map.tree, c n = true → Reached map.tree r n → result ≠ none := by
  have whole := map.upTo_append_upperBound r
  have inBefore : ∀ node ∈ map.upTo r, node ∈ map.tree := by
    intro node member
    rw [← whole]
    exact List.mem_append_left _ (List.mem_reverse.mpr member)
  have inAfter : ∀ node ∈ map.upperBound r, node ∈ map.tree := by
    intro node member
    rw [← whole]
    exact List.mem_append_right _ member
  have decidesBefore : Decides cond c (map.upTo r) := fun node member => decides node (inBefore node member)
  obtain ⟨walked, walk, sound⟩ := walkBack_sound decidesBefore
  have soundWalk : ∀ it ∈ walked, it ∈ map.tree ∧ c it = true := fun it found =>
    ⟨inBefore it (sound it found).1, (sound it found).2⟩
  -- a node before the query is found on the way back
  have back : ∀ n ∈ map.tree, c n = true → n.range.key ≤ r.key → (∀ m ∈ map.tree, n.range.key < m.range.key →
      m.range.key ≤ r.key → n.range.mergesWith m.range = true) → walked ≠ none := by
    intro n member met le group
    have inUpTo : n ∈ map.upTo r := by
      rw [← whole] at member
      rcases List.mem_append.mp member with before | after
      · exact List.mem_reverse.mp before
      · exact absurd (lt_key_of_mem_upperBound sorted after) (Nat.not_lt.mpr le)
    obtain ⟨first, rest, split⟩ := List.append_of_mem inUpTo
    have decreasing : (map.upTo r).Pairwise fun n n' => n'.range.key < n.range.key := by
      rw [upTo, List.pairwise_reverse]
      exact sorted.sublist (List.takeWhile_sublist _)
    rw [split] at decreasing
    obtain ⟨it, found⟩ := walkBack_complete met (split ▸ decidesBefore) fun m inFirst => by
      have inPrefix : m ∈ map.upTo r := by
        rw [split]
        exact List.mem_append_left _ inFirst
      exact group m (inBefore m inPrefix)
        ((List.pairwise_append.mp decreasing).2.2 m inFirst n (List.mem_cons_self ..)) (key_le_of_mem_upTo inPrefix)
    rw [← split, walk, Option.some.injEq] at found
    rw [found]
    exact Option.some_ne_none it
  cases found : map.upperBound r with
  | nil =>
    refine ⟨walked, by rw [search, found]; exact walk, soundWalk, ?_⟩
    rintro n member met (⟨le, group⟩ | ⟨lt, -⟩)
    · exact back n member met le group
    · rw [← whole, found, List.append_nil] at member
      exact absurd lt (Nat.not_lt.mpr (key_le_of_mem_upTo (List.mem_reverse.mp member)))
  | cons next l =>
    have nextAfter : next ∈ map.upperBound r := by
      rw [found]
      exact List.mem_cons_self ..
    have here := decides next (inAfter next nextAfter)
    cases met : c next with
    | true =>
      refine ⟨some next, by rw [search, found]; simp [here, met], ?_, fun _ _ _ _ => Option.some_ne_none _⟩
      rintro it ⟨⟩
      exact ⟨inAfter next nextAfter, met⟩
    | false =>
      refine ⟨walked, by rw [search, found]; simpa [here, met] using walk, soundWalk, ?_⟩
      rintro n member met' (⟨le, group⟩ | ⟨lt, least⟩)
      · exact back n member met' le group
      · -- the first node behind the query is `next`
        exfalso
        have inUpper : n ∈ map.upperBound r := by
          rw [← whole] at member
          rcases List.mem_append.mp member with before | after
          · exact absurd lt (Nat.not_lt.mpr (key_le_of_mem_upTo (List.mem_reverse.mp before)))
          · exact after
        have le := least next (inAfter next nextAfter) (lt_key_of_mem_upperBound sorted nextAfter)
        have suffix : Sorted (map.upperBound r) := sorted.sublist (List.dropWhile_sublist _)
        rw [found] at inUpper suffix
        rcases List.mem_cons.mp inUpper with rfl | later
        · rw [met] at met'
          exact Bool.false_ne_true met'
        · exact absurd ((List.pairwise_cons.mp suffix).1 n later) (Nat.not_lt.mpr le)

variable (maxCacheSize : Nat)

theorem mem_addNewEntryToCache {it node : Node V}
    (member : node ∈ (map.addNewEntryToCache maxCacheSize it).cache) : node = it ∨ node ∈ map.cache := by
  unfold addNewEntryToCache at member
  split_ifs at member
  · exact (List.mem_cons.mp member).imp id fun old => List.dropLast_subset _ old
  · rcases List.mem_append.mp member with old | new
    · exact .inr (List.dropLast_subset _ old)
    · exact .inl (List.mem_singleton.mp new)
  · exact List.mem_cons.mp member
  · exact .inr member

variable [DecidableEq V]

/-- What a search returns, and that it leaves the tree alone. -/
structure Finds (map : AddrRangeMap V) (r : AddrRange) (cond : AddrRange → Option Bool) (c : Node V → Bool)
    (result : Option (Node V)) (map' : AddrRangeMap V) : Prop where
  found : map.find maxCacheSize r cond = some (result, map')
  tree : map'.tree = map.tree
  inserted : map'.inserted = map.inserted
  answers : map'.answers = map.answers
  cache : ∀ node ∈ map'.cache, node ∈ map.tree
  sound : ∀ it ∈ result, it ∈ map.tree ∧ c it = true
  complete : ∀ n ∈ map.tree, c n = true → Reached map.tree r n → result ≠ none

/-- **What `find` does**, when the cache is up to date. -/
theorem find_spec (sorted : Sorted map.tree) (cached : ∀ node ∈ map.cache, node ∈ map.tree)
    (decides : Decides cond c map.tree) : ∃ result map', Finds maxCacheSize map r cond c result map' := by
  have decidesCache : Decides cond c map.cache := fun node member => decides node (cached node member)
  have scanned := scan_eq decidesCache
  cases hit : map.cache.find? c with
  | some it =>
    have member := cached it (List.mem_of_find?_eq_some hit)
    refine ⟨some it, map.promote it, ?_, rfl, rfl, rfl, ?_, ?_, fun _ _ _ _ => Option.some_ne_none _⟩
    · rw [find, scanned, hit]
      rfl
    · intro node inCache
      rcases List.mem_cons.mp inCache with rfl | other
      · exact member
      · exact cached node (List.mem_of_mem_erase other)
    · rintro _ ⟨⟩
      exact ⟨member, List.find?_some hit⟩
  | none =>
    obtain ⟨result, searched, sound, complete⟩ := search_spec (r := r) sorted decides
    cases result with
    | none =>
      refine ⟨none, map, ?_, rfl, rfl, rfl, cached, by simp, complete⟩
      rw [find, scanned, hit]
      simp [searched]
    | some it =>
      have member := (sound it rfl).1
      have same : (map.addNewEntryToCache maxCacheSize it).tree = map.tree ∧
          (map.addNewEntryToCache maxCacheSize it).inserted = map.inserted ∧
          (map.addNewEntryToCache maxCacheSize it).answers = map.answers := by
        unfold addNewEntryToCache
        split_ifs <;> exact ⟨rfl, rfl, rfl⟩
      refine ⟨some it, map.addNewEntryToCache maxCacheSize it, ?_, same.1, same.2.1, same.2.2, ?_, sound, complete⟩
      · rw [find, scanned, hit]
        simp [searched]
      · intro node inCache
        rcases mem_addNewEntryToCache maxCacheSize inCache with rfl | old
        · exact member
        · exact cached node old

/-! ### What a search reaches -/

/-- What is stored: proper ranges in order, none of which intersects another one. -/
structure Stored (tree : List (Node V)) : Prop where
  proper : ∀ node ∈ tree, node.range.Proper
  sorted : Sorted tree
  clear : tree.Pairwise fun n n' => n.range.Clear n'.range

variable {tree : List (Node V)} {n m : Node V}

omit [DecidableEq V] in
theorem Stored.clear_of_ne (stored : Stored tree) (inTree : n ∈ tree) (inTree' : m ∈ tree) (other : n ≠ m) :
    n.range.Clear m.range := by
  have : Std.Symm fun n n' : Node V => n.range.Clear n'.range := ⟨fun _ _ clear => clear.symm⟩
  exact stored.clear.forall inTree inTree' other

omit [DecidableEq V] in
theorem Stored.merges (stored : Stored tree) (inTree : n ∈ tree) (inTree' : m ∈ tree)
    (ordered : n.range.key < m.range.key) (overlap : m.range.startAddr < n.range.endAddr) :
    n.range.mergesWith m.range = true := by
  have bound := n.range.intlvMatch.toNat_lt
  have bound' := m.range.intlvMatch.toNat_lt
  have nonempty := (stored.proper m inTree').nonempty
  have other : n ≠ m := by
    rintro rfl
    exact Nat.lt_irrefl _ ordered
  rcases stored.clear_of_ne inTree inTree' other with (before | after) | ⟨merges, -⟩
  · simp only [BitVec.le_def, BitVec.lt_def] at before overlap
    omega
  · simp only [BitVec.le_def, BitVec.lt_def, AddrRange.key] at after nonempty ordered
    omega
  · exact merges

/-- A query at this address comes past the stripe that holds it: the stripe does not start there, or it is the first
of its group or the first one behind. -/
def Reachable (tree : List (Node V)) (s : Addr) : Prop :=
  ∀ n ∈ tree, n.range.contains s = true → n.range.startAddr = s → n.range.intlvMatch ≠ 0 →
    ∀ m ∈ tree, m.range.startAddr = s → m.range.intlvMatch ≠ 0 → n.range.intlvMatch ≤ m.range.intlvMatch

instance (tree : List (Node V)) (s : Addr) : Decidable (Reachable tree s) :=
  inferInstanceAs (Decidable (∀ n ∈ tree, n.range.contains s = true → n.range.startAddr = s →
    n.range.intlvMatch ≠ 0 → ∀ m ∈ tree, m.range.startAddr = s → m.range.intlvMatch ≠ 0 →
      n.range.intlvMatch ≤ m.range.intlvMatch))

omit [DecidableEq V] in
/-- **The entry that holds an address is reached.** -/
theorem reached_of_contains (stored : Stored tree) (reachable : Reachable tree r.startAddr)
    (first : r.intlvMatch = 0) (inTree : n ∈ tree) (holds : n.range.contains r.startAddr = true) :
    Reached tree r n := by
  obtain ⟨⟨above, below⟩, -⟩ := AddrRange.contains_iff.mp holds
  have query : r.key = r.startAddr.toNat * 256 := by
    simp [AddrRange.key, first]
  have bound := n.range.intlvMatch.toNat_lt
  simp only [BitVec.le_def, BitVec.lt_def] at above below
  by_cases start : n.range.startAddr = r.startAddr ∧ n.range.intlvMatch ≠ 0
  · have positive : n.range.intlvMatch.toNat ≠ 0 := fun zero => start.2 (UInt8.toNat_inj.mp zero)
    refine .inr ⟨by rw [query, AddrRange.key, start.1]; omega, fun m inTree' behind => ?_⟩
    rw [query, AddrRange.key] at behind
    by_cases same : m.range.startAddr = r.startAddr
    · have positive' : m.range.intlvMatch ≠ 0 := by
        intro zero
        simp [same, zero] at behind
      have least := reachable n inTree holds start.1 start.2 m inTree' same positive'
      rw [UInt8.le_iff_toNat_le] at least
      rw [AddrRange.key, AddrRange.key, start.1, same]
      omega
    · have later : m.range.startAddr.toNat ≠ r.startAddr.toNat := fun equal => same (BitVec.eq_of_toNat_eq equal)
      have bound' := m.range.intlvMatch.toNat_lt
      rw [AddrRange.key, AddrRange.key, start.1]
      omega
  · refine .inl ⟨?_, fun m inTree' after before => stored.merges inTree inTree' after ?_⟩
    · rw [query, AddrRange.key]
      by_cases same : n.range.startAddr = r.startAddr
      · have zero : n.range.intlvMatch = 0 := by
          by_contra positive
          exact start ⟨same, positive⟩
        simp [same, zero]
      · have earlier : n.range.startAddr.toNat ≠ r.startAddr.toNat := fun equal =>
          same (BitVec.eq_of_toNat_eq equal)
        omega
    · rw [query, AddrRange.key] at before
      rw [BitVec.lt_def]
      omega

omit [DecidableEq V] in
/-- **If some entry intersects the query, one of those is reached.** -/
theorem exists_reached (stored : Stored tree) (inTree : n ∈ tree) (meets : ¬ r.Clear n.range) :
    ∃ n ∈ tree, ¬ r.Clear n.range ∧ Reached tree r n := by
  have overlap : ∀ {m : Node V}, ¬ r.Clear m.range →
      m.range.startAddr.toNat < r.endAddr.toNat ∧ r.startAddr.toNat < m.range.endAddr.toNat := by
    intro m meets
    have together : ¬ r.Apart m.range := fun apart => meets (.inl apart)
    simp only [AddrRange.Apart, BitVec.le_def] at together
    omega
  by_cases behind : ∃ n ∈ tree, ¬ r.Clear n.range ∧ r.key < n.range.key
  · -- the first of the entries behind the query
    obtain ⟨n, ⟨inTree, meets, lt⟩, least⟩ := Set.exists_min_image
      {n : Node V | n ∈ tree ∧ ¬ r.Clear n.range ∧ r.key < n.range.key} (fun n => n.range.key)
      ((List.finite_toSet tree).subset fun n member => member.1) behind
    refine ⟨n, inTree, meets, .inr ⟨lt, fun m inTree' lt' => ?_⟩⟩
    by_cases clear : r.Clear m.range
    · by_contra earlier
      have ordered : m.range.key < n.range.key := Nat.not_le.mp earlier
      have within := (overlap meets).1
      have nonempty := (stored.proper m inTree').nonempty
      have boundQuery := r.intlvMatch.toNat_lt
      have boundEarlier := m.range.intlvMatch.toNat_lt
      have boundLater := n.range.intlvMatch.toNat_lt
      rcases clear with apart | ⟨merges, -⟩
      · simp only [AddrRange.Apart, AddrRange.key, BitVec.le_def, BitVec.lt_def] at apart nonempty ordered lt'
        omega
      · -- all three are stripes of one group, and the later one is not that of the query
        obtain ⟨start, stop, masks⟩ := AddrRange.mergesWith_iff.mp merges
        have group := stored.merges inTree' inTree ordered (by rw [stop, BitVec.lt_def]; exact within)
        obtain ⟨start', stop', masks'⟩ := AddrRange.mergesWith_iff.mp group
        have together : r.mergesWith n.range = true :=
          AddrRange.mergesWith_iff.mpr ⟨start'.trans start, stop'.trans stop, masks'.trans masks⟩
        refine meets (.inr ⟨together, fun same => ?_⟩)
        rw [AddrRange.key, AddrRange.key, start'.trans start, same] at lt
        exact Nat.lt_irrefl _ lt
    · exact least m ⟨inTree', clear, lt'⟩
  · have before : ∀ m ∈ tree, ¬ r.Clear m.range → m.range.key ≤ r.key := by
      intro m inTree' meets'
      by_contra after
      exact behind ⟨m, inTree', meets', Nat.not_le.mp after⟩
    obtain ⟨n, ⟨inTree, meets⟩, greatest⟩ := Set.exists_max_image
      {n : Node V | n ∈ tree ∧ ¬ r.Clear n.range} (fun n => n.range.key)
      ((List.finite_toSet tree).subset fun n member => member.1) ⟨n, inTree, meets⟩
    refine ⟨n, inTree, meets, .inl ⟨before n inTree meets, fun m inTree' after le => ?_⟩⟩
    refine stored.merges inTree inTree' after ?_
    have bound := m.range.intlvMatch.toNat_lt
    have bound' := r.intlvMatch.toNat_lt
    have within := (overlap meets).2
    rw [AddrRange.key, AddrRange.key] at le
    rw [BitVec.lt_def]
    omega

/-! ### Calls -/

/-- The calls for which the map keeps to its contract. -/
def Obeys (map : AddrRangeMap V) : MapCall V → Prop
  | .insert r _ => r.Proper ∧ ∀ node ∈ map.tree, r.Compatible node.range
  | .erase p => ∃ node ∈ map.tree, node.id = p
  | .eraseRange p q => (∃ node ∈ map.tree, node.id = p) ∧
      (∀ last ∈ q, ∃ node ∈ map.tree.dropWhile (·.id ≠ p), node.id = last) ∧
      ∀ node ∈ between p q map.tree, node.id ≠ p → node ∉ map.cache
  | .clear => True
  | .containsAddr a => a ≠ AddrRange.maxAddr ∧ Reachable map.tree a
  | .contains r => r.masks = [] ∧ r.intlvMatch = 0 ∧ r.startAddr < r.endAddr ∧ Reachable map.tree r.startAddr
  | .intersects r => r.Proper ∧ (∀ node ∈ map.tree, r.Compatible node.range) ∧
      ∀ n ∈ map.tree, ∀ m ∈ map.tree, ¬ r.Clear n.range → ¬ r.Clear m.range → n = m

instance Obeys.decidable (map : AddrRangeMap V) : ∀ call : MapCall V, Decidable (map.Obeys call)
  | .insert r _ => inferInstanceAs (Decidable (r.Proper ∧ ∀ node ∈ map.tree, r.Compatible node.range))
  | .erase p => inferInstanceAs (Decidable (∃ node ∈ map.tree, node.id = p))
  | .eraseRange p q => inferInstanceAs (Decidable ((∃ node ∈ map.tree, node.id = p) ∧
      (∀ last ∈ q, ∃ node ∈ map.tree.dropWhile (·.id ≠ p), node.id = last) ∧
      ∀ node ∈ between p q map.tree, node.id ≠ p → node ∉ map.cache))
  | .clear => isTrue trivial
  | .containsAddr a => inferInstanceAs (Decidable (a ≠ AddrRange.maxAddr ∧ Reachable map.tree a))
  | .contains r => inferInstanceAs (Decidable (r.masks = [] ∧ r.intlvMatch = 0 ∧ r.startAddr < r.endAddr ∧
      Reachable map.tree r.startAddr))
  | .intersects r => inferInstanceAs (Decidable (r.Proper ∧ (∀ node ∈ map.tree, r.Compatible node.range) ∧
      ∀ n ∈ map.tree, ∀ m ∈ map.tree, ¬ r.Clear n.range → ¬ r.Clear m.range → n = m))

/-- The map has the ranges and the answers of the reference, and its cache names stored entries. -/
structure Refines (map : AddrRangeMap V) (reference : Reference V) : Prop where
  nodes : map.tree = reference.nodes
  inserted : map.inserted = reference.inserted
  answers : map.answers = reference.answers
  cached : ∀ node ∈ map.cache, node ∈ map.tree
  stored : Stored map.tree

variable {reference : Reference V}

omit [DecidableEq V] in
theorem eq_find? {result : Option (Node V)} (sound : ∀ it ∈ result, it ∈ tree ∧ c it = true)
    (complete : ∀ n ∈ tree, c n = true → result ≠ none)
    (unique : ∀ n ∈ tree, ∀ m ∈ tree, c n = true → c m = true → n = m) : result = tree.find? c := by
  cases found : tree.find? c with
  | none =>
    cases result with
    | none => rfl
    | some it =>
      obtain ⟨member, met⟩ := sound it rfl
      exact absurd met (List.find?_eq_none.mp found it member)
  | some n =>
    have member := List.mem_of_find?_eq_some found
    have met := List.find?_some found
    cases result with
    | none => exact absurd rfl (complete n member met)
    | some it =>
      obtain ⟨member', met'⟩ := sound it rfl
      rw [unique it member' n member met' met]

/-- **A query answers as the search from the front does**, if it is met by one entry at most, and reaches it. -/
theorem Refines.query (refines : map.Refines reference) (cond' : AddrRange → Bool)
    (decides : Decides cond (fun node => cond' node.range) map.tree)
    (reached : ∀ n ∈ map.tree, cond' n.range = true → ∃ n ∈ map.tree, cond' n.range = true ∧ Reached map.tree r n)
    (unique : ∀ n ∈ map.tree, ∀ m ∈ map.tree, cond' n.range = true → cond' m.range = true → n = m) :
    (((map.find maxCacheSize r cond).map fun result => result.2.answer result.1).getD map).Refines
      (reference.answer cond') := by
  obtain ⟨result, map', finds⟩ := find_spec (r := r) maxCacheSize refines.stored.sorted refines.cached decides
  have answer : result = reference.nodes.find? fun node => cond' node.range := by
    rw [← refines.nodes]
    refine eq_find? finds.sound (fun n member met => ?_) unique
    obtain ⟨n', member', met', reached'⟩ := reached n member met
    exact finds.complete n' member' met' reached'
  rw [finds.found, Option.map_some, Option.getD_some]
  refine ⟨finds.tree.trans refines.nodes, finds.inserted.trans refines.inserted, ?_, ?_, ?_⟩
  · show map'.answers ++ [result.map Node.id] = reference.answers ++ [_]
    rw [finds.answers, refines.answers, answer]
  · show ∀ node ∈ map'.cache, node ∈ map'.tree
    rw [finds.tree]
    exact finds.cache
  · show Stored map'.tree
    rw [finds.tree]
    exact refines.stored

omit [DecidableEq V] in
theorem Stored.decides_intersects (stored : Stored tree) (proper : r.Proper)
    (compatible : ∀ node ∈ tree, r.Compatible node.range) :
    Decides (fun r1 => r.intersects r1) (fun node => r.intersects node.range = some true) tree ∧
      ∀ node ∈ tree, decide (r.intersects node.range = some true) = true ↔ ¬ r.Clear node.range := by
  have decided := fun node member =>
    AddrRange.intersects_eq proper (stored.proper node member) (compatible node member)
  refine ⟨fun node member => ?_, fun node member => ?_⟩
  · obtain ⟨meets, answer, -⟩ := decided node member
    simp only [answer]
    cases meets <;> simp
  · obtain ⟨meets, answer, clear⟩ := decided node member
    rw [← clear, answer]
    cases meets <;> simp

theorem Refines.intersects (refines : map.Refines reference) (obeys : map.Obeys (.intersects r)) :
    (map.act maxCacheSize (.intersects r)).Refines (reference.act (.intersects r)) := by
  obtain ⟨proper, compatible, single⟩ := obeys
  obtain ⟨decides, meets⟩ := refines.stored.decides_intersects proper compatible
  refine refines.query maxCacheSize (fun r1 => r.intersects r1 = some true) decides (fun n member met => ?_)
    fun n member m member' met met' =>
      single n member m member' ((meets n member).mp met) ((meets m member').mp met')
  obtain ⟨n', member', met', reached⟩ := exists_reached refines.stored member ((meets n member).mp met)
  exact ⟨n', member', (meets n' member').mpr met', reached⟩

theorem Refines.contains (refines : map.Refines reference) (obeys : map.Obeys (.contains r)) :
    (map.act maxCacheSize (.contains r)).Refines (reference.act (.contains r)) := by
  obtain ⟨plain, first, nonempty, reachable⟩ := obeys
  have holds : ∀ n ∈ map.tree, decide (r.isSubset n.range = some true) = true →
      n.range.contains r.startAddr = true := fun n member met =>
    AddrRange.contains_of_isSubset (refines.stored.proper n member) nonempty (of_decide_eq_true met)
  refine refines.query maxCacheSize (fun r1 => r.isSubset r1 = some true) (fun node _ => ?_)
    (fun n member met => ?_) fun n member m member' met met' => ?_
  · obtain ⟨inside, subset⟩ := AddrRange.isSubset_defined plain node.range
    simp only [subset]
    cases inside <;> simp
  · exact ⟨n, member, met, reached_of_contains refines.stored reachable first member (holds n member met)⟩
  · by_contra other
    exact (refines.stored.clear_of_ne member member' other).disjoint _ ⟨holds n member met, holds m member' met'⟩

theorem Refines.containsAddr (refines : map.Refines reference) {a : Addr} (obeys : map.Obeys (.containsAddr a)) :
    (map.act maxCacheSize (.containsAddr a)).Refines (reference.act (.containsAddr a)) := by
  obtain ⟨last, reachable⟩ := obeys
  refine refines.query maxCacheSize (fun r1 => r1.contains a) (fun node member => ?_)
    (fun n member met => ?_) fun n member m member' met met' => ?_
  · exact AddrRange.isSubset_rangeSize (refines.stored.proper node member) last
  · exact ⟨n, member, met, reached_of_contains refines.stored reachable rfl member met⟩
  · by_contra other
    exact (refines.stored.clear_of_ne member member' other).disjoint _ ⟨met, met'⟩

omit [DecidableEq V] in
theorem Stored.sublist (stored : Stored tree) {tree' : List (Node V)} (fewer : tree'.Sublist tree) : Stored tree' where
  proper node member := stored.proper node (fewer.subset member)
  sorted := List.Pairwise.sublist fewer stored.sorted
  clear := stored.clear.sublist fewer

omit [DecidableEq V] in
theorem Stored.key_ne (stored : Stored tree) (proper : r.Proper) (inTree : n ∈ tree) (clear : r.Clear n.range) :
    n.range.key ≠ r.key := by
  intro same
  have bound := n.range.intlvMatch.toNat_lt
  have bound' := r.intlvMatch.toNat_lt
  have nonempty := proper.nonempty
  have nonempty' := (stored.proper n inTree).nonempty
  rcases clear with apart | ⟨merges, other⟩
  · simp only [AddrRange.Apart, AddrRange.key, BitVec.le_def, BitVec.lt_def] at apart nonempty nonempty' same
    omega
  · rw [AddrRange.key, AddrRange.key, (AddrRange.mergesWith_iff.mp merges).1] at same
    exact other (UInt8.toNat_inj.mp (by omega))

omit [DecidableEq V] in
theorem Stored.insert (stored : Stored map.tree) (proper : r.Proper)
    (clear : ∀ node ∈ map.tree, r.Clear node.range) (id : Nat) (d : V) :
    Stored ((map.upTo r).reverse ++ ⟨id, r, d⟩ :: map.upperBound r) := by
  have whole := map.upTo_append_upperBound r
  have before : ∀ node ∈ (map.upTo r).reverse, node ∈ map.tree ∧ node.range.key < r.key := by
    intro node member
    have inTree : node ∈ map.tree := by
      rw [← whole]
      exact List.mem_append_left _ member
    have le := key_le_of_mem_upTo (List.mem_reverse.mp member)
    exact ⟨inTree, Nat.lt_of_le_of_ne le (stored.key_ne proper inTree (clear node inTree))⟩
  have after : ∀ node ∈ map.upperBound r, node ∈ map.tree ∧ r.key < node.range.key := by
    intro node member
    refine ⟨?_, lt_key_of_mem_upperBound stored.sorted member⟩
    rw [← whole]
    exact List.mem_append_right _ member
  have sorted := stored.sorted
  have disjoint := stored.clear
  rw [Sorted, ← whole, List.pairwise_append] at sorted
  rw [← whole] at disjoint
  constructor
  · intro node member
    rcases List.mem_append.mp member with old | new
    · exact stored.proper node (before node old).1
    · rcases List.mem_cons.mp new with rfl | old
      · exact proper
      · exact stored.proper node (after node old).1
  · refine List.pairwise_append.mpr ⟨sorted.1, List.pairwise_cons.mpr ⟨fun node member => (after node member).2,
      sorted.2.1⟩, fun node member node' member' => ?_⟩
    rcases List.mem_cons.mp member' with rfl | later
    · exact (before node member).2
    · exact sorted.2.2 node member node' later
  · rw [List.pairwise_middle fun clear => clear.symm, List.pairwise_cons]
    refine ⟨fun node member => clear node ?_, disjoint⟩
    rw [← whole]
    exact member

theorem Refines.insert (refines : map.Refines reference) {d : V} (obeys : map.Obeys (.insert r d)) :
    (map.act maxCacheSize (.insert r d)).Refines (reference.act (.insert r d)) := by
  obtain ⟨proper, compatible⟩ := obeys
  have stored := refines.stored
  obtain ⟨decides, meets⟩ := stored.decides_intersects proper compatible
  obtain ⟨result, map', finds⟩ := find_spec (r := r) maxCacheSize stored.sorted refines.cached decides
  have cached : ∀ node ∈ map'.cache, node ∈ map'.tree := by
    rw [finds.tree]
    exact finds.cache
  show ((map.insert maxCacheSize r d).getD map).Refines (reference.insert r d)
  rw [AddrRangeMap.insert, finds.found, Option.map_some, Option.getD_some, Reference.insert, ← refines.nodes]
  cases result with
  | some it =>
    obtain ⟨member, met⟩ := finds.sound it rfl
    rw [if_pos (List.any_eq_true.mpr ⟨it, member, met⟩)]
    refine ⟨finds.tree, finds.inserted.trans refines.inserted, ?_, cached, ?_⟩
    · show map'.answers ++ [none] = reference.answers ++ [none]
      rw [finds.answers, refines.answers]
    · show Stored map'.tree
      rw [finds.tree]
      exact stored
  | none =>
    have clear : ∀ node ∈ map.tree, r.Clear node.range := by
      intro node member
      by_contra intersecting
      obtain ⟨n, inTree, met, reached⟩ := exists_reached stored member intersecting
      exact finds.complete n inTree ((meets n inTree).mpr met) reached rfl
    have none : ¬ (map.tree.any fun node => r.intersects node.range = some true) = true := by
      rw [List.any_eq_true]
      rintro ⟨node, member, met⟩
      exact (meets node member).mp met (clear node member)
    have absent : (map'.tree.find? fun node => !r.less node.range && !node.range.less r) = Option.none := by
      rw [List.find?_eq_none, finds.tree]
      intro node member equivalent
      have other := stored.key_ne proper member (clear node member)
      rw [Bool.and_eq_true, Bool.not_eq_true', Bool.not_eq_true', ← Bool.not_eq_true, ← Bool.not_eq_true,
        AddrRange.less_iff, AddrRange.less_iff] at equivalent
      omega
    have place : map'.upTo r = map.upTo r ∧ map'.upperBound r = map.upperBound r := by
      rw [upTo, upTo, upperBound, upperBound, finds.tree]
      exact ⟨rfl, rfl⟩
    rw [if_neg none]
    simp only [treeInsert, absent, place.1, place.2]
    refine ⟨?_, ?_, ?_, ?_, stored.insert proper clear map'.inserted d⟩
    · show (map.upTo r).reverse ++ ⟨map'.inserted, r, d⟩ :: map.upperBound r = _
      rw [finds.inserted, refines.inserted, upTo, upperBound, List.reverse_reverse]
    · show map'.inserted + 1 = reference.inserted + 1
      rw [finds.inserted, refines.inserted]
    · show map'.answers ++ [some map'.inserted] = reference.answers ++ [some reference.inserted]
      rw [finds.answers, refines.answers, finds.inserted, refines.inserted]
    · intro node member
      have inTree := finds.cache node member
      rw [← map.upTo_append_upperBound r] at inTree
      show node ∈ (map.upTo r).reverse ++ _ :: map.upperBound r
      rw [List.mem_append, List.mem_cons]
      exact (List.mem_append.mp inTree).imp id .inr

theorem Refines.erase (refines : map.Refines reference) (p : Nat) :
    (map.act maxCacheSize (.erase p)).Refines (reference.act (.erase p)) := by
  refine ⟨congrArg _ refines.nodes, refines.inserted, refines.answers, fun node member => ?_,
    refines.stored.sublist List.filter_sublist⟩
  obtain ⟨inCache, other⟩ := List.mem_filter.mp member
  exact List.mem_filter.mpr ⟨refines.cached node inCache, other⟩

theorem Refines.eraseRange (refines : map.Refines reference) {p : Nat} {q : Option Nat}
    (obeys : map.Obeys (.eraseRange p q)) :
    (map.act maxCacheSize (.eraseRange p q)).Refines (reference.act (.eraseRange p q)) := by
  have whole : (map.tree.takeWhile (·.id ≠ p)) ++ (between p q map.tree ++
      (map.tree.dropWhile (·.id ≠ p)).dropWhile fun node => some node.id ≠ q) = map.tree := by
    rw [between, List.takeWhile_append_dropWhile, List.takeWhile_append_dropWhile]
  have fewer : (outside p q map.tree).Sublist map.tree := by
    conv_rhs => rw [← whole]
    exact (List.Sublist.refl _).append (List.sublist_append_right ..)
  -- an entry of the cache that is erased is the one at `p`
  have kept : ∀ node ∈ map.tree, node ∉ between p q map.tree → node ∈ outside p q map.tree := by
    intro node member inside
    rw [← whole, List.mem_append, List.mem_append] at member
    exact List.mem_append.mpr (member.imp id fun late => late.resolve_left inside)
  refine ⟨congrArg (outside p q) refines.nodes, refines.inserted, refines.answers, fun node member => ?_,
    refines.stored.sublist fewer⟩
  have removed : node ∈ (if between p q map.tree = [] then map.cache else map.cache.filter (·.id ≠ p)) := member
  split at removed
  · rename_i empty
    refine kept node (refines.cached node removed) ?_
    rw [empty]
    exact List.not_mem_nil
  · obtain ⟨inCache, other⟩ := List.mem_filter.mp removed
    exact kept node (refines.cached node inCache) fun inside =>
      obeys.2.2 node inside (of_decide_eq_true other) inCache

/-- **One call.** -/
theorem Refines.act {call : MapCall V} (refines : map.Refines reference) (obeys : map.Obeys call) :
    (map.act maxCacheSize call).Refines (reference.act call) := by
  cases call with
  | insert r d => exact refines.insert maxCacheSize obeys
  | erase p => exact refines.erase maxCacheSize p
  | eraseRange p q => exact refines.eraseRange maxCacheSize obeys
  | clear => exact ⟨rfl, refines.inserted, refines.answers, by simp [AddrRangeMap.act, clear],
      refines.stored.sublist (List.nil_sublist _)⟩
  | containsAddr a => exact refines.containsAddr maxCacheSize obeys
  | contains r => exact refines.contains maxCacheSize obeys
  | intersects r => exact refines.intersects maxCacheSize obeys

end AddrRangeMap

/-! ### Runs -/

def Reference.run {V : Type} (calls : List (MapCall V)) : Reference V := runActions act create calls

namespace AddrRangeMap

variable {V : Type} [DecidableEq V] (maxCacheSize : Nat)

def run (calls : List (MapCall V)) : AddrRangeMap V := runActions (act maxCacheSize) create calls

/-- What is asked of the map: what is stored is pairwise disjoint and is what the reference stores, every call has
answered as in the reference, and the cache names stored entries only. -/
def Right (calls : List (MapCall V)) : Prop :=
  ((run maxCacheSize calls).tree = (Reference.run calls).nodes ∧
    (run maxCacheSize calls).answers = (Reference.run calls).answers) ∧
  ((run maxCacheSize calls).tree.Pairwise fun n n' =>
    ∀ a, ¬ (n.range.contains a = true ∧ n'.range.contains a = true)) ∧
  ∀ node ∈ (run maxCacheSize calls).cache, node ∈ (run maxCacheSize calls).tree

/-- **The map refines the set of ranges**: for every size of the cache, in every run whose calls obey. -/
theorem lookup_refines (calls : List (MapCall V)) (obeyed : AllowedRun (act maxCacheSize) Obeys create calls) :
    Right maxCacheSize calls := by
  have empty : Refines (create : AddrRangeMap V) Reference.create :=
    ⟨rfl, rfl, rfl, by simp [create], by simp [create], .nil, .nil⟩
  have step : ∀ (map : AddrRangeMap V) (reference : Reference V) (call : MapCall V), map.Obeys call →
      map.Refines reference → (map.act maxCacheSize call).Refines (reference.act call) :=
    fun _ _ _ obeys refines => refines.act maxCacheSize obeys
  have refines : Refines (run maxCacheSize calls) (Reference.run calls) := obeyed.simulation Refines step empty
  refine ⟨⟨refines.nodes, refines.answers⟩, ?_, refines.cached⟩
  exact refines.stored.clear.imp fun clear => clear.disjoint

/-- Two plain ranges and two stripes, found through the cache and erased again. -/
theorem refines_stripes : Right 2 ([.insert (.plain 0 16) (), .insert ⟨16, 32, [4], 1⟩ (), .insert ⟨16, 32, [4], 0⟩ (),
    .containsAddr 20, .insert (.plain 8 12) (), .erase 1, .containsAddr 20, .intersects (.plain 40 48),
    .contains (.plain 2 4), .eraseRange 0 (some 2)] : List (MapCall Unit)) := by
  refine lookup_refines 2 _ ?_
  decide

/-- Entries found through the cache stay there when `erase( p, q )` erases them behind its first one. -/
theorem erased_entry_cached : ¬ ∀ (maxCacheSize : Nat) (calls : List (MapCall Unit)), Right maxCacheSize calls := by
  intro right
  have cached := (right 2 [.insert (.plain 0 16) (), .insert (.plain 16 32) (), .containsAddr 20,
    .eraseRange 0 none]).2.2
  revert cached
  decide

end AddrRangeMap

end Emas.Gem5

/-
**Maps of address ranges.**

`class AddrRangeMap` of `base/addr_range_map.hh`: a `std::map` ordered by the start of the ranges and, in a group of
stripes, by their match value, and a list of the entries that were found last.

* An entry is a node of the tree; iterators are nodes, told apart by the number of their insertion (`id`). The tree is
  the list of its nodes in order. A node that is erased keeps its `id` for good: an iterator of the cache that still
  names it dangles, and what the code reads through it is not determined.
* A condition that panics leaves `find` without a result (`none`).
* `answers` records what the calls returned: the node that was found or inserted, or `end( )`.

`Reference` is the plain list of ranges that the map is to stand for, searched from the front.
-/

import Emas.Gem5.AddrRange
import Emas.Lib.ActionRun

namespace Emas.Gem5

namespace AddrRange

/-- `operator<`. -/
def less (range r : AddrRange) : Bool :=
  if range.startAddr ≠ r.startAddr then range.startAddr < r.startAddr else range.intlvMatch < r.intlvMatch

/-- `RangeEx( start, end )`. -/
def plain (startAddr endAddr : Addr) : AddrRange := ⟨startAddr, endAddr, [], 0⟩

def rangeSize (startAddr size : Addr) : AddrRange := plain startAddr (startAddr + size)

end AddrRange

/-- An entry of the tree. -/
structure Node (V : Type) where
  id : Nat
  range : AddrRange
  value : V
  deriving DecidableEq

/-- `class AddrRangeMap`, with the answers of its calls. -/
structure AddrRangeMap (V : Type) where
  tree : List (Node V)
  cache : List (Node V)
  inserted : Nat
  answers : List (Option Nat)

namespace AddrRangeMap

variable {V : Type} (maxCacheSize : Nat)

/-- An empty map. -/
def create : AddrRangeMap V := ⟨[], [], 0, []⟩

variable (map : AddrRangeMap V)

def addNewEntryToCache (it : Node V) : AddrRangeMap V :=
  if maxCacheSize ≠ 0 then
    if map.cache.length ≥ maxCacheSize then
      if maxCacheSize > 1 then { map with cache := it :: map.cache.dropLast }
      else { map with cache := map.cache.dropLast ++ [it] }
    else { map with cache := it :: map.cache }
  else map

/-- The first node that meets a condition, as far as the condition is defined. -/
def scan (cond : AddrRange → Option Bool) : List (Node V) → Option (Option (Node V))
  | [] => some none
  | node :: rest => (cond node.range).bind fun met => if met then some (some node) else scan cond rest

/-- The loop of `find`, back from a node through those that merge with it. -/
def walkBack (cond : AddrRange → Option Bool) : List (Node V) → Option (Option (Node V))
  | [] => some none
  | i :: rest =>
    (cond i.range).bind fun met =>
      if met then some (some i)
      else
        match rest with
        | [] => some none
        | next :: _ => if next.range.mergesWith i.range then walkBack cond rest else some none

/-- The nodes up to `upper_bound( r )`, the last one first. -/
def upTo (r : AddrRange) : List (Node V) := (map.tree.takeWhile fun node => !r.less node.range).reverse

/-- The nodes from `upper_bound( r )` on. -/
def upperBound (r : AddrRange) : List (Node V) := map.tree.dropWhile fun node => !r.less node.range

/-- The search of `find` in the tree. -/
def search (r : AddrRange) (cond : AddrRange → Option Bool) : Option (Option (Node V)) :=
  match map.upperBound r with
  | [] => walkBack cond (map.upTo r)
  | next :: _ => (cond next.range).bind fun met =>
      if met then some (some next) else walkBack cond (map.upTo r)

/-- A cached entry that was used moves to the front. -/
def promote [DecidableEq V] (it : Node V) : AddrRangeMap V := { map with cache := it :: map.cache.erase it }

def find [DecidableEq V] (r : AddrRange) (cond : AddrRange → Option Bool) : Option (Option (Node V) × AddrRangeMap V) :=
  (scan cond map.cache).bind fun cached =>
    match cached with
    | some it => some (some it, map.promote it)
    | none =>
      (map.search r cond).map fun found =>
        match found with
        | some it => (some it, map.addNewEntryToCache maxCacheSize it)
        | none => (none, map)

/-- A call returned this iterator. -/
def answer (result : Option (Node V)) : AddrRangeMap V :=
  { map with answers := map.answers ++ [result.map Node.id] }

variable [DecidableEq V]

def contains (r : AddrRange) : Option (AddrRangeMap V) :=
  (map.find maxCacheSize r fun r1 => r.isSubset r1).map fun result => result.2.answer result.1

/-- `contains( a )`. -/
def containsAddr (a : Addr) : Option (AddrRangeMap V) := map.contains maxCacheSize (.rangeSize a 1)

def intersects (r : AddrRange) : Option (AddrRangeMap V) :=
  (map.find maxCacheSize r fun r1 => r.intersects r1).map fun result => result.2.answer result.1

/-- `tree.insert( std::make_pair( r, d ) ).first`: a node with an equivalent key stays. -/
def treeInsert (r : AddrRange) (d : V) : Node V × AddrRangeMap V :=
  match map.tree.find? fun node => !r.less node.range && !node.range.less r with
  | some node => (node, map)
  | none =>
    let node : Node V := ⟨map.inserted, r, d⟩
    (node, { map with
      tree := (map.upTo r).reverse ++ node :: map.upperBound r
      inserted := map.inserted + 1 })

def insert (r : AddrRange) (d : V) : Option (AddrRangeMap V) :=
  (map.find maxCacheSize r fun r1 => r.intersects r1).map fun result =>
    match result.1 with
    | some _ => result.2.answer none
    | none =>
      let inserted := result.2.treeInsert r d
      inserted.2.answer (some inserted.1)

def erase (p : Nat) : AddrRangeMap V :=
  { map with cache := map.cache.filter (·.id ≠ p), tree := map.tree.filter (·.id ≠ p) }

/-- The nodes in `[p, q)`; `none` is `end( )`. -/
def between (p : Nat) (q : Option Nat) (tree : List (Node V)) : List (Node V) :=
  (tree.dropWhile (·.id ≠ p)).takeWhile fun node => some node.id ≠ q

/-- The nodes outside `[p, q)`. -/
def outside (p : Nat) (q : Option Nat) (tree : List (Node V)) : List (Node V) :=
  tree.takeWhile (·.id ≠ p) ++ (tree.dropWhile (·.id ≠ p)).dropWhile fun node => some node.id ≠ q

/-- `erase( p, q )`: every round of its loop removes `p` from the cache. -/
def eraseRange (p : Nat) (q : Option Nat) : AddrRangeMap V :=
  { map with
    cache := if between p q map.tree = [] then map.cache else map.cache.filter (·.id ≠ p)
    tree := outside p q map.tree }

def clear : AddrRangeMap V := { map with cache := [], tree := [] }

end AddrRangeMap

/-! ### Runs -/

/-- A call on the map. -/
inductive MapCall (V : Type) where
  | insert (r : AddrRange) (d : V)
  | erase (p : Nat)
  | eraseRange (p : Nat) (q : Option Nat)
  | clear
  | containsAddr (a : Addr)
  | contains (r : AddrRange)
  | intersects (r : AddrRange)

/-- A call; a panic leaves the map as it is, with no answer. -/
def AddrRangeMap.act {V : Type} [DecidableEq V] (maxCacheSize : Nat) (map : AddrRangeMap V) : MapCall V → AddrRangeMap V
  | .insert r d => (map.insert maxCacheSize r d).getD map
  | .erase p => map.erase p
  | .eraseRange p q => map.eraseRange p q
  | .clear => map.clear
  | .containsAddr a => (map.containsAddr maxCacheSize a).getD map
  | .contains r => (map.contains maxCacheSize r).getD map
  | .intersects r => (map.intersects maxCacheSize r).getD map

/-! ### The reference -/

/-- The stored ranges, in order, and the answers of the calls. -/
structure Reference (V : Type) where
  nodes : List (Node V)
  inserted : Nat
  answers : List (Option Nat)

namespace Reference

variable {V : Type} (reference : Reference V)

def create : Reference V := ⟨[], 0, []⟩

/-- The answer of a search from the front. -/
def answer (cond : AddrRange → Bool) : Reference V :=
  { reference with
    answers := reference.answers ++ [(reference.nodes.find? fun node => cond node.range).map Node.id] }

/-- A new range is stored unless it intersects a stored one. -/
def insert (r : AddrRange) (d : V) : Reference V :=
  if reference.nodes.any fun node => r.intersects node.range = some true then
    { reference with answers := reference.answers ++ [none] }
  else
    { nodes := (reference.nodes.takeWhile fun node => !r.less node.range) ++ ⟨reference.inserted, r, d⟩ ::
        reference.nodes.dropWhile fun node => !r.less node.range
      inserted := reference.inserted + 1
      answers := reference.answers ++ [some reference.inserted] }

/-- What a call leaves of the list, and its answer. -/
def act : MapCall V → Reference V
  | .insert r d => reference.insert r d
  | .erase p => { reference with nodes := reference.nodes.filter (·.id ≠ p) }
  | .eraseRange p q => { reference with nodes := AddrRangeMap.outside p q reference.nodes }
  | .clear => { reference with nodes := [] }
  | .containsAddr a => reference.answer fun r1 => r1.contains a
  | .contains r => reference.answer fun r1 => r.isSubset r1 = some true
  | .intersects r => reference.answer fun r1 => r.intersects r1 = some true

end Reference

end Emas.Gem5

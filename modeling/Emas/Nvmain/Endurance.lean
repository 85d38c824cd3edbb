/-
**Endurance accounting.**

`class EnduranceModel` with its `BitModel`, `ByteModel` and `WordModel`. The cells of a word are worn by a
`Write` in the order of its loops, each under the key of the model; `endurance` is what `GetEndurance( )`
of the distribution returns, call by call. Keys are `Nat`: the numbers of bits of a bank do not come near
`2 ^ 64`.
-/

import Emas.Lib.MixedRadix
import Emas.Lib.SortedMap
import Mathlib.Data.List.Induction
import Mathlib.Data.List.Nodup
import Mathlib.Tactic.Ring

namespace Emas.Nvmain

open MixedRadix

/-! ### The life map -/

/-- `class EnduranceModel`, with the number of calls of `GetEndurance( )`. -/
structure EnduranceModel where
  life : SortedMap Nat Nat
  drawn : Nat

namespace EnduranceModel

def create : EnduranceModel := ⟨.empty, 0⟩

/-- `DecrementLife( addr )`. -/
def decrementLife (endurance : Nat → Nat) (model : EnduranceModel) (addr : Nat) : EnduranceModel × Bool :=
  match model.life.find? addr with
  | none => (⟨model.life.insert addr (endurance model.drawn), model.drawn + 1⟩, true)
  | some left =>
    if left ≠ 0 then ({ model with life := model.life.insert addr (left - 1) }, true)
    else (model, false)

/-- `IsDead( addr )`. -/
def isDead (model : EnduranceModel) (addr : Nat) : Bool := model.life.find? addr == some 0

end EnduranceModel

/-! ### Cells and keys -/

/-- The three models. -/
inductive EnduranceKind where
  | bit
  | byte
  | word
  deriving DecidableEq, Repr

/-- The parameters the models read. A word has at least one byte (`WordModel` divides by its size). -/
structure EnduranceParams where
  busWidth : Nat
  tBURST : Nat
  rate : Nat
  cols : Nat
  word_pos : 0 < busWidth * (tBURST * rate) / 8

namespace EnduranceParams

variable (params : EnduranceParams)

/-- The bytes of a word. -/
def wordSize : Nat := params.busWidth * (params.tBURST * params.rate) / 8

/-- The bytes of a row. -/
def rowSize : Nat := params.cols * params.wordSize

end EnduranceParams

/-- A bit of a byte of a word; a byte has `bit = 0`, a word `byte = 0` as well. -/
structure Cell where
  row : Nat
  col : Nat
  byte : Nat
  bit : Nat
  deriving DecidableEq, Repr

/-- The write of a word: its address and the bytes before and after. -/
structure WordWrite where
  row : Nat
  col : Nat
  oldData : Nat → BitVec 8
  newData : Nat → BitVec 8

namespace EnduranceKind

variable (params : EnduranceParams)

/-- `wordkey`. -/
def key (kind : EnduranceKind) (cell : Cell) : Nat :=
  match kind with
  | bit => cell.row * (params.rowSize * 8) + cell.col * params.wordSize * 8 + cell.byte * 8 + cell.bit
  | byte => cell.row * (params.rowSize / 8) + cell.col * params.wordSize + cell.byte
  | word => cell.row * (params.rowSize / params.wordSize) + cell.col

/-- The cells that a write wears, in the order of the loops. -/
def worn (kind : EnduranceKind) (request : WordWrite) : List Cell :=
  match kind with
  | bit =>
    (List.range params.wordSize).flatMap fun i =>
      if request.oldData i = request.newData i then []
      else ((List.range 8).filter fun j =>
        (request.oldData i).getLsbD j != (request.newData i).getLsbD j).map (⟨request.row, request.col, i, ·⟩)
  | byte =>
    ((List.range params.wordSize).reverse.filter fun i => request.oldData i != request.newData i).map
      (⟨request.row, request.col, ·, 0⟩)
  | word => [⟨request.row, request.col, 0, 0⟩]

end EnduranceKind

namespace EnduranceModel

variable (params : EnduranceParams) (kind : EnduranceKind) (endurance : Nat → Nat)

/-- `if( !DecrementLife( wordkey ) ) rv = -1`, where `true` stands for `rv = 0`. -/
def wearOne (state : EnduranceModel × Bool) (cell : Cell) : EnduranceModel × Bool :=
  let (model, alive) := state.1.decrementLife endurance (kind.key params cell)
  (model, state.2 && alive)

/-- The loops around it. -/
def wearAll (model : EnduranceModel) (cells : List Cell) : EnduranceModel × Bool :=
  cells.foldl (wearOne params kind endurance) (model, true)

/-- `Write( request, oldData )`. -/
def write (model : EnduranceModel) (request : WordWrite) : EnduranceModel × Int :=
  let (model, alive) := model.wearAll params kind endurance (kind.worn params request)
  (model, if alive then 0 else -1)

/-- The life map after some writes. -/
def writeAll (requests : List WordWrite) : EnduranceModel :=
  requests.foldl (fun model request => (model.write params kind endurance request).1) create

end EnduranceModel

/-! ### The ledger -/

/-- The accounts of the cells: the endurance a cell was assigned, and its wearing writes. -/
structure Ledger where
  drawn : Nat
  assigned : Cell → Option Nat
  count : Cell → Nat

namespace Ledger

def create : Ledger := ⟨0, fun _ => none, fun _ => 0⟩

/-- A cell is worn by a write; at the first one it gets its endurance. -/
def wear (endurance : Nat → Nat) (ledger : Ledger) (cell : Cell) : Ledger where
  drawn := if ledger.assigned cell = none then ledger.drawn + 1 else ledger.drawn
  assigned := if ledger.assigned cell = none then
    Function.update ledger.assigned cell (some (endurance ledger.drawn)) else ledger.assigned
  count := Function.update ledger.count cell (ledger.count cell + 1)

/-- The cell has had write `E + 1`. -/
def Spent (ledger : Ledger) (cell : Cell) : Prop :=
  ∃ assigned, ledger.assigned cell = some assigned ∧ assigned + 1 ≤ ledger.count cell

instance (ledger : Ledger) (cell : Cell) : Decidable (ledger.Spent cell) :=
  decidable_of_iff (∃ assigned ∈ ledger.assigned cell, assigned + 1 ≤ ledger.count cell) Iff.rfl

/-- The accounts after some writes. -/
def writeAll (params : EnduranceParams) (kind : EnduranceKind) (endurance : Nat → Nat)
    (requests : List WordWrite) : Ledger :=
  requests.foldl (fun ledger request => (kind.worn params request).foldl (wear endurance) ledger) create

section Wear

variable {endurance : Nat → Nat} {ledger : Ledger} {cell other : Cell}

theorem wear_assigned_self : (ledger.wear endurance cell).assigned cell ≠ none := by
  unfold wear
  dsimp only
  split
  · rw [Function.update_self]
    exact nofun
  · assumption

theorem wear_assigned_of_ne (different : other ≠ cell) :
    (ledger.wear endurance cell).assigned other = ledger.assigned other := by
  unfold wear
  dsimp only
  split
  · exact Function.update_of_ne different _ _
  · rfl

theorem wear_count_of_ne (different : other ≠ cell) :
    (ledger.wear endurance cell).count other = ledger.count other := Function.update_of_ne different _ _

theorem wear_count_self : (ledger.wear endurance cell).count cell = ledger.count cell + 1 :=
  Function.update_self ..

theorem wear_assigned_fresh (fresh : ledger.assigned cell = none) :
    (ledger.wear endurance cell).assigned cell = some (endurance ledger.drawn) := by
  unfold wear
  dsimp only
  rw [if_pos fresh, Function.update_self]

theorem wear_assigned_again {assigned : Nat} (known : ledger.assigned cell = some assigned) :
    (ledger.wear endurance cell).assigned cell = some assigned := by
  unfold wear
  dsimp only
  rw [if_neg (by rw [known]; exact nofun), known]

theorem wear_spent_of_ne (different : other ≠ cell) :
    (ledger.wear endurance cell).Spent other ↔ ledger.Spent other := by
  unfold Spent
  rw [wear_assigned_of_ne different, wear_count_of_ne different]

/-- A spent cell stays spent. -/
theorem Spent.wear (spent : ledger.Spent other) (cell : Cell) : (ledger.wear endurance cell).Spent other := by
  by_cases same : other = cell
  · subst same
    obtain ⟨assigned, known, enough⟩ := spent
    exact ⟨assigned, wear_assigned_again known, by rw [wear_count_self]; omega⟩
  · exact (wear_spent_of_ne same).mpr spent

theorem Spent.wearAll {cells : List Cell} (spent : ledger.Spent other) :
    (cells.foldl (Ledger.wear endurance) ledger).Spent other := by
  induction cells generalizing ledger with
  | nil => exact spent
  | cons cell rest ih => exact ih (spent.wear cell)

end Wear

end Ledger

/-! ### The life map follows the ledger -/

section Follow

variable {params : EnduranceParams} {kind : EnduranceKind} {endurance : Nat → Nat}
  {model : EnduranceModel} {ledger : Ledger}

/-- The life map has the cells of the ledger under their keys. -/
structure Matches (params : EnduranceParams) (kind : EnduranceKind) (model : EnduranceModel)
    (ledger : Ledger) : Prop where
  drawn : model.drawn = ledger.drawn
  worn : ∀ cell, ledger.assigned cell ≠ none → 0 < ledger.count cell
  fresh : ∀ cell, ledger.assigned cell = none → ledger.count cell = 0
  life : ∀ cell assigned, ledger.assigned cell = some assigned →
    model.life.find? (kind.key params cell) = some (assigned + 1 - ledger.count cell)
  only : ∀ addr left, model.life.find? addr = some left →
    ∃ cell, kind.key params cell = addr ∧ ledger.assigned cell ≠ none

theorem Matches.create (params : EnduranceParams) (kind : EnduranceKind) : Matches params kind .create .create where
  drawn := rfl
  worn := fun _ known => absurd rfl known
  fresh := fun _ _ => rfl
  life := fun _ _ known => by cases known
  only := fun _ _ known => by cases known

theorem Matches.isDead_iff (matching : Matches params kind model ledger) {cell : Cell}
    (known : ledger.assigned cell ≠ none) : model.isDead (kind.key params cell) = true ↔ ledger.Spent cell := by
  obtain ⟨assigned, assignment⟩ := Option.ne_none_iff_exists'.mp known
  unfold EnduranceModel.isDead Ledger.Spent
  rw [matching.life cell assigned assignment, assignment, beq_iff_eq, Option.some_inj]
  constructor
  · intro gone
    exact ⟨assigned, rfl, by omega⟩
  · rintro ⟨_, ⟨rfl⟩, enough⟩
    omega

theorem Matches.wear {model' : EnduranceModel} {cell : Cell} (matching : Matches params kind model ledger)
    (own : ∀ other, ledger.assigned other ≠ none → kind.key params other = kind.key params cell → other = cell)
    (drawn : model'.drawn = (ledger.wear endurance cell).drawn)
    (here : ∀ assigned, (ledger.wear endurance cell).assigned cell = some assigned →
      model'.life.find? (kind.key params cell) = some (assigned + 1 - (ledger.count cell + 1)))
    (away : ∀ addr, addr ≠ kind.key params cell → model'.life.find? addr = model.life.find? addr) :
    Matches params kind model' (ledger.wear endurance cell) where
  drawn := drawn
  worn := by
    intro other known
    by_cases same : other = cell
    · rw [same, Ledger.wear_count_self]
      omega
    · rw [Ledger.wear_assigned_of_ne same] at known
      rw [Ledger.wear_count_of_ne same]
      exact matching.worn other known
  fresh := by
    intro other unknown
    have different : other ≠ cell := fun same => Ledger.wear_assigned_self (same ▸ unknown)
    rw [Ledger.wear_assigned_of_ne different] at unknown
    rw [Ledger.wear_count_of_ne different]
    exact matching.fresh other unknown
  life := by
    intro other assigned known
    by_cases same : other = cell
    · rw [same, Ledger.wear_count_self]
      exact here assigned (same ▸ known)
    · rw [Ledger.wear_assigned_of_ne same] at known
      have key : kind.key params other ≠ kind.key params cell :=
        fun shared => same (own other (by rw [known]; exact nofun) shared)
      rw [away _ key, Ledger.wear_count_of_ne same]
      exact matching.life other assigned known
  only := by
    intro addr left found
    by_cases key : addr = kind.key params cell
    · exact ⟨cell, key.symm, Ledger.wear_assigned_self⟩
    · rw [away addr key] at found
      obtain ⟨other, atKey, known⟩ := matching.only addr left found
      have different : other ≠ cell := fun same => key (by rw [← atKey, same])
      exact ⟨other, atKey, by rwa [Ledger.wear_assigned_of_ne different]⟩

/-- **One wearing write**, of a cell whose key is its own. -/
theorem decrementLife_matches (endurance : Nat → Nat) (matching : Matches params kind model ledger) (cell : Cell)
    (own : ∀ other, ledger.assigned other ≠ none → kind.key params other = kind.key params cell → other = cell) :
    Matches params kind (model.decrementLife endurance (kind.key params cell)).1 (ledger.wear endurance cell) ∧
      ((model.decrementLife endurance (kind.key params cell)).2 = false ↔ ledger.Spent cell) := by
  cases known : ledger.assigned cell with
  | none =>
    -- no cell of the life map has the key
    have unknown : model.life.find? (kind.key params cell) = none := by
      cases found : model.life.find? (kind.key params cell) with
      | none => rfl
      | some left =>
        obtain ⟨other, key, assigned⟩ := matching.only _ left found
        exact absurd (own other assigned key ▸ known) assigned
    unfold EnduranceModel.decrementLife
    rw [unknown]
    refine ⟨matching.wear own ?_ ?_ ?_, nofun, ?_⟩
    · show model.drawn + 1 = if ledger.assigned cell = none then ledger.drawn + 1 else ledger.drawn
      rw [if_pos known, matching.drawn]
    · intro assigned assignment
      rw [Ledger.wear_assigned_fresh known] at assignment
      obtain rfl := Option.some.inj assignment
      show (model.life.insert _ _).find? _ = _
      rw [SortedMap.find?_insert_self, matching.fresh cell known, matching.drawn]
      rfl
    · intro addr other
      show (model.life.insert _ _).find? addr = _
      rw [SortedMap.find?_insert, if_neg other]
    · rintro ⟨assigned, assignment, -⟩
      rw [known] at assignment
      cases assignment
  | some assigned =>
    have drawn : model.drawn = (ledger.wear endurance cell).drawn := by
      show _ = if ledger.assigned cell = none then ledger.drawn + 1 else ledger.drawn
      rw [if_neg (by rw [known]; exact nofun), matching.drawn]
    have spent : ledger.Spent cell ↔ assigned + 1 ≤ ledger.count cell := by
      unfold Ledger.Spent
      rw [known]
      exact ⟨fun ⟨_, same, enough⟩ => Option.some.inj same ▸ enough, fun enough => ⟨assigned, rfl, enough⟩⟩
    unfold EnduranceModel.decrementLife
    rw [matching.life cell assigned known, spent]
    dsimp only
    split
    · refine ⟨matching.wear own drawn ?_ ?_, nofun, fun enough => by omega⟩
      · intro again assignment
        rw [Ledger.wear_assigned_again known] at assignment
        obtain rfl := Option.some.inj assignment
        show (model.life.insert _ _).find? _ = _
        rw [SortedMap.find?_insert_self]
        congr 1
      · intro addr other
        show (model.life.insert _ _).find? addr = _
        rw [SortedMap.find?_insert, if_neg other]
    · refine ⟨matching.wear own drawn ?_ fun _ _ => rfl, fun _ => by omega, fun _ => rfl⟩
      intro again assignment
      rw [Ledger.wear_assigned_again known] at assignment
      obtain rfl := Option.some.inj assignment
      rw [matching.life cell assigned known]
      congr 1
      omega

theorem wearLoop_matches (endurance : Nat → Nat) {cells : List Cell} (matching : Matches params kind model ledger)
    (distinct : cells.Nodup) (own : ∀ cell ∈ cells, ∀ other, ledger.assigned other ≠ none ∨ other ∈ cells →
      kind.key params other = kind.key params cell → other = cell) (alive : Bool) :
    Matches params kind (cells.foldl (EnduranceModel.wearOne params kind endurance) (model, alive)).1
        (cells.foldl (Ledger.wear endurance) ledger) ∧
      ((cells.foldl (EnduranceModel.wearOne params kind endurance) (model, alive)).2 = false ↔
        alive = false ∨ ∃ cell ∈ cells, ledger.Spent cell) := by
  induction cells generalizing model ledger alive with
  | nil => exact ⟨matching, by simp⟩
  | cons cell rest ih =>
    obtain ⟨after, failed⟩ := decrementLife_matches endurance matching cell
      fun other known => own cell (List.mem_cons_self ..) other (.inl known)
    obtain ⟨outside, distinct⟩ := List.nodup_cons.mp distinct
    have own' : ∀ next ∈ rest, ∀ other, (ledger.wear endurance cell).assigned other ≠ none ∨ other ∈ rest →
        kind.key params other = kind.key params next → other = next := by
      intro next member other present shared
      refine own next (List.mem_cons_of_mem _ member) other ?_ shared
      by_cases same : other = cell
      · exact .inr (same ▸ List.mem_cons_self ..)
      · rw [Ledger.wear_assigned_of_ne same] at present
        exact present.imp_right (List.mem_cons_of_mem _)
    obtain ⟨later, failed'⟩ := ih after distinct own'
      (alive && (model.decrementLife endurance (kind.key params cell)).2)
    refine ⟨later, failed'.trans ?_⟩
    have others : (∃ next ∈ rest, (ledger.wear endurance cell).Spent next) ↔ ∃ next ∈ rest, ledger.Spent next := by
      refine exists_congr fun next => and_congr_right fun member => Ledger.wear_spent_of_ne ?_
      rintro rfl
      exact outside member
    rw [Bool.and_eq_false_iff, failed, others, List.exists_mem_cons_iff, or_assoc]

end Follow

/-! ### Keys -/

section Keys

variable {params : EnduranceParams} {kind : EnduranceKind} {request : WordWrite} {cell other : Cell}

/-- A cell of a column that exists. -/
structure Shaped (params : EnduranceParams) (kind : EnduranceKind) (cell : Cell) : Prop where
  col : cell.col < params.cols
  byte : cell.byte < params.wordSize
  bit : cell.bit < 8
  whole : kind ≠ .bit → cell.bit = 0
  word : kind = .word → cell.byte = 0

theorem shaped_of_worn (range : request.col < params.cols) (member : cell ∈ kind.worn params request) :
    Shaped params kind cell := by
  cases kind with
  | bit =>
    simp only [EnduranceKind.worn, List.mem_flatMap, List.mem_range] at member
    obtain ⟨i, inside, member⟩ := member
    split at member
    · cases member
    · obtain ⟨j, found, rfl⟩ := List.mem_map.mp member
      exact ⟨range, inside, List.mem_range.mp (List.mem_of_mem_filter found), fun other => absurd rfl other, nofun⟩
  | byte =>
    obtain ⟨i, found, rfl⟩ := List.mem_map.mp member
    have inside := List.mem_range.mp (List.mem_reverse.mp (List.mem_of_mem_filter found))
    exact ⟨range, inside, Nat.succ_pos 7, fun _ => rfl, nofun⟩
  | word =>
    obtain rfl := List.mem_singleton.mp member
    exact ⟨range, params.word_pos, Nat.succ_pos 7, fun _ => rfl, fun _ => rfl⟩

theorem worn_nodup : (kind.worn params request).Nodup := by
  cases kind with
  | bit =>
    refine List.nodup_flatMap.mpr ⟨fun i _ => ?_, ?_⟩
    · split
      · exact List.nodup_nil
      · exact (List.nodup_range.filter _).map fun j j' same => congrArg Cell.bit same
    · refine List.nodup_range.imp fun {i i'} different cell first second => different ?_
      dsimp only at first second
      split at first
      · cases first
      · split at second
        · cases second
        · obtain ⟨_, -, rfl⟩ := List.mem_map.mp first
          obtain ⟨_, -, same⟩ := List.mem_map.mp second
          exact congrArg Cell.byte same.symm
  | byte =>
    exact ((List.nodup_reverse.mpr List.nodup_range).filter _).map fun i i' same => congrArg Cell.byte same
  | word => exact List.nodup_singleton _

/-- The place of a byte in its row. -/
def Cell.offset (params : EnduranceParams) (cell : Cell) : Nat := cell.col * params.wordSize + cell.byte

theorem offset_inj (shaped : Shaped params kind cell) (shaped' : Shaped params kind other)
    (same : cell.offset params = other.offset params) : cell.col = other.col ∧ cell.byte = other.byte :=
  mul_add_inj shaped.byte shaped'.byte same

theorem offset_lt (shaped : Shaped params kind cell) : cell.offset params < params.rowSize := by
  have inside : (cell.col + 1) * params.wordSize ≤ params.rowSize := Nat.mul_le_mul_right _ shaped.col
  have byte := shaped.byte
  rw [Nat.succ_mul] at inside
  unfold Cell.offset
  omega

/-- Two bytes of different rows whose places are as far apart as `ByteModel` counts the rows between them. -/
def Overlaps (params : EnduranceParams) (cell other : Cell) : Prop :=
  cell.row < other.row ∧ cell.offset params = other.offset params + (other.row - cell.row) * (params.rowSize / 8)

instance : Decidable (Overlaps params cell other) :=
  inferInstanceAs (Decidable (_ ∧ _))

theorem bit_key_inj (shaped : Shaped params .bit cell) (shaped' : Shaped params .bit other)
    (same : EnduranceKind.bit.key params cell = EnduranceKind.bit.key params other) : cell = other := by
  have number : ∀ cell : Cell, EnduranceKind.bit.key params cell =
      (cell.row * params.rowSize + cell.offset params) * 8 + cell.bit := fun cell => by
    unfold EnduranceKind.key Cell.offset
    ring
  rw [number, number] at same
  obtain ⟨high, bit⟩ := mul_add_inj shaped.bit shaped'.bit same
  obtain ⟨row, offset⟩ := mul_add_inj (offset_lt shaped) (offset_lt shaped') high
  obtain ⟨col, byte⟩ := offset_inj shaped shaped' offset
  cases cell
  cases other
  simp_all

theorem word_key_inj (shaped : Shaped params .word cell) (shaped' : Shaped params .word other)
    (same : EnduranceKind.word.key params cell = EnduranceKind.word.key params other) : cell = other := by
  have count : params.rowSize / params.wordSize = params.cols := Nat.mul_div_cancel _ params.word_pos
  unfold EnduranceKind.key at same
  rw [count] at same
  obtain ⟨row, col⟩ := mul_add_inj shaped.col shaped'.col same
  have bits := shaped.whole nofun
  have bits' := shaped'.whole nofun
  have bytes := shaped.word rfl
  have bytes' := shaped'.word rfl
  cases cell
  cases other
  simp_all

theorem byte_key_eq_iff (shaped : Shaped params .byte cell) (shaped' : Shaped params .byte other) :
    EnduranceKind.byte.key params cell = EnduranceKind.byte.key params other ↔
      cell = other ∨ Overlaps params cell other ∨ Overlaps params other cell := by
  have number : ∀ cell : Cell, EnduranceKind.byte.key params cell =
      cell.row * (params.rowSize / 8) + cell.offset params := fun cell => by
    unfold EnduranceKind.key Cell.offset
    ring
  have apart : ∀ cell other : Cell, cell.row < other.row →
      (EnduranceKind.byte.key params cell = EnduranceKind.byte.key params other ↔
        cell.offset params = other.offset params + (other.row - cell.row) * (params.rowSize / 8)) := by
    intro cell other less
    obtain ⟨rows, further⟩ := Nat.exists_eq_add_of_lt less
    rw [number, number, further, show cell.row + rows + 1 - cell.row = rows + 1 by omega, Nat.add_assoc, Nat.add_mul]
    omega
  unfold Overlaps
  rcases Nat.lt_trichotomy cell.row other.row with less | row | more
  · rw [apart cell other less]
    constructor
    · exact fun same => .inr (.inl ⟨less, same⟩)
    · rintro (rfl | ⟨-, same⟩ | ⟨more, -⟩)
      · omega
      · exact same
      · omega
  · rw [number, number, row]
    constructor
    · intro same
      left
      obtain ⟨col, byte⟩ := offset_inj shaped shaped' (Nat.add_left_cancel same)
      have bits := shaped.whole nofun
      have bits' := shaped'.whole nofun
      cases cell
      cases other
      simp_all
    · rintro (rfl | ⟨less, -⟩ | ⟨more, -⟩)
      · rfl
      · omega
      · omega
  · rw [eq_comm, apart other cell more]
    constructor
    · exact fun same => .inr (.inr ⟨more, same⟩)
    · rintro (rfl | ⟨less, -⟩ | ⟨-, same⟩)
      · omega
      · omega
      · exact same

end Keys

/-! ### Runs -/

section Runs

variable (params : EnduranceParams) (kind : EnduranceKind)

/-- The cells that some writes wear. -/
def wornIn (requests : List WordWrite) : List Cell := requests.flatMap (kind.worn params)

/-- No two bytes overlap, in `ByteModel`. -/
def NoOverlap (requests : List WordWrite) : Prop :=
  kind = .byte → ∀ cell ∈ wornIn params kind requests, ∀ other ∈ wornIn params kind requests,
    ¬Overlaps params cell other

/-- The worn cells have keys of their own. -/
def DistinctKeys (requests : List WordWrite) : Prop :=
  ∀ cell ∈ wornIn params kind requests, ∀ other ∈ wornIn params kind requests,
    kind.key params cell = kind.key params other → cell = other

/-- A write wears a cell that is spent once it is done: it is write `E + 1` of the cell, or a later one. -/
def WearsSpent (endurance : Nat → Nat) (done : List WordWrite) (request : WordWrite) : Prop :=
  ∃ cell ∈ kind.worn params request, (Ledger.writeAll params kind endurance (done ++ [request])).Spent cell

/-- A write wears a cell that was spent before it. -/
def WearsDead (endurance : Nat → Nat) (done : List WordWrite) (request : WordWrite) : Prop :=
  ∃ cell ∈ kind.worn params request, (Ledger.writeAll params kind endurance done).Spent cell

/-- A write that is write `E + 1` of a cell wears another one that has had that before. -/
def NoneSpentAlone (endurance : Nat → Nat) (requests : List WordWrite) : Prop :=
  ∀ done request rest, requests = done ++ request :: rest → WearsSpent params kind endurance done request →
    WearsDead params kind endurance done request

/-- What is asked of a run of writes: the cells have keys of their own; at any time the dead ones are those
that have had write `E + 1`, whatever was written to others; and a write fails if and only if it is write
`E + 1` of a cell or a later one. -/
structure Accurate (endurance : Nat → Nat) (requests : List WordWrite) : Prop where
  distinct : DistinctKeys params kind requests
  dead : ∀ done rest, requests = done ++ rest → ∀ cell ∈ wornIn params kind done,
    ((EnduranceModel.writeAll params kind endurance done).isDead (kind.key params cell) = true ↔
      (Ledger.writeAll params kind endurance done).Spent cell)
  failed : ∀ done request rest, requests = done ++ request :: rest →
    (((EnduranceModel.writeAll params kind endurance done).write params kind endurance request).2 < 0 ↔
      WearsSpent params kind endurance done request)

variable {params kind}

theorem foldl_wear_assigned (endurance : Nat → Nat) (cells : List Cell) (ledger : Ledger) (cell : Cell) :
    (cells.foldl (Ledger.wear endurance) ledger).assigned cell ≠ none ↔ ledger.assigned cell ≠ none ∨ cell ∈ cells := by
  induction cells generalizing ledger with
  | nil => simp
  | cons first rest ih =>
    rw [List.foldl_cons, ih, List.mem_cons]
    by_cases same : cell = first
    · subst same
      simp [Ledger.wear_assigned_self]
    · rw [Ledger.wear_assigned_of_ne same]
      simp [same]

theorem writeAll_assigned (endurance : Nat → Nat) (requests : List WordWrite) (cell : Cell) :
    (Ledger.writeAll params kind endurance requests).assigned cell ≠ none ↔ cell ∈ wornIn params kind requests := by
  induction requests using List.reverseRecOn with
  | nil => simp [Ledger.writeAll, Ledger.create, wornIn]
  | append_singleton done request ih =>
    unfold Ledger.writeAll at ih ⊢
    rw [List.foldl_append, List.foldl_cons, List.foldl_nil, foldl_wear_assigned, ih]
    simp [wornIn]

theorem wornIn_append (done rest : List WordWrite) :
    wornIn params kind (done ++ rest) = wornIn params kind done ++ wornIn params kind rest :=
  List.flatMap_append

theorem DistinctKeys.left {done rest : List WordWrite} (distinct : DistinctKeys params kind (done ++ rest)) :
    DistinctKeys params kind done := by
  intro cell member other member'
  unfold DistinctKeys at distinct
  rw [wornIn_append] at distinct
  exact distinct cell (List.mem_append_left _ member) other (List.mem_append_left _ member')

theorem write_spec (endurance : Nat → Nat) {done : List WordWrite} {request : WordWrite}
    (before : Matches params kind (EnduranceModel.writeAll params kind endurance done)
      (Ledger.writeAll params kind endurance done)) (distinct : DistinctKeys params kind (done ++ [request])) :
    Matches params kind ((EnduranceModel.writeAll params kind endurance done).write params kind endurance request).1
        ((kind.worn params request).foldl (Ledger.wear endurance) (Ledger.writeAll params kind endurance done)) ∧
      (((EnduranceModel.writeAll params kind endurance done).write params kind endurance request).2 < 0 ↔
        WearsDead params kind endurance done request) := by
  have own : ∀ cell ∈ kind.worn params request, ∀ other,
      (Ledger.writeAll params kind endurance done).assigned other ≠ none ∨ other ∈ kind.worn params request →
      kind.key params other = kind.key params cell → other = cell := by
    intro cell member other present shared
    rw [writeAll_assigned] at present
    refine distinct other ?_ cell ?_ shared
    · rw [wornIn_append, List.mem_append]
      exact present.imp_right fun here => by simpa [wornIn] using here
    · rw [wornIn_append, List.mem_append]
      exact .inr (by simpa [wornIn] using member)
  obtain ⟨after, failed⟩ := wearLoop_matches endurance before worn_nodup own true
  refine ⟨after, Iff.trans ?_ (failed.trans (or_iff_right nofun))⟩
  show (if (EnduranceModel.wearAll params kind endurance _ _).2 = true then (0 : Int) else -1) < 0 ↔ _
  unfold EnduranceModel.wearAll
  cases (List.foldl (EnduranceModel.wearOne params kind endurance)
    (EnduranceModel.writeAll params kind endurance done, true) (kind.worn params request)).2 with
  | true => simp
  | false => simp

theorem writeAll_matches (endurance : Nat → Nat) {requests : List WordWrite}
    (distinct : DistinctKeys params kind requests) :
    Matches params kind (EnduranceModel.writeAll params kind endurance requests)
      (Ledger.writeAll params kind endurance requests) := by
  induction requests using List.reverseRecOn with
  | nil => exact .create params kind
  | append_singleton done request ih =>
    have after := (write_spec endurance (ih distinct.left) distinct).1
    unfold EnduranceModel.writeAll Ledger.writeAll at after ⊢
    rw [List.foldl_append, List.foldl_append]
    exact after

theorem distinctKeys_iff {requests : List WordWrite} (range : ∀ request ∈ requests, request.col < params.cols) :
    DistinctKeys params kind requests ↔ NoOverlap params kind requests := by
  have shaped : ∀ cell ∈ wornIn params kind requests, Shaped params kind cell := by
    intro cell member
    obtain ⟨request, present, worn⟩ := List.mem_flatMap.mp member
    exact shaped_of_worn (range request present) worn
  constructor
  · rintro distinct rfl cell member other member' overlap
    have same := distinct cell member other member'
      ((byte_key_eq_iff (shaped cell member) (shaped other member')).mpr (.inr (.inl overlap)))
    have less := overlap.1
    rw [same] at less
    exact Nat.lt_irrefl _ less
  · intro apart cell member other member' shared
    cases kind with
    | bit => exact bit_key_inj (shaped cell member) (shaped other member') shared
    | word => exact word_key_inj (shaped cell member) (shaped other member') shared
    | byte =>
      rcases (byte_key_eq_iff (shaped cell member) (shaped other member')).mp shared with
        same | overlap | overlap
      · exact same
      · exact absurd overlap (apart rfl cell member other member')
      · exact absurd overlap (apart rfl other member' cell member)

theorem WearsDead.spent {endurance : Nat → Nat} {done : List WordWrite} {request : WordWrite}
    (dead : WearsDead params kind endurance done request) : WearsSpent params kind endurance done request := by
  obtain ⟨cell, member, spent⟩ := dead
  refine ⟨cell, member, ?_⟩
  unfold Ledger.writeAll at spent ⊢
  rw [List.foldl_append]
  exact spent.wearAll

end Runs

/-- Words of eight bytes. -/
def smallWords (cols : Nat) : EnduranceParams := ⟨64, 1, 1, cols, by decide⟩

/-- A write that changes one byte of the first word of a row. -/
def changeByte (row byte : Nat) : WordWrite := ⟨row, 0, fun _ => 0, fun i => if i = byte then 1 else 0⟩

end Emas.Nvmain

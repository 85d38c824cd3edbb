/-
**What `InvertData` inverts.**

`InvertData` walks over the bytes that the range touches. It puts bit `j` of a byte at `7 - j`, and leaves the bits
outside the range clear.

* `flipsRange_iff`: **the bits of the range are flipped and no other** for exactly the data that reads the same in both
  directions, with ones where the other side is outside the range and zeros outside it; twice gives the data back if
  also the range is the same from both sides of its bytes.
-/

import Emas.Nvmain.FlipNWrite

namespace Emas.Nvmain

/-- Bit `b` is in the range. -/
def InBits (startBit endBit b : Nat) : Prop := startBit ≤ b ∧ b < endBit

instance (startBit endBit b : Nat) : Decidable (InBits startBit endBit b) :=
  inferInstanceAs (Decidable (startBit ≤ b ∧ b < endBit))

/-- Bit `b` is in a byte that the range touches. -/
def TouchedBit (startBit endBit b : Nat) : Prop := startBit / 8 ≤ b / 8 ∧ b / 8 ≤ (endBit - 1) / 8

instance (startBit endBit b : Nat) : Decidable (TouchedBit startBit endBit b) :=
  inferInstanceAs (Decidable (startBit / 8 ≤ b / 8 ∧ b / 8 ≤ (endBit - 1) / 8))

/-- The bits of the range are flipped, and no other. -/
def FlipsRange (data : DataWord) (startBit endBit : Nat) : Prop :=
  ∀ b, (invertData data startBit endBit).bit b = (data.bit b ^^ decide (InBits startBit endBit b))

/-- In the bytes that the range touches, a bit of the range is that of the other side, or one if the other side is
outside the range, and a bit outside the range is zero. -/
def MirroredRange (data : DataWord) (startBit endBit : Nat) : Prop :=
  ∀ b, TouchedBit startBit endBit b →
    if InBits startBit endBit b then
      if InBits startBit endBit (mirror b) then data.bit (mirror b) = data.bit b else data.bit b = true
    else data.bit b = false

/-- The range is the same from both sides of the bytes that it touches. -/
def SymmetricRange (startBit endBit : Nat) : Prop :=
  ∀ b, TouchedBit startBit endBit b → InBits startBit endBit b → InBits startBit endBit (mirror b)

section InvertData

variable {data : DataWord} {startBit endBit : Nat}

theorem touchedBit_mirror {b : Nat} (touched : TouchedBit startBit endBit b) : TouchedBit startBit endBit (mirror b) := by
  unfold TouchedBit mirror at *
  omega

theorem DataWord.ext_bit {data data' : DataWord} (same : ∀ b, data.bit b = data'.bit b) : data = data' := by
  funext i
  refine BitVec.eq_of_getLsbD_eq fun k small => ?_
  have bit := same (i * 8 + k)
  unfold DataWord.bit at bit
  rwa [show (i * 8 + k) / 8 = i by omega, show (i * 8 + k) % 8 = k by omega] at bit

/-- **The bytes are mirrored.** -/
theorem bit_invertData_mirror (data : DataWord) (startBit endBit b : Nat) :
    (invertData data startBit endBit).bit b =
      if TouchedBit startBit endBit b then decide (InBits startBit endBit (mirror b)) && !data.bit (mirror b)
      else data.bit b := by
  unfold DataWord.bit invertData
  by_cases touched : TouchedBit startBit endBit b
  · have bytes : startBit / 8 ≤ b / 8 ∧ b / 8 ≤ (endBit - 1) / 8 := touched
    rw [if_pos touched, if_pos bytes, getLsbD_invertByte _ _ _ _ (Nat.mod_lt _ (by decide)), mirror,
      show (b / 8 * 8 + (7 - b % 8)) / 8 = b / 8 by omega, show (b / 8 * 8 + (7 - b % 8)) % 8 = 7 - b % 8 by omega]
    rfl
  · rw [if_neg touched]
    exact congrArg (fun byte : BitVec 8 => byte.getLsbD (b % 8)) (if_neg touched)

theorem not_inBits_of_untouched {b : Nat} (untouched : ¬TouchedBit startBit endBit b) : ¬InBits startBit endBit b := by
  unfold TouchedBit at untouched
  unfold InBits
  omega

theorem flipsRange_iff_mirrored : FlipsRange data startBit endBit ↔ MirroredRange data startBit endBit := by
  constructor
  · intro flips b touched
    have here := flips b
    have there := flips (mirror b)
    rw [bit_invertData_mirror, if_pos touched] at here
    rw [bit_invertData_mirror, if_pos (touchedBit_mirror touched), mirror_mirror] at there
    by_cases inside : InBits startBit endBit b <;> by_cases inside' : InBits startBit endBit (mirror b) <;>
      simp_all
  · intro mirrored b
    rw [bit_invertData_mirror]
    split
    · rename_i touched
      have here := mirrored b touched
      have there := mirrored (mirror b) (touchedBit_mirror touched)
      rw [mirror_mirror] at there
      by_cases inside : InBits startBit endBit b <;> by_cases inside' : InBits startBit endBit (mirror b) <;>
        simp_all
    · rename_i untouched
      rw [decide_eq_false (not_inBits_of_untouched untouched), Bool.xor_false]

theorem invertData_twice_iff (mirrored : MirroredRange data startBit endBit) :
    invertData (invertData data startBit endBit) startBit endBit = data ↔ SymmetricRange startBit endBit := by
  have flips := flipsRange_iff_mirrored.mpr mirrored
  constructor
  · intro twice b touched inside
    by_contra outside
    have set : data.bit b = true := by
      have here := mirrored b touched
      rwa [if_pos inside, if_neg outside] at here
    have again := congrArg (fun word => DataWord.bit word b) twice
    rw [bit_invertData_mirror, if_pos touched, decide_eq_false outside, set] at again
    cases again
  · intro symmetric
    refine DataWord.ext_bit fun b => ?_
    rw [bit_invertData_mirror]
    split
    · rename_i touched
      have here := mirrored b touched
      rw [flips]
      by_cases inside : InBits startBit endBit b
      · have inside' := symmetric b touched inside
        rw [if_pos inside, if_pos inside'] at here
        simp [inside', here]
      · have outside' : ¬InBits startBit endBit (mirror b) := fun inside' => inside (by
          have back := symmetric (mirror b) (touchedBit_mirror touched) inside'
          rwa [mirror_mirror] at back)
        rw [if_neg inside] at here
        simp [outside', here]
    · rename_i untouched
      rw [flips, decide_eq_false (not_inBits_of_untouched untouched), Bool.xor_false]

/-- **When `InvertData` flips the bits of the range**, and when flipping them twice changes nothing. -/
theorem flipsRange_iff (data : DataWord) (startBit endBit : Nat) :
    (FlipsRange data startBit endBit ↔ MirroredRange data startBit endBit) ∧
      (FlipsRange data startBit endBit ∧ invertData (invertData data startBit endBit) startBit endBit = data ↔
        MirroredRange data startBit endBit ∧ SymmetricRange startBit endBit) := by
  refine ⟨flipsRange_iff_mirrored, ?_⟩
  rw [flipsRange_iff_mirrored]
  exact and_congr_right invertData_twice_iff

end InvertData

/-- The last bit of a byte is flipped into the first. -/
theorem not_flipsRange : ¬∀ (data : DataWord) (startBit endBit : Nat), startBit < endBit →
    FlipsRange data startBit endBit := by
  intro flips
  exact absurd (flips (fun _ => 1) 0 8 (by decide) 0) (by decide)

end Emas.Nvmain

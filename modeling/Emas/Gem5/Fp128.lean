/-
**Arithmetic in two words.**

The functions on 128 bits of `arch/arm/insts/fplib.cc` keep a number in two words of 64 bits. Each one is the operation
on numbers below `2 ^ 128` that its name says; the products are exact for what fits into 62 bits, or into 64 and 32.
-/

import Emas.Gem5.FpOperands

namespace Emas.Gem5.Fplib

variable {x : Wide}

namespace Wide

/-- The number in two words. -/
def toNat (x : Wide) : ℕ := 2 ^ 64 * x.x1 + x.x0

/-- Both words are words. -/
structure Valid (x : Wide) : Prop where
  x0 : x.x0 < 2 ^ 64
  x1 : x.x1 < 2 ^ 64

theorem Valid.toNat_lt (valid : x.Valid) : x.toNat < 2 ^ 128 := by
  have low := valid.x0
  have high := valid.x1
  rw [toNat]
  omega

theorem toNat_low (valid : x.Valid) : x.toNat % 2 ^ 64 = x.x0 := by
  rw [toNat, Nat.mul_add_mod, Nat.mod_eq_of_lt valid.x0]

theorem toNat_high (valid : x.Valid) : x.toNat / 2 ^ 64 = x.x1 := by
  rw [toNat, Nat.mul_add_div (Nat.two_pow_pos _), Nat.div_eq_of_lt valid.x0, Nat.add_zero]

theorem toNat_eq_zero (x : Wide) : x.toNat = 0 ↔ x.x0 = 0 ∧ x.x1 = 0 := by
  rw [toNat]
  omega

end Wide

/-! ### Shifts -/

theorem shl_or {w x y shift : ℕ} (le : shift ≤ w) (small : y < 2 ^ shift) :
    shl w x shift ||| y = 2 ^ shift * (x % 2 ^ (w - shift)) + y := by
  have width : 2 ^ w = 2 ^ shift * 2 ^ (w - shift) := by rw [← pow_add, Nat.add_sub_cancel' le]
  have shifted : shl w x shift = 2 ^ shift * (x % 2 ^ (w - shift)) := by
    rw [shl, Nat.shiftLeft_eq, mul_comm, width, Nat.mul_mod_mul_left]
  rw [shifted, ← Nat.two_pow_add_eq_or_of_lt small]

theorem shl_eq {w x shift : ℕ} (fits : x * 2 ^ shift < 2 ^ w) : shl w x shift = x * 2 ^ shift := by
  rw [shl, Nat.shiftLeft_eq, Nat.mod_eq_of_lt fits]

theorem shl_lt (w x shift : ℕ) : shl w x shift < 2 ^ w := Nat.mod_lt _ (Nat.two_pow_pos w)

theorem lsl128_spec (valid : x.Valid) (shift : ℕ) :
    (lsl128 x shift).Valid ∧ (lsl128 x shift).toNat = x.toNat * 2 ^ shift % 2 ^ 128 := by
  have low := valid.x0
  have high := valid.x1
  rw [lsl128]
  split
  next none =>
    rw [none, pow_zero, Nat.mul_one, Nat.mod_eq_of_lt valid.toNat_lt]
    exact ⟨valid, rfl⟩
  next some =>
    split
    next near =>
      obtain ⟨rest, width⟩ : ∃ rest, 64 = shift + rest := ⟨64 - shift, by omega⟩
      have power : 2 ^ 64 = 2 ^ shift * 2 ^ rest := by rw [← pow_add, ← width]
      have cut : 64 - shift = rest := by omega
      have small : x.x0 / 2 ^ rest < 2 ^ shift := by
        rw [Nat.div_lt_iff_lt_mul (Nat.two_pow_pos _), ← power]
        exact low
      have bits : x.x1 % 2 ^ rest < 2 ^ rest := Nat.mod_lt _ (Nat.two_pow_pos _)
      have joined : 2 ^ shift * (x.x1 % 2 ^ rest) + x.x0 / 2 ^ rest < 2 ^ 64 := by
        calc _ < 2 ^ shift * (x.x1 % 2 ^ rest) + 2 ^ shift := Nat.add_lt_add_left small _
          _ = 2 ^ shift * (x.x1 % 2 ^ rest + 1) := by ring
          _ ≤ 2 ^ shift * 2 ^ rest := Nat.mul_le_mul_left _ bits
          _ = 2 ^ 64 := power.symm
      rw [Nat.shiftRight_eq_div_pow, cut, shl_or (by omega) small, cut]
      refine ⟨⟨shl_lt .., joined⟩, ?_⟩
      have parts : x.x0 * 2 ^ shift = 2 ^ 64 * (x.x0 / 2 ^ rest) + shl 64 x.x0 shift := by
        have split := Nat.div_add_mod (x.x0 * 2 ^ shift) (2 ^ 64)
        have whole : x.x0 * 2 ^ shift / 2 ^ 64 = x.x0 / 2 ^ rest := by
          rw [power, mul_comm x.x0, Nat.mul_div_mul_left _ _ (Nat.two_pow_pos _)]
        rw [shl, Nat.shiftLeft_eq, ← whole, split]
      have dropped : x.x1 * 2 ^ shift = 2 ^ 64 * (x.x1 / 2 ^ rest) + 2 ^ shift * (x.x1 % 2 ^ rest) := by
        have split := Nat.div_add_mod x.x1 (2 ^ rest)
        calc x.x1 * 2 ^ shift = 2 ^ shift * (2 ^ rest * (x.x1 / 2 ^ rest) + x.x1 % 2 ^ rest) := by rw [split, mul_comm]
          _ = _ := by
            rw [power]
            ring
      have product : x.toNat * 2 ^ shift = 2 ^ 128 * (x.x1 / 2 ^ rest)
          + (2 ^ 64 * (2 ^ shift * (x.x1 % 2 ^ rest) + x.x0 / 2 ^ rest) + shl 64 x.x0 shift) := by
        calc x.toNat * 2 ^ shift = 2 ^ 64 * (x.x1 * 2 ^ shift) + x.x0 * 2 ^ shift := by
              rw [Wide.toNat]
              ring
          _ = _ := by
              rw [parts, dropped]
              ring
      have word := shl_lt 64 x.x0 shift
      have within : 2 ^ 64 * (2 ^ shift * (x.x1 % 2 ^ rest) + x.x0 / 2 ^ rest) + shl 64 x.x0 shift < 2 ^ 128 := by omega
      rw [product, Nat.mul_add_mod, Nat.mod_eq_of_lt within]
      rfl
    next far =>
      have power : 2 ^ shift = 2 ^ 64 * 2 ^ (shift - 64) := by
        rw [← pow_add]
        congr 1
        omega
      have product : x.toNat * 2 ^ shift = 2 ^ 128 * (x.x1 * 2 ^ (shift - 64)) + 2 ^ 64 * (x.x0 * 2 ^ (shift - 64)) := by
        rw [Wide.toNat, power]
        ring
      have square : 2 ^ 128 = 2 ^ 64 * 2 ^ 64 := by norm_num
      split
      next =>
        refine ⟨⟨Nat.two_pow_pos 64, shl_lt ..⟩, ?_⟩
        rw [product, Nat.mul_add_mod, square, Nat.mul_mod_mul_left, Wide.toNat, shl, Nat.shiftLeft_eq, Nat.add_zero]
      next beyond =>
        refine ⟨⟨Nat.two_pow_pos 64, Nat.two_pow_pos 64⟩, ?_⟩
        obtain ⟨more, is⟩ : ∃ more, shift = 128 + more := ⟨shift - 128, by omega⟩
        rw [is, pow_add, mul_left_comm, Nat.mul_mod_right]
        rfl

theorem lsr128_spec (valid : x.Valid) (shift : ℕ) :
    (lsr128 x shift).Valid ∧ (lsr128 x shift).toNat = x.toNat / 2 ^ shift := by
  have low := valid.x0
  have high := valid.x1
  have below : ∀ y n, y < 2 ^ 64 → y / 2 ^ n < 2 ^ 64 := fun y n word => lt_of_le_of_lt (Nat.div_le_self ..) word
  rw [lsr128]
  split
  next none =>
    rw [none, pow_zero, Nat.div_one]
    exact ⟨valid, rfl⟩
  next some =>
    split
    next near =>
      obtain ⟨rest, width⟩ : ∃ rest, 64 = shift + rest := ⟨64 - shift, by omega⟩
      have power : 2 ^ 64 = 2 ^ shift * 2 ^ rest := by rw [← pow_add, ← width]
      have cut : 64 - shift = rest := by omega
      have cut' : 64 - rest = shift := by omega
      have small : x.x0 / 2 ^ shift < 2 ^ rest := by
        rw [Nat.div_lt_iff_lt_mul (Nat.two_pow_pos _), mul_comm, ← power]
        exact low
      have bits : x.x1 % 2 ^ shift < 2 ^ shift := Nat.mod_lt _ (Nat.two_pow_pos _)
      have joined : 2 ^ rest * (x.x1 % 2 ^ shift) + x.x0 / 2 ^ shift < 2 ^ 64 := by
        calc _ < 2 ^ rest * (x.x1 % 2 ^ shift) + 2 ^ rest := Nat.add_lt_add_left small _
          _ = 2 ^ rest * (x.x1 % 2 ^ shift + 1) := by ring
          _ ≤ 2 ^ rest * 2 ^ shift := Nat.mul_le_mul_left _ bits
          _ = 2 ^ 64 := by rw [power, mul_comm]
      rw [Nat.shiftRight_eq_div_pow, Nat.shiftRight_eq_div_pow, cut, Nat.or_comm, shl_or (by omega) small, cut']
      refine ⟨⟨joined, below _ _ high⟩, ?_⟩
      have parts := Nat.div_add_mod x.x1 (2 ^ shift)
      have number : x.toNat = 2 ^ shift * (2 ^ rest * x.x1) + x.x0 := by
        rw [Wide.toNat, power, mul_assoc]
      have whole : 2 ^ rest * x.x1 = 2 ^ 64 * (x.x1 / 2 ^ shift) + 2 ^ rest * (x.x1 % 2 ^ shift) := by
        calc 2 ^ rest * x.x1 = 2 ^ rest * (2 ^ shift * (x.x1 / 2 ^ shift) + x.x1 % 2 ^ shift) := by rw [parts]
          _ = _ := by
            rw [power]
            ring
      rw [number, Nat.mul_add_div (Nat.two_pow_pos _), whole, Wide.toNat]
      ring
    next far =>
      split
      next =>
        rw [Nat.shiftRight_eq_div_pow]
        refine ⟨⟨below _ _ high, Nat.two_pow_pos 64⟩, ?_⟩
        have power : 2 ^ shift = 2 ^ 64 * 2 ^ (shift - 64) := by
          rw [← pow_add]
          congr 1
          omega
        rw [power, ← Nat.div_div_eq_div_mul, Wide.toNat_high valid, Wide.toNat, Nat.mul_zero, Nat.zero_add]
      next beyond =>
        refine ⟨⟨Nat.two_pow_pos 64, Nat.two_pow_pos 64⟩, ?_⟩
        have large := Nat.pow_le_pow_right two_pos (not_lt.mp beyond)
        rw [Nat.div_eq_of_lt (lt_of_lt_of_le valid.toNat_lt large)]
        rfl

/-! ### Products -/

theorem sub_eq {w x y : ℕ} (le : y ≤ x) (word : x < 2 ^ w) : sub w x y = x - y := by
  have wraps : x + (2 ^ w - y) = x - y + 2 ^ w := by omega
  rw [sub, wraps, Nat.add_mod_right, Nat.mod_eq_of_lt (by omega)]

theorem mul62x62_spec {a b : ℕ} (ha : a < 2 ^ 62) (hb : b < 2 ^ 62) :
    (mul62x62 a b).Valid ∧ (mul62x62 a b).toNat = a * b := by
  have mask : ∀ x, x &&& (1 <<< 31 - 1) = x % 2 ^ 31 := fun x => Nat.and_two_pow_sub_one_eq_mod x 31
  have top : ∀ x, x < 2 ^ 62 → x >>> 31 % 2 ^ 31 = x / 2 ^ 31 := fun x small => by
    rw [Nat.shiftRight_eq_div_pow, Nat.mod_eq_of_lt (by omega)]
  rw [mul62x62]
  simp only [mask, top a ha, top b hb]
  have splitA := Nat.div_add_mod a (2 ^ 31)
  have splitB := Nat.div_add_mod b (2 ^ 31)
  have lowA := Nat.mod_lt a (Nat.two_pow_pos 31)
  have lowB := Nat.mod_lt b (Nat.two_pow_pos 31)
  have highA : a / 2 ^ 31 < 2 ^ 31 := by omega
  have highB : b / 2 ^ 31 < 2 ^ 31 := by omega
  generalize a % 2 ^ 31 = a0 at *
  generalize a / 2 ^ 31 = a1 at *
  generalize b % 2 ^ 31 = b0 at *
  generalize b / 2 ^ 31 = b1 at *
  have bound : ∀ x y, x < 2 ^ 31 → y < 2 ^ 31 → x * y ≤ (2 ^ 31 - 1) * (2 ^ 31 - 1) := fun x y hx hy =>
    Nat.mul_le_mul (Nat.le_sub_one_of_lt hx) (Nat.le_sub_one_of_lt hy)
  have b00 := bound a0 b0 lowA lowB
  have b01 := bound a0 b1 lowA highB
  have b10 := bound a1 b0 highA lowB
  have b11 := bound a1 b1 highA highB
  have product : a * b = a0 * b0 + 2 ^ 31 * (a0 * b1 + a1 * b0) + 2 ^ 62 * (a1 * b1) := by
    rw [← splitA, ← splitB]
    ring
  have cross : (a0 + a1) * (b0 + b1) = a0 * b0 + (a0 * b1 + a1 * b0) + a1 * b1 := by ring
  rw [product, cross]
  clear product cross splitA splitB ha hb
  generalize a0 * b0 = p0 at *
  generalize a0 * b1 = p01 at *
  generalize a1 * b0 = p10 at *
  generalize a1 * b1 = p2 at *
  rw [Nat.mod_eq_of_lt (a := p0) (by omega), Nat.mod_eq_of_lt (a := p2) (by omega),
    Nat.mod_eq_of_lt (a := p0 + (p01 + p10) + p2) (by omega)]
  have middle : sub 64 (sub 64 (p0 + (p01 + p10) + p2) p0) p2 = p01 + p10 := by
    rw [@sub_eq 64 _ p0 (by omega) (by omega), sub_eq (by omega) (by omega)]
    omega
  rw [middle]
  simp only [Nat.shiftRight_eq_div_pow]
  rw [Nat.mod_eq_of_lt (a := p0 / 2 ^ 31 + (p01 + p10)) (by omega)]
  set s1 := p0 / 2 ^ 31 + (p01 + p10) with hs1
  rw [Nat.mod_eq_of_lt (a := s1 / 2 ^ 31 + p2) (by omega)]
  set s2 := s1 / 2 ^ 31 + p2 with hs2
  have first : p0 % 2 ^ 31 ||| shl 64 (s1 % 2 ^ 31) 31 = 2 ^ 31 * (s1 % 2 ^ 31) + p0 % 2 ^ 31 := by
    rw [Nat.or_comm, shl_or (by norm_num) (Nat.mod_lt _ (Nat.two_pow_pos 31))]
    congr 2
    exact Nat.mod_eq_of_lt (by omega)
  have second : p0 % 2 ^ 31 ||| shl 64 (s1 % 2 ^ 31) 31 ||| shl 64 s2 62
      = 2 ^ 62 * (s2 % 4) + (2 ^ 31 * (s1 % 2 ^ 31) + p0 % 2 ^ 31) := by
    rw [first, Nat.or_comm, shl_or (by norm_num) (by omega)]
    rfl
  rw [second]
  refine ⟨⟨by dsimp only; omega, by dsimp only; omega⟩, ?_⟩
  rw [Wide.toNat]
  dsimp only
  omega

theorem mul64x32_spec {a b : ℕ} (ha : a < 2 ^ 64) (hb : b < 2 ^ 32) :
    (mul64x32 a b).Valid ∧ (mul64x32 a b).toNat = a * b := by
  rw [mul64x32]
  simp only [Nat.mod_eq_of_lt hb, Nat.shiftRight_eq_div_pow]
  have split := Nat.div_add_mod a (2 ^ 32)
  have low := Nat.mod_lt a (Nat.two_pow_pos 32)
  have high : a / 2 ^ 32 < 2 ^ 32 := by omega
  generalize a % 2 ^ 32 = a0 at *
  generalize a / 2 ^ 32 = a1 at *
  have bound : ∀ x, x < 2 ^ 32 → x * b ≤ (2 ^ 32 - 1) * (2 ^ 32 - 1) := fun x hx =>
    Nat.mul_le_mul (Nat.le_sub_one_of_lt hx) (Nat.le_sub_one_of_lt hb)
  have b0 := bound a0 low
  have b1 := bound a1 high
  have product : a * b = a0 * b + 2 ^ 32 * (a1 * b) := by
    rw [← split]
    ring
  rw [product]
  clear product split ha
  generalize a0 * b = p0 at *
  generalize a1 * b = p1 at *
  rw [Nat.mod_eq_of_lt (a := p0) (by omega), Nat.mod_eq_of_lt (a := p0 / 2 ^ 32 + p1) (by omega)]
  have joined : shl 64 (p0 / 2 ^ 32 + p1) 32 ||| p0 % 2 ^ 32 = 2 ^ 32 * ((p0 / 2 ^ 32 + p1) % 2 ^ 32) + p0 % 2 ^ 32 :=
    shl_or (by norm_num) (Nat.mod_lt _ (Nat.two_pow_pos 32))
  rw [joined]
  refine ⟨⟨by dsimp only; omega, by dsimp only; omega⟩, ?_⟩
  rw [Wide.toNat]
  dsimp only
  omega

/-! ### Sums and differences -/

variable {a b : Wide}

theorem add128_spec (ha : a.Valid) (hb : b.Valid) (fits : a.toNat + b.toNat < 2 ^ 128) :
    (add128 a b).Valid ∧ (add128 a b).toNat = a.toNat + b.toNat := by
  have a0 := ha.x0
  have a1 := ha.x1
  have b0 := hb.x0
  have b1 := hb.x1
  rw [Wide.toNat, Wide.toNat] at fits
  rw [add128, Wide.toNat, Wide.toNat, Wide.toNat]
  refine ⟨⟨Nat.mod_lt _ (Nat.two_pow_pos 64), Nat.mod_lt _ (Nat.two_pow_pos 64)⟩, ?_⟩
  dsimp only
  rw [flag]
  split <;> omega

theorem sub128_spec (ha : a.Valid) (hb : b.Valid) (le : b.toNat ≤ a.toNat) :
    (sub128 a b).Valid ∧ (sub128 a b).toNat = a.toNat - b.toNat := by
  have a0 := ha.x0
  have a1 := ha.x1
  have b0 := hb.x0
  have b1 := hb.x1
  rw [Wide.toNat, Wide.toNat] at le
  rw [sub128, Wide.toNat, Wide.toNat, Wide.toNat]
  refine ⟨⟨Nat.mod_lt _ (Nat.two_pow_pos 64), Nat.mod_lt _ (Nat.two_pow_pos 64)⟩, ?_⟩
  dsimp only
  rw [flag, sub, sub, sub]
  split <;> omega

theorem cmp128_spec (ha : a.Valid) (hb : b.Valid) :
    (cmp128 a b ≤ 0 ↔ a.toNat ≤ b.toNat) ∧ (cmp128 a b ≥ 0 ↔ b.toNat ≤ a.toNat) := by
  have a0 := ha.x0
  have b0 := hb.x0
  rw [cmp128, Wide.toNat, Wide.toNat]
  split
  next => constructor <;> omega
  next =>
    split
    next => constructor <;> omega
    next =>
      split
      next => constructor <;> omega
      next => split <;> constructor <;> omega

theorem cmp128_eq_zero (ha : a.Valid) (hb : b.Valid) : cmp128 a b = 0 ↔ a.toNat = b.toNat := by
  have both := cmp128_spec ha hb
  omega

/-! ### Normalisation -/

theorem normaliseLoop128_spec (level : ℕ) (fits : level ≤ 6) (exp : ℤ) (valid : x.Valid)
    (low : 2 ^ (64 - 2 ^ level) ≤ x.x1) :
    ∃ k : ℕ, (normaliseLoop128 level x exp).1.Valid ∧ (normaliseLoop128 level x exp).1.toNat = x.toNat * 2 ^ k ∧
      (normaliseLoop128 level x exp).2 = exp - k ∧ 2 ^ 63 ≤ (normaliseLoop128 level x exp).1.x1 := by
  induction level generalizing x exp with
  | zero => exact ⟨0, valid, by simp [normaliseLoop128], by simp [normaliseLoop128], low⟩
  | succ level ih =>
    have positive := Nat.two_pow_pos level
    have bounded : 2 ^ level ≤ 32 := Nat.pow_le_pow_right (n := 2) two_pos (show level ≤ 5 by omega)
    rw [pow_succ] at low
    rw [normaliseLoop128]
    split
    next empty =>
      rw [Nat.shiftRight_eq_div_pow, Nat.div_eq_zero_iff_lt (Nat.two_pow_pos _)] at empty
      have high : x.x1 * 2 ^ 2 ^ level < 2 ^ 64 := by
        calc x.x1 * 2 ^ 2 ^ level < 2 ^ (64 - 2 ^ level) * 2 ^ 2 ^ level :=
              Nat.mul_lt_mul_of_pos_right empty (Nat.two_pow_pos _)
          _ = 2 ^ 64 := by rw [← pow_add, Nat.sub_add_cancel (by omega)]
      -- one turn of the loop is a shift of both words
      have turn : (⟨shl 64 x.x0 (2 ^ level), shl 64 x.x1 (2 ^ level) ||| x.x0 >>> (64 - 2 ^ level)⟩ : Wide)
          = lsl128 x (2 ^ level) := by
        rw [lsl128, if_neg positive.ne', if_pos (by omega)]
      obtain ⟨valid', shifted⟩ := lsl128_spec valid (2 ^ level)
      have number : x.toNat * 2 ^ 2 ^ level < 2 ^ 128 := by
        have word := valid.x0
        calc x.toNat * 2 ^ 2 ^ level < 2 ^ 64 * (x.x1 + 1) * 2 ^ 2 ^ level := by
              refine Nat.mul_lt_mul_of_pos_right ?_ (Nat.two_pow_pos _)
              rw [Wide.toNat]
              omega
          _ ≤ 2 ^ 64 * 2 ^ (64 - 2 ^ level) * 2 ^ 2 ^ level := by
              refine Nat.mul_le_mul_right _ (Nat.mul_le_mul_left _ ?_)
              omega
          _ = 2 ^ 128 := by rw [mul_assoc, ← pow_add, ← pow_add, Nat.sub_add_cancel (by omega)]
      rw [Nat.mod_eq_of_lt number] at shifted
      have bottom : 2 ^ (64 - 2 ^ level) ≤ (lsl128 x (2 ^ level)).x1 := by
        rw [← Wide.toNat_high valid', shifted, Nat.le_div_iff_mul_le (Nat.two_pow_pos _)]
        calc 2 ^ (64 - 2 ^ level) * 2 ^ 64 = 2 ^ 64 * 2 ^ (64 - 2 ^ level * 2) * 2 ^ 2 ^ level := by
              rw [← pow_add, ← pow_add, ← pow_add]
              congr 1
              omega
          _ ≤ x.toNat * 2 ^ 2 ^ level := by
              refine Nat.mul_le_mul_right _ ?_
              rw [Wide.toNat]
              exact le_trans (Nat.mul_le_mul_left _ low) (Nat.le_add_right ..)
      obtain ⟨k, keeps, is, exponent, top⟩ := ih (by omega) (exp - (2 ^ level : ℕ)) valid' bottom
      simp only [turn]
      refine ⟨2 ^ level + k, keeps, ?_, ?_, top⟩
      · rw [is, shifted, mul_assoc, ← pow_add]
      · rw [exponent]
        push_cast
        rw [sub_sub]
    next full =>
      rw [Nat.shiftRight_eq_div_pow, Nat.div_eq_zero_iff_lt (Nat.two_pow_pos _), not_lt] at full
      exact ih (by omega) exp valid full

theorem fp128Normalise_spec (exp : ℤ) (valid : x.Valid) (nonzero : 0 < x.toNat) :
    ∃ k : ℕ, (fp128Normalise x exp).1.Valid ∧ (fp128Normalise x exp).1.toNat = x.toNat * 2 ^ k ∧
      (fp128Normalise x exp).2 = exp - k ∧ 2 ^ 127 ≤ x.toNat * 2 ^ k ∧ x.toNat * 2 ^ k < 2 ^ 128 := by
  have some : ¬(x.x0 = 0 ∧ x.x1 = 0) := fun zero => nonzero.ne' (x.toNat_eq_zero.mpr zero)
  have bounds : ∀ y : Wide, y.Valid → 2 ^ 63 ≤ y.x1 → 2 ^ 127 ≤ y.toNat ∧ y.toNat < 2 ^ 128 := fun y keeps top => by
    have below := keeps.toNat_lt
    refine ⟨?_, below⟩
    rw [Wide.toNat]
    omega
  rw [fp128Normalise, if_neg some]
  split
  next empty =>
    have moved : (⟨0, x.x0⟩ : Wide).Valid := ⟨Nat.two_pow_pos 64, valid.x0⟩
    obtain ⟨k, keeps, is, exponent, top⟩ := normaliseLoop128_spec 6 le_rfl (exp - 64) moved (by
      have : x.x0 ≠ 0 := fun zero => some ⟨zero, empty⟩
      dsimp only
      omega)
    have number : (⟨0, x.x0⟩ : Wide).toNat = x.toNat * 2 ^ 64 := by
      rw [Wide.toNat, Wide.toNat, empty]
      ring
    have within := bounds _ keeps top
    rw [is, number, mul_assoc, ← pow_add] at within
    refine ⟨64 + k, keeps, ?_, ?_, within⟩
    · rw [is, number, mul_assoc, ← pow_add]
    · rw [exponent]
      push_cast
      ring
  next full =>
    obtain ⟨k, keeps, is, exponent, top⟩ := normaliseLoop128_spec 6 le_rfl exp valid (Nat.pos_of_ne_zero full)
    have within := bounds _ keeps top
    rw [is] at within
    exact ⟨k, keeps, is, exponent, within⟩

end Emas.Gem5.Fplib

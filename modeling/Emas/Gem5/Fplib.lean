/-
**The floating-point library.**

`arch/arm/insts/fplib.cc` computes with the patterns of floating-point numbers as words of 16, 32 and 64 bits. Its
functions come three times over. `FPFormat` holds what differs: the widths, and the bits of the mode that a format looks
at. Words are `Nat`, and what may leave a word is cut to it.

* `unpack` and `pack` take a pattern apart and put one together, `normalise` shifts the leading one to the top.
* `decode` is what a pattern stands for.

A function that raises exceptions takes the flags and returns them beside its result.
-/

import Emas.Lib.Rounding

namespace Emas.Gem5.Fplib

/-! ### The mode and the flags -/

def FPLIB_RN : ℕ := 0
def FPLIB_RP : ℕ := 1
def FPLIB_RM : ℕ := 2
def FPLIB_RZ : ℕ := 3
def FPLIB_FZ : ℕ := 4
def FPLIB_DN : ℕ := 8
def FPLIB_AHP : ℕ := 16
def FPLIB_FZ16 : ℕ := 32

def FPLIB_IDC : ℕ := 128
def FPLIB_IXC : ℕ := 16
def FPLIB_UFC : ℕ := 8
def FPLIB_OFC : ℕ := 4
def FPLIB_DZC : ℕ := 2
def FPLIB_IOC : ℕ := 1

/-- Of `enum FPRounding`, the mode that `FPLIB_RN` to `FPLIB_RZ` do not have. -/
def FPRounding_ODD : ℕ := 5

def modeConv (fpscr : ℕ) : ℕ := (fpscr >>> 22 &&& 0xf) ||| if fpscr >>> 19 &&& 1 ≠ 0 then FPLIB_FZ16 else 0

/-- The rounding direction of a mode, its two lowest bits. -/
def rounding (mode : ℕ) : RoundingMode :=
  if mode &&& 3 = FPLIB_RN then .nearestEven
  else if mode &&& 3 = FPLIB_RP then .up
  else if mode &&& 3 = FPLIB_RM then .down
  else .zero

/-! ### Words -/

/-- `!!x`. -/
def flag (p : Prop) [Decidable p] : ℕ := if p then 1 else 0

/-- A difference in a word. -/
def sub (w x y : ℕ) : ℕ := (x + (2 ^ w - y)) % 2 ^ w

/-- A shift to the left in a word. -/
def shl (w x shift : ℕ) : ℕ := x <<< shift % 2 ^ w

def lsl (w x shift : ℕ) : ℕ := if shift < w then shl w x shift else 0

def lsr (w x shift : ℕ) : ℕ := if shift < w then x >>> shift else 0

/-- `x / y`; `none` where that is not defined. -/
def divide (x y : ℕ) : Option ℕ := if y = 0 then none else some (x / y)

/-! ### Two words of 64 bits -/

/-- A number of 128 bits: the lower word and the upper one. -/
structure Wide where
  x0 : ℕ
  x1 : ℕ
  deriving DecidableEq, Repr

def lsl128 (x : Wide) (shift : ℕ) : Wide :=
  if shift = 0 then x
  else if shift < 64 then ⟨shl 64 x.x0 shift, shl 64 x.x1 shift ||| x.x0 >>> (64 - shift)⟩
  else if shift < 128 then ⟨0, shl 64 x.x0 (shift - 64)⟩
  else ⟨0, 0⟩

def lsr128 (x : Wide) (shift : ℕ) : Wide :=
  if shift = 0 then x
  else if shift < 64 then ⟨x.x0 >>> shift ||| shl 64 x.x1 (64 - shift), x.x1 >>> shift⟩
  else if shift < 128 then ⟨x.x1 >>> (shift - 64), 0⟩
  else ⟨0, 0⟩

def mul62x62 (a b : ℕ) : Wide :=
  let mask := 1 <<< 31 - 1
  let a0 := a &&& mask
  let a1 := a >>> 31 &&& mask
  let b0 := b &&& mask
  let b1 := b >>> 31 &&& mask
  let p0 := a0 * b0 % 2 ^ 64
  let p2 := a1 * b1 % 2 ^ 64
  let p1 := sub 64 (sub 64 ((a0 + a1) * (b0 + b1) % 2 ^ 64) p0) p2
  let s0 := p0
  let s1 := (s0 >>> 31 + p1) % 2 ^ 64
  let s2 := (s1 >>> 31 + p2) % 2 ^ 64
  ⟨(s0 &&& mask) ||| shl 64 (s1 &&& mask) 31 ||| shl 64 s2 62, s2 >>> 2⟩

/-- The second factor is an argument of 32 bits. -/
def mul64x32 (a b : ℕ) : Wide :=
  let b := b % 2 ^ 32
  let t0 := a % 2 ^ 32 * b % 2 ^ 64
  let t1 := (t0 >>> 32 + (a >>> 32) * b) % 2 ^ 64
  ⟨shl 64 t1 32 ||| t0 % 2 ^ 32, t1 >>> 32⟩

def add128 (a b : Wide) : Wide :=
  let x0 := (a.x0 + b.x0) % 2 ^ 64
  ⟨x0, (a.x1 + b.x1 + flag (x0 < a.x0)) % 2 ^ 64⟩

def sub128 (a b : Wide) : Wide :=
  let x0 := sub 64 a.x0 b.x0
  ⟨x0, sub 64 (sub 64 a.x1 b.x1) (flag (x0 > a.x0))⟩

def cmp128 (a b : Wide) : ℤ :=
  if a.x1 < b.x1 then -1 else if a.x1 > b.x1 then 1 else if a.x0 < b.x0 then -1 else if a.x0 > b.x0 then 1 else 0

/-! ### Normalisation -/

/-- The loop over the shifts `2 ^ (levels - 1)` to `1` in a word of `w` bits. -/
def normaliseLoop (w : ℕ) : ℕ → ℕ → ℤ → ℕ × ℤ
  | 0, mnt, exp => (mnt, exp)
  | level + 1, mnt, exp =>
    if mnt >>> (w - 2 ^ level) = 0 then normaliseLoop w level (shl w mnt (2 ^ level)) (exp - (2 ^ level : ℕ))
    else normaliseLoop w level mnt exp

/-- The loop over the shifts of `fp128_normalise`. -/
def normaliseLoop128 : ℕ → Wide → ℤ → Wide × ℤ
  | 0, x, exp => (x, exp)
  | level + 1, x, exp =>
    let shift := 2 ^ level
    if x.x1 >>> (64 - shift) = 0 then
      normaliseLoop128 level ⟨shl 64 x.x0 shift, shl 64 x.x1 shift ||| x.x0 >>> (64 - shift)⟩ (exp - (shift : ℕ))
    else normaliseLoop128 level x exp

def fp128Normalise (x : Wide) (exp : ℤ) : Wide × ℤ :=
  if x.x0 = 0 ∧ x.x1 = 0 then (x, exp)
  else if x.x1 = 0 then normaliseLoop128 6 ⟨0, x.x0⟩ (exp - 64)
  else normaliseLoop128 6 x exp

/-! ### The formats -/

/-- The constants of a format, and the bits of the mode and the flags that its functions use. -/
structure FPFormat where
  bits : ℕ
  expBits : ℕ
  expBias : ℕ
  /-- The binary logarithm of `bits`, the turns of the loop of `normalise`. -/
  levels : ℕ
  /-- The bit of the mode that flushes to zero. -/
  flush : ℕ
  /-- The flag of an operand that is flushed to zero. -/
  denormal : ℕ
  /-- The bit of the mode for the format without infinities. -/
  alternative : ℕ
  bits_eq : bits = 2 ^ levels
  bias_eq : 2 * (expBias + 1) = 2 ^ expBits
  exp_pos : 5 ≤ expBits
  exp_le : 2 * expBits + 4 ≤ bits

/-- The half precision sets no flag for its operands. -/
def FP16 : FPFormat where
  bits := 16
  expBits := 5
  expBias := 15
  levels := 4
  flush := FPLIB_FZ16
  denormal := 0
  alternative := FPLIB_AHP
  bits_eq := by norm_num
  bias_eq := by norm_num
  exp_pos := by norm_num
  exp_le := by norm_num

def FP32 : FPFormat where
  bits := 32
  expBits := 8
  expBias := 127
  levels := 5
  flush := FPLIB_FZ
  denormal := FPLIB_IDC
  alternative := 0
  bits_eq := by norm_num
  bias_eq := by norm_num
  exp_pos := by norm_num
  exp_le := by norm_num

def FP64 : FPFormat where
  bits := 64
  expBits := 11
  expBias := 1023
  levels := 6
  flush := FPLIB_FZ
  denormal := FPLIB_IDC
  alternative := 0
  bits_eq := by norm_num
  bias_eq := by norm_num
  exp_pos := by norm_num
  exp_le := by norm_num

/-- A pattern taken apart. -/
structure Unpacked where
  sgn : Bool
  exp : ℤ
  mnt : ℕ
  deriving DecidableEq, Repr

namespace FPFormat

variable (fmt : FPFormat)

def expInf : ℕ := 1 <<< fmt.expBits - 1

def mantBits : ℕ := fmt.bits - fmt.expBits - 1

def exponent (x : ℕ) : ℕ := x >>> fmt.mantBits &&& (1 <<< fmt.expBits - 1)

def mantissa (x : ℕ) : ℕ := x &&& (1 <<< fmt.mantBits - 1)

def normalise (mnt : ℕ) (exp : ℤ) : ℕ × ℤ :=
  if mnt = 0 then (0, exp) else normaliseLoop fmt.bits fmt.levels mnt exp

/-- The normalisation in a word of twice the width. -/
def normaliseDouble (mnt : ℕ) (exp : ℤ) : ℕ × ℤ :=
  if mnt = 0 then (0, exp) else normaliseLoop (2 * fmt.bits) (fmt.levels + 1) mnt exp

def pack (sgn : Bool) (exp mnt : ℕ) : ℕ :=
  (sgn.toNat <<< (fmt.bits - 1) ||| exp <<< fmt.mantBits ||| fmt.mantissa mnt) % 2 ^ fmt.bits

def zero (sgn : Bool) : ℕ := fmt.pack sgn 0 0

def maxNormal (sgn : Bool) : ℕ := fmt.pack sgn (fmt.expInf - 1) (2 ^ fmt.bits - 1)

def infinity (sgn : Bool) : ℕ := fmt.pack sgn fmt.expInf 0

def defaultNaN : ℕ := fmt.pack false fmt.expInf (1 <<< (fmt.mantBits - 1))

def unpack (x mode flags : ℕ) : Unpacked × ℕ :=
  let sgn := decide (x >>> (fmt.bits - 1) ≠ 0)
  if fmt.exponent x ≠ 0 then (⟨sgn, fmt.exponent x, fmt.mantissa x ||| 1 <<< fmt.mantBits⟩, flags)
  else if mode &&& fmt.flush ≠ 0 ∧ fmt.mantissa x ≠ 0 then (⟨sgn, 1, 0⟩, flags ||| fmt.denormal)
  else (⟨sgn, 1, fmt.mantissa x⟩, flags)

/-! ### NaNs -/

def isNaN (exp : ℤ) (mnt : ℕ) : Bool := exp = fmt.expInf ∧ fmt.mantissa mnt ≠ 0

def isSignallingNaN (exp : ℤ) (mnt : ℕ) : Bool := fmt.isNaN exp mnt ∧ mnt >>> (fmt.mantBits - 1) &&& 1 = 0

def isQuietNaN (exp : ℤ) (mnt : ℕ) : Bool := exp = fmt.expInf ∧ mnt >>> (fmt.mantBits - 1) &&& 1 ≠ 0

def isInfinity (exp : ℤ) (mnt : ℕ) : Bool := exp = fmt.expInf ∧ fmt.mantissa mnt = 0

def processNaN (a mode flags : ℕ) : ℕ × ℕ :=
  let quiet := a >>> (fmt.mantBits - 1) &&& 1 ≠ 0
  let flags := if quiet then flags else flags ||| FPLIB_IOC
  let a := if quiet then a else a ||| 1 <<< (fmt.mantBits - 1)
  (if mode &&& FPLIB_DN ≠ 0 then fmt.defaultNaN else a, flags)

/-- The operands as they are written down, the signalling NaNs first. -/
def processAll (operands : List ℕ) (mode flags : ℕ) : ℕ × ℕ :=
  match operands.find? fun x => fmt.isSignallingNaN (fmt.exponent x) (fmt.mantissa x) with
  | some x => fmt.processNaN x mode flags
  | none =>
    match operands.find? fun x => fmt.isNaN (fmt.exponent x) (fmt.mantissa x) with
    | some x => fmt.processNaN x mode flags
    | none => (0, flags)

def processNaNs (a b mode flags : ℕ) : ℕ × ℕ := fmt.processAll [a, b] mode flags

def processNaNs3 (a b c mode flags : ℕ) : ℕ × ℕ := fmt.processAll [a, b, c] mode flags

/-! ### Rounding -/

/-- The mantissa of `round_` with its leading one, the bottom bits orred together. -/
def collapse (mnt : ℕ) : ℕ :=
  (4 <<< fmt.mantBits ||| mnt >>> (fmt.expBits - 1) ||| flag (mnt &&& (1 <<< fmt.expBits - 1) ≠ 0)) % 2 ^ fmt.bits

/-- `int_mant`, before it is rounded up. -/
def intMant (exp : ℤ) (mnt : ℕ) : ℕ := if exp > 0 then mnt >>> 2 else lsr fmt.bits mnt (3 - exp).toNat

/-- `error`, where 2 means that `int_mant` is wrong by exactly 0.5. -/
def error (exp : ℤ) (mnt : ℕ) : ℕ :=
  if exp > 0 then mnt &&& 3
  else lsr fmt.bits mnt (1 - exp).toNat &&& 3
    ||| flag (mnt &&& sub fmt.bits (lsl fmt.bits 1 (1 - exp).toNat) 1 ≠ 0)

/-- A mantissa is rounded up by a mode. -/
def roundsUp (rm : ℕ) (sgn : Bool) (intMant error : ℕ) : Bool :=
  (rm = FPLIB_RN ∧ (error = 3 ∨ (error = 2 ∧ intMant &&& 1 ≠ 0))) ∨
    (((rm = FPLIB_RP ∧ sgn = false) ∨ (rm = FPLIB_RM ∧ sgn = true)) ∧ error ≠ 0)

/-- `biased_exp` and `int_mant` after one is added to the mantissa. -/
def increment (biasedExp intMant : ℕ) : ℕ × ℕ :=
  let biasedExp := if intMant + 1 = 1 <<< fmt.mantBits then 1 else biasedExp
  if intMant + 1 = 2 <<< fmt.mantBits then (biasedExp + 1, (intMant + 1) >>> 1) else (biasedExp, intMant + 1)

/-- The overflow of `round_`, and the result without one. -/
def finish (sgn : Bool) (biasedExp intMant error rm mode flags : ℕ) : ℕ × ℕ :=
  if mode &&& fmt.alternative = 0 ∧ biasedExp ≥ fmt.expInf then
    (if rm = FPLIB_RN ∨ (rm = FPLIB_RP ∧ sgn = false) ∨ (rm = FPLIB_RM ∧ sgn = true) then fmt.infinity sgn
      else fmt.maxNormal sgn, flags ||| (FPLIB_OFC ||| FPLIB_IXC))
  else if mode &&& fmt.alternative ≠ 0 ∧ biasedExp ≥ fmt.expInf + 1 then
    (fmt.pack sgn fmt.expInf (2 ^ fmt.bits - 1), flags ||| FPLIB_IOC)
  else (fmt.pack sgn biasedExp intMant, if error ≠ 0 then flags ||| FPLIB_IXC else flags)

/-- `round_`, but for its assertion on `rm`, which holds of all that `round` passes. -/
def round_ (sgn : Bool) (exp : ℤ) (mnt rm mode flags : ℕ) : ℕ × ℕ :=
  if mode &&& fmt.flush ≠ 0 ∧ exp < 1 then (fmt.zero sgn, flags ||| FPLIB_UFC)
  else
    let mnt := fmt.collapse mnt
    let biasedExp := if exp > 0 then exp.toNat else 0
    let intMant := fmt.intMant exp mnt
    let error := fmt.error exp mnt
    let flags := if biasedExp = 0 ∧ error ≠ 0 then flags ||| FPLIB_UFC else flags
    let rounded := if roundsUp rm sgn intMant error then fmt.increment biasedExp intMant else (biasedExp, intMant)
    let intMant := if error ≠ 0 ∧ rm = FPRounding_ODD then rounded.2 ||| 1 else rounded.2
    fmt.finish sgn rounded.1 intMant error rm mode flags

def round (sgn : Bool) (exp : ℤ) (mnt mode flags : ℕ) : ℕ × ℕ := fmt.round_ sgn exp mnt (mode &&& 3) mode flags

end FPFormat

/-! ### The functions of the formats -/

abbrev fp16Unpack := FP16.unpack
abbrev fp32Unpack := FP32.unpack
abbrev fp64Unpack := FP64.unpack

abbrev fp16Normalise := FP16.normalise
abbrev fp32Normalise := FP32.normalise
abbrev fp64Normalise := FP64.normalise

abbrev fp64Zero := FP64.zero

abbrev fp16Round := FP16.round
abbrev fp32Round := FP32.round
abbrev fp64Round := FP64.round

end Emas.Gem5.Fplib

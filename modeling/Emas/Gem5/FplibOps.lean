/-
**The operations of the floating-point library.**

Addition, multiplication, both in one, division and square root of `arch/arm/insts/fplib.cc`. Of each, what comes
before the arithmetic is a function of its own: the NaNs, the infinities and the zeroes (`addSpecial`, `mulSpecial`,
`muladdSpecial`, `divSpecial`, `sqrtSpecial`). An addition is the same in all widths. The other arithmetic of 16 and 32
bits uses a word of twice the width and differs in the constants only (`mulFinite`, `muladdFinite`, `divFinite`), that of
64 bits uses two words.

The result is `none` where a divisor is zero.
-/

import Emas.Gem5.Fplib

namespace Emas.Gem5.Fplib

/-! ### Addition -/

/-- A shift to the right that orrs what it cuts off into the last bit. -/
def shiftRightJam (w x shift : ℕ) : ℕ := lsr w x shift ||| flag (x &&& sub w (lsl w 1 shift) 1 ≠ 0)

def shiftRightJam128 (x : Wide) (shift : ℕ) : Wide :=
  let t := lsl128 x (if shift < 128 then 128 - shift else 0)
  let x := lsr128 x shift
  ⟨x.x0 ||| flag (t.x0 ||| t.x1 ≠ 0), x.x1⟩

namespace FPFormat

variable (fmt : FPFormat)

/-- The NaNs, infinities and zeroes of `add`. -/
def addSpecial (a b : ℕ) (a' b' : Unpacked) (mode flags : ℕ) : Option (ℕ × ℕ) :=
  let x := fmt.processNaNs a b mode flags
  if x.1 ≠ 0 then some x
  else if a'.exp = fmt.expInf ∧ b'.exp = fmt.expInf ∧ a'.sgn ≠ b'.sgn then some (fmt.defaultNaN, x.2 ||| FPLIB_IOC)
  else if a'.exp = fmt.expInf then some (fmt.infinity a'.sgn, x.2)
  else if b'.exp = fmt.expInf then some (fmt.infinity b'.sgn, x.2)
  else if a'.mnt = 0 ∧ b'.mnt = 0 ∧ a'.sgn = b'.sgn then some (fmt.zero a'.sgn, x.2)
  else none

/-- The arithmetic of `add`, with three more bits. -/
def addFinite (a b : Unpacked) (mode flags : ℕ) : ℕ × ℕ :=
  let w := fmt.bits
  let aMnt := shl w a.mnt 3
  let bMnt := shl w b.mnt 3
  let exp := if a.exp ≥ b.exp then a.exp else b.exp
  let bMnt := if a.exp ≥ b.exp then shiftRightJam w bMnt (a.exp - b.exp).toNat else bMnt
  let aMnt := if a.exp ≥ b.exp then aMnt else shiftRightJam w aMnt (b.exp - a.exp).toNat
  let sgn := if a.sgn = b.sgn ∨ aMnt ≥ bMnt then a.sgn else !a.sgn
  let mnt :=
    if a.sgn = b.sgn then (aMnt + bMnt) % 2 ^ w
    else if aMnt ≥ bMnt then sub w aMnt bMnt
    else sub w bMnt aMnt
  -- Sign of exact zero result depends on rounding mode
  if mnt = 0 then (fmt.zero (mode &&& 3 = 2), flags)
  else
    let x := fmt.normalise mnt exp
    fmt.round sgn (x.2 + fmt.expBits - 3) (shl w x.1 1) mode flags

/-- A sum, and where `neg` a difference. -/
def add (a b : ℕ) (neg : Bool) (mode flags : ℕ) : ℕ × ℕ :=
  let a' := fmt.unpack a mode flags
  let b' := fmt.unpack b mode a'.2
  let b'' := { b'.1 with sgn := b'.1.sgn ^^ neg }
  match fmt.addSpecial a b a'.1 b'' mode b'.2 with
  | some result => result
  | none => fmt.addFinite a'.1 b'' mode b'.2

end FPFormat

def fp16Add := FP16.add

def fp32Add := FP32.add

def fp64Add := FP64.add

/-! ### Multiplication -/

namespace FPFormat

variable (fmt : FPFormat)

/-- The NaNs, infinities and zeroes of `mul`. -/
def mulSpecial (a b : ℕ) (a' b' : Unpacked) (mode flags : ℕ) : Option (ℕ × ℕ) :=
  let x := fmt.processNaNs a b mode flags
  if x.1 ≠ 0 then some x
  else if (a'.exp = fmt.expInf ∧ b'.mnt = 0) ∨ (b'.exp = fmt.expInf ∧ a'.mnt = 0) then
    some (fmt.defaultNaN, x.2 ||| FPLIB_IOC)
  else if a'.exp = fmt.expInf ∨ b'.exp = fmt.expInf then some (fmt.infinity (a'.sgn ^^ b'.sgn), x.2)
  else if a'.mnt = 0 ∨ b'.mnt = 0 then some (fmt.zero (a'.sgn ^^ b'.sgn), x.2)
  else none

/-- The arithmetic of `mul` in a word of twice the width. -/
def mulFinite (a b : Unpacked) (mode flags : ℕ) : ℕ × ℕ :=
  let w := 2 * fmt.bits
  let x := fmt.normaliseDouble (a.mnt * b.mnt % 2 ^ w) (a.exp + b.exp - fmt.expBias + 2 * fmt.expBits + 1)
  -- Convert to the bits of the format, collapsing error into bottom bit:
  let xMnt := lsr w x.1 (fmt.bits - 1) ||| flag (lsl w x.1 (fmt.bits + 1) ≠ 0)
  fmt.round (a.sgn ^^ b.sgn) x.2 (xMnt % 2 ^ fmt.bits) mode flags

def mul (a b mode flags : ℕ) : ℕ × ℕ :=
  let a' := fmt.unpack a mode flags
  let b' := fmt.unpack b mode a'.2
  match fmt.mulSpecial a b a'.1 b'.1 mode b'.2 with
  | some result => result
  | none => fmt.mulFinite a'.1 b'.1 mode b'.2

end FPFormat

def fp16Mul := FP16.mul

def fp32Mul := FP32.mul

/-- The arithmetic of `fp64_mul`. -/
def fp64MulFinite (a b : Unpacked) (mode flags : ℕ) : ℕ × ℕ :=
  let x := fp128Normalise (mul62x62 a.mnt b.mnt) (a.exp + b.exp - FP64.expBias + 2 * FP64.expBits + 1)
  -- Convert to FP64_BITS bits, collapsing error into bottom bit:
  fp64Round (a.sgn ^^ b.sgn) x.2 (shl 64 x.1.x1 1 ||| flag (x.1.x0 ≠ 0)) mode flags

def fp64Mul (a b mode flags : ℕ) : ℕ × ℕ :=
  let a' := fp64Unpack a mode flags
  let b' := fp64Unpack b mode a'.2
  match FP64.mulSpecial a b a'.1 b'.1 mode b'.2 with
  | some result => result
  | none => fp64MulFinite a'.1 b'.1 mode b'.2

/-! ### Multiplication and addition -/

namespace FPFormat

variable (fmt : FPFormat)

/-- The NaNs, infinities and zeroes of `muladd`. -/
def muladdSpecial (a b c : ℕ) (a' b' c' : Unpacked) (mode flags : ℕ) : Option (ℕ × ℕ) :=
  let x := fmt.processNaNs3 a b c mode flags
  -- Quiet NaN added to product of zero and infinity:
  let x :=
    if fmt.isQuietNaN a'.exp a'.mnt ∧
        ((b'.mnt = 0 ∧ fmt.isInfinity c'.exp c'.mnt) ∨ (c'.mnt = 0 ∧ fmt.isInfinity b'.exp b'.mnt)) then
      (fmt.defaultNaN, x.2 ||| FPLIB_IOC)
    else x
  if x.1 ≠ 0 then some x
  else if (b'.exp = fmt.expInf ∧ c'.mnt = 0) ∨ (c'.exp = fmt.expInf ∧ b'.mnt = 0) ∨
      (a'.exp = fmt.expInf ∧ (b'.exp = fmt.expInf ∨ c'.exp = fmt.expInf) ∧ a'.sgn ≠ (b'.sgn ^^ c'.sgn)) then
    some (fmt.defaultNaN, x.2 ||| FPLIB_IOC)
  else if a'.exp = fmt.expInf then some (fmt.infinity a'.sgn, x.2)
  else if b'.exp = fmt.expInf ∨ c'.exp = fmt.expInf then some (fmt.infinity (b'.sgn ^^ c'.sgn), x.2)
  else if a'.mnt = 0 ∧ (b'.mnt = 0 ∨ c'.mnt = 0) ∧ a'.sgn = (b'.sgn ^^ c'.sgn) then some (fmt.zero a'.sgn, x.2)
  else none

/-- The arithmetic of `muladd` in a word of twice the width. -/
def muladdFinite (a b c : Unpacked) (scale : ℤ) (mode flags : ℕ) : ℕ × ℕ :=
  let w := 2 * fmt.bits
  let xExp := a.exp + 2 * fmt.expBits - 3
  let xMnt := shl w a.mnt (fmt.mantBits + 4)
  -- Multiply:
  let ySgn := b.sgn ^^ c.sgn
  let yMnt := shl w (b.mnt * c.mnt % 2 ^ w) 3
  let yExp := if yMnt = 0 then xExp else b.exp + c.exp - fmt.expBias + 2 * fmt.expBits + 1 - 3
  -- Add:
  let exp := if xExp ≥ yExp then xExp else yExp
  let xMnt := if xExp ≥ yExp then xMnt else shiftRightJam w xMnt (yExp - xExp).toNat
  let yMnt := if xExp ≥ yExp then shiftRightJam w yMnt (xExp - yExp).toNat else yMnt
  let sgn := if a.sgn = ySgn ∨ xMnt ≥ yMnt then a.sgn else !a.sgn
  let mnt :=
    if a.sgn = ySgn then (xMnt + yMnt) % 2 ^ w
    else if xMnt ≥ yMnt then sub w xMnt yMnt
    else sub w yMnt xMnt
  -- Sign of exact zero result depends on rounding mode
  if mnt = 0 then (fmt.zero (mode &&& 3 = 2), flags)
  else
    let x := fmt.normaliseDouble mnt exp
    let xMnt := x.1 >>> (fmt.bits - 1) ||| flag (shl w x.1 1 % 2 ^ fmt.bits ≠ 0)
    fmt.round sgn (x.2 + scale) (xMnt % 2 ^ fmt.bits) mode flags

def muladd (a b c : ℕ) (scale : ℤ) (mode flags : ℕ) : ℕ × ℕ :=
  let a' := fmt.unpack a mode flags
  let b' := fmt.unpack b mode a'.2
  let c' := fmt.unpack c mode b'.2
  match fmt.muladdSpecial a b c a'.1 b'.1 c'.1 mode c'.2 with
  | some result => result
  | none => fmt.muladdFinite a'.1 b'.1 c'.1 scale mode c'.2

end FPFormat

def fp16Muladd := FP16.muladd

def fp32Muladd := FP32.muladd

/-- The arithmetic of `fp64_muladd`. -/
def fp64MuladdFinite (a b c : Unpacked) (scale : ℤ) (mode flags : ℕ) : ℕ × ℕ :=
  let xExp := a.exp + FP64.expBits
  let x : Wide := ⟨0, a.mnt⟩
  -- Multiply:
  let ySgn := b.sgn ^^ c.sgn
  let y := mul62x62 b.mnt (shl 64 c.mnt 3)
  let yExp := if y.x0 = 0 ∧ y.x1 = 0 then xExp else b.exp + c.exp - FP64.expBias + 2 * FP64.expBits + 1 - 3
  -- Add:
  let exp := if xExp ≥ yExp then xExp else yExp
  let x := if xExp ≥ yExp then x else shiftRightJam128 x (yExp - xExp).toNat
  let y := if xExp ≥ yExp then shiftRightJam128 y (xExp - yExp).toNat else y
  let sgn := if a.sgn = ySgn ∨ cmp128 x y ≥ 0 then a.sgn else !a.sgn
  let mnt := if a.sgn = ySgn then add128 x y else if cmp128 x y ≥ 0 then sub128 x y else sub128 y x
  -- Sign of exact zero result depends on rounding mode
  if mnt.x0 = 0 ∧ mnt.x1 = 0 then (fp64Zero (mode &&& 3 = 2), flags)
  else
    let x := fp128Normalise mnt exp
    fp64Round sgn (x.2 + scale) (shl 64 x.1.x1 1 ||| flag (x.1.x0 ≠ 0)) mode flags

def fp64Muladd (a b c : ℕ) (scale : ℤ) (mode flags : ℕ) : ℕ × ℕ :=
  let a' := fp64Unpack a mode flags
  let b' := fp64Unpack b mode a'.2
  let c' := fp64Unpack c mode b'.2
  match FP64.muladdSpecial a b c a'.1 b'.1 c'.1 mode c'.2 with
  | some result => result
  | none => fp64MuladdFinite a'.1 b'.1 c'.1 scale mode c'.2

/-! ### Division -/

namespace FPFormat

variable (fmt : FPFormat)

/-- The NaNs, infinities and zeroes of `div`. -/
def divSpecial (a b : ℕ) (a' b' : Unpacked) (mode flags : ℕ) : Option (ℕ × ℕ) :=
  let x := fmt.processNaNs a b mode flags
  if x.1 ≠ 0 then some x
  else if (a'.exp = fmt.expInf ∧ b'.exp = fmt.expInf) ∨ (a'.mnt = 0 ∧ b'.mnt = 0) then
    some (fmt.defaultNaN, x.2 ||| FPLIB_IOC)
  else if a'.exp = fmt.expInf ∨ b'.mnt = 0 then
    some (fmt.infinity (a'.sgn ^^ b'.sgn), if a'.exp ≠ fmt.expInf then x.2 ||| FPLIB_DZC else x.2)
  else if a'.mnt = 0 ∨ b'.exp = fmt.expInf then some (fmt.zero (a'.sgn ^^ b'.sgn), x.2)
  else none

/-- The arithmetic of `div` in a word of twice the width. -/
def divFinite (a b : Unpacked) (mode flags : ℕ) : Option (ℕ × ℕ) :=
  let w := 2 * fmt.bits
  let a' := fmt.normalise a.mnt a.exp
  let xExp := a'.2 - b.exp + (fmt.expBias + fmt.bits + 2 * fmt.expBits - 3)
  let dividend := shl w a'.1 (fmt.mantBits - fmt.expBits + 3)
  (divide dividend b.mnt).map fun quotient =>
    let x := fmt.normaliseDouble (quotient ||| flag (quotient * b.mnt % 2 ^ w ≠ dividend)) xExp
    let xMnt := x.1 >>> (fmt.bits - 1) ||| flag (shl w x.1 1 % 2 ^ fmt.bits ≠ 0)
    fmt.round (a.sgn ^^ b.sgn) x.2 (xMnt % 2 ^ fmt.bits) mode flags

def div (a b mode flags : ℕ) : Option (ℕ × ℕ) :=
  let a' := fmt.unpack a mode flags
  let b' := fmt.unpack b mode a'.2
  match fmt.divSpecial a b a'.1 b'.1 mode b'.2 with
  | some result => some result
  | none => fmt.divFinite a'.1 b'.1 mode b'.2

end FPFormat

def fp16Div := FP16.div

def fp32Div := FP32.div

/-- The reciprocal of the divisor with Newton-Raphson, and its product with the dividend. -/
def fp64Estimate (aMnt bMnt : ℕ) : Option ℕ :=
  (divide (2 ^ 64 - 1) (bMnt >>> 31)).map fun x =>
    let p := sub128 ⟨0, 1 <<< 32⟩ (mul64x32 bMnt x)
    let r := lsr128 (mul64x32 (lsr128 p 32).x0 x) 33
    (lsr128 (mul62x62 r.x0 (aMnt >>> 2)) 4).x1

/-- The arithmetic of `fp64_div`. -/
def fp64DivFinite (a b : Unpacked) (mode flags : ℕ) : Option (ℕ × ℕ) :=
  let a' := fp64Normalise a.mnt a.exp
  let b' := fp64Normalise b.mnt b.exp
  (fp64Estimate a'.1 b'.1).map fun xMnt =>
    -- This is an underestimate, so try adding one:
    let more := (xMnt + 1) % 2 ^ 64
    let c := cmp128 (mul62x62 (b'.1 >>> 2) more) ⟨0, a'.1 >>> 11⟩
    let x := fp64Normalise (if c ≤ 0 then more else xMnt) (a'.2 - b'.2 + FP64.expBias + 8)
    fp64Round (a.sgn ^^ b.sgn) x.2 (shl 64 x.1 1 ||| flag (c ≠ 0)) mode flags

def fp64Div (a b mode flags : ℕ) : Option (ℕ × ℕ) :=
  let a' := fp64Unpack a mode flags
  let b' := fp64Unpack b mode a'.2
  match FP64.divSpecial a b a'.1 b'.1 mode b'.2 with
  | some result => some result
  | none => fp64DivFinite a'.1 b'.1 mode b'.2

/-! ### Square root -/

/-- The NaNs, infinities and zeroes of `sqrt`. -/
def FPFormat.sqrtSpecial (fmt : FPFormat) (a : ℕ) (a' : Unpacked) (mode flags : ℕ) : Option (ℕ × ℕ) :=
  if fmt.isNaN a'.exp a'.mnt then some (fmt.processNaN a mode flags)
  else if a'.mnt = 0 then some (fmt.zero a'.sgn, flags)
  else if a'.exp = fmt.expInf ∧ a'.sgn = false then some (fmt.infinity a'.sgn, flags)
  else if a'.sgn then some (fmt.defaultNaN, flags ||| FPLIB_IOC)
  else none

/-- `x = (a / x + x) / 2` with a divisor of 17 bits. -/
def heronStep (a x : ℕ) : Option ℕ :=
  (divide a (x >>> 15)).map fun quotient => shl 32 ((quotient + x >>> 16) % 2 ^ 32) 15

/-- `x_mnt` after its correction, and whether the root is inexact. -/
def fp16Root (aMnt : ℕ) : Option (ℕ × Bool) := do
  -- x = (a * 3 + 5) / 8
  let x := (shl 32 aMnt 14 + shl 32 aMnt 13 + shl 32 5 28) % 2 ^ 32
  let x ← heronStep (shl 32 aMnt 16) x
  let x ← heronStep (shl 32 aMnt 16) x
  let xMnt := (sub 32 x (1 <<< 18) >>> 19 + 1) % 2 ^ 16
  let t1 := xMnt * xMnt % 2 ^ 32
  let t0 := shl 32 aMnt 9
  some (if t1 > t0 then sub 16 xMnt 1 else xMnt, t1 ≠ t0)

def fp16Sqrt (a mode flags : ℕ) : Option (ℕ × ℕ) :=
  let a' := fp16Unpack a mode flags
  match FP16.sqrtSpecial a a'.1 mode a'.2 with
  | some result => some result
  | none =>
    let n := fp16Normalise a'.1.mnt a'.1.exp
    let n := if n.2 % 2 = 1 then (n.1 >>> 1, n.2 + 1) else n
    (fp16Root n.1).map fun root =>
      let x := fp16Normalise root.1 ((n.2 + 27) >>> (1 : ℕ))
      fp16Round false x.2 (shl 16 x.1 1 ||| flag (root.2 = true)) mode a'.2

def fp32Root (aMnt : ℕ) : Option (ℕ × Bool) := do
  -- x = (a * 3 + 5) / 8
  let x := (aMnt >>> 2 + aMnt >>> 3 + shl 32 5 28) % 2 ^ 32
  let x ← heronStep aMnt x
  let x ← heronStep aMnt x
  let quotient ← divide (shl 64 aMnt 32) x
  let x := (quotient >>> 2 + x >>> 1) % 2 ^ 32
  let xMnt := (sub 32 x (1 <<< 5) >>> 6 + 1) % 2 ^ 32
  let t1 := xMnt * xMnt % 2 ^ 64
  let t0 := shl 64 aMnt 19
  some (if t1 > t0 then sub 32 xMnt 1 else xMnt, t1 ≠ t0)

/-- This width makes the exponent odd. -/
def fp32Sqrt (a mode flags : ℕ) : Option (ℕ × ℕ) :=
  let a' := fp32Unpack a mode flags
  match FP32.sqrtSpecial a a'.1 mode a'.2 with
  | some result => some result
  | none =>
    let n := fp32Normalise a'.1.mnt a'.1.exp
    let n := if n.2 % 2 = 0 then (n.1 >>> 1, n.2 + 1) else n
    (fp32Root n.1).map fun root =>
      let x := fp32Normalise root.1 ((n.2 + 147) >>> (1 : ℕ))
      fp32Round false x.2 (shl 32 x.1 1 ||| flag (root.2 = true)) mode a'.2

def fp64Root (aMnt : ℕ) : Option (ℕ × Bool) := do
  -- x = (a * 3 + 5) / 8
  let x := (aMnt >>> 34 + aMnt >>> 35 + shl 32 5 28) % 2 ^ 32
  let x ← heronStep (aMnt >>> 32) x
  let x ← heronStep (aMnt >>> 32) x
  let quotient ← divide aMnt x
  let x := (quotient >>> 2 + x >>> 1) % 2 ^ 32
  -- r = 1 / x
  let r ← divide (1 <<< 62) x
  -- r = r * (2 - x * r)
  let r' := lsr128 (mul64x32 (shl 64 (sub 64 0 x * r % 2 ^ 64) 1) r) 31
  -- x = (x + a * r) / 2
  let p := lsr128 (lsl128 (mul62x62 (aMnt >>> 10) (r'.x0 >>> 2)) 5) 56
  let xMnt := (shl 64 x 31 + p.x0 >>> 1) % 2 ^ 64
  let xMnt := (sub 64 xMnt (1 <<< 8) >>> 9 + 1) % 2 ^ 64
  let c := cmp128 (lsl128 (mul62x62 xMnt xMnt) 19) ⟨0, aMnt⟩
  some (if c > 0 then sub 64 xMnt 1 else xMnt, c ≠ 0)

def fp64Sqrt (a mode flags : ℕ) : Option (ℕ × ℕ) :=
  let a' := fp64Unpack a mode flags
  match FP64.sqrtSpecial a a'.1 mode a'.2 with
  | some result => some result
  | none =>
    let n := fp64Normalise a'.1.mnt a'.1.exp
    let n := if n.2 % 2 = 1 then (n.1 >>> 1, n.2 + 1) else n
    (fp64Root n.1).map fun root =>
      let x := fp64Normalise root.1 ((n.2 + 1053) >>> (1 : ℕ))
      fp64Round false x.2 (shl 64 x.1 1 ||| flag (root.2 = true)) mode a'.2

/-! ### The widths -/

/-- The words that `fplibAdd` to `fplibSqrt` are instantiated for. -/
inductive Width where
  | half | single | double
  deriving DecidableEq, Repr

namespace Width

/-- The format of that width. -/
def format : Width → FPFormat
  | .half => FP16
  | .single => FP32
  | .double => FP64

def add : Width → ℕ → ℕ → Bool → ℕ → ℕ → ℕ × ℕ
  | .half => fp16Add
  | .single => fp32Add
  | .double => fp64Add

def mul : Width → ℕ → ℕ → ℕ → ℕ → ℕ × ℕ
  | .half => fp16Mul
  | .single => fp32Mul
  | .double => fp64Mul

def muladd : Width → ℕ → ℕ → ℕ → ℤ → ℕ → ℕ → ℕ × ℕ
  | .half => fp16Muladd
  | .single => fp32Muladd
  | .double => fp64Muladd

def div : Width → ℕ → ℕ → ℕ → ℕ → Option (ℕ × ℕ)
  | .half => fp16Div
  | .single => fp32Div
  | .double => fp64Div

def sqrt : Width → ℕ → ℕ → ℕ → Option (ℕ × ℕ)
  | .half => fp16Sqrt
  | .single => fp32Sqrt
  | .double => fp64Sqrt

end Width

end Emas.Gem5.Fplib

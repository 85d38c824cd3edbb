/-
**The conversions of the floating-point library.**

`arch/arm/insts/fplib.cc` converts to integers with `fbits` bits behind the point (`FPToFixed_64`, `fplibFPToFixed`), to
integral values of the same format (`fplibRoundInt`), and from integers (`fp16_cvtf`, `fplibFixedToFP`).
The templates come once for each pair of types; what differs is an argument of one definition here.

The rounding is an argument of its own. A switch over it panics where it is none of the five that round (`none`). The
number of bits behind the point is a `Nat`, as `fplibFPToFixed` asserts.
-/

import Emas.Gem5.FplibOps

namespace Emas.Gem5.Fplib

/-! ### The rounding and the status -/

/-- `enum FPRounding`. -/
inductive FPRounding where
  | TIEEVEN | POSINF | NEGINF | ZERO | TIEAWAY | ODD
  deriving DecidableEq, Repr

namespace FPRounding

def toNat : FPRounding → ℕ
  | TIEEVEN => 0
  | POSINF => 1
  | NEGINF => 2
  | ZERO => 3
  | TIEAWAY => 4
  | ODD => FPRounding_ODD

/-- What `switch (rounding)` adds to an integer part. -/
def increment (rounding : FPRounding) (sgn : Bool) (x err : ℕ) : Option ℕ :=
  match rounding with
  | TIEEVEN => some (flag (err = 3 ∨ (err = 2 ∧ x &&& 1 ≠ 0)))
  | POSINF => some (flag (err ≠ 0 ∧ sgn = false))
  | NEGINF => some (flag (err ≠ 0 ∧ sgn = true))
  | ZERO => some 0
  | TIEAWAY => some (err >>> 1)
  | ODD => none

end FPRounding

def setFpscr0 (fpscr flags : ℕ) : ℕ :=
  let fpscr := if flags &&& FPLIB_IDC ≠ 0 then fpscr ||| 1 <<< 7 else fpscr
  let fpscr := if flags &&& FPLIB_IOC ≠ 0 then fpscr ||| 1 <<< 0 else fpscr
  let fpscr := if flags &&& FPLIB_DZC ≠ 0 then fpscr ||| 1 <<< 1 else fpscr
  let fpscr := if flags &&& FPLIB_OFC ≠ 0 then fpscr ||| 1 <<< 2 else fpscr
  let fpscr := if flags &&& FPLIB_UFC ≠ 0 then fpscr ||| 1 <<< 3 else fpscr
  if flags &&& FPLIB_IXC ≠ 0 then fpscr ||| 1 <<< 4 else fpscr

/-! ### To fixed point -/

/-- `((uint64_t)!u << (FP64_BITS - 1)) - !sgn`, and the same in the other widths. -/
def saturation (w : ℕ) (sgn u : Bool) : ℕ := sub w (shl w (!u).toNat (w - 1)) (!sgn).toNat

/-- `FPToFixed_64`, of a mantissa and an exponent as a double has them. -/
def fpToFixed64 (sgn : Bool) (exp : ℤ) (mnt : ℕ) (u : Bool) (rounding : FPRounding) (flags : ℕ) : Option (ℕ × ℕ) :=
  let expmax : ℤ := FP64.expBias + FP64.bits - 1
  if exp > expmax then some (saturation 64 sgn u, FPLIB_IOC)
  else
    let top := shl 64 mnt FP64.expBits
    let x := lsr 64 top (expmax - exp).toNat
    let err :=
      if exp > expmax - 2 then 0
      else lsr 64 top (expmax - 2 - exp).toNat &&& 3
        ||| flag (top &&& sub 64 (lsl 64 1 (expmax - 2 - exp).toNat) 1 ≠ 0)
    (rounding.increment sgn x err).map fun up =>
      let x := (x + up) % 2 ^ 64
      if if u then sgn ∧ x ≠ 0 else x > 1 <<< (FP64.bits - 1) - (!sgn).toNat then (saturation 64 sgn u, FPLIB_IOC)
      else (if sgn then sub 64 0 x else x, if err ≠ 0 then FPLIB_IXC else flags)

/-- `FPToFixed_32` and `FPToFixed_16`. -/
def fpToFixedNarrow (w : ℕ) (sgn : Bool) (exp : ℤ) (mnt : ℕ) (u : Bool) (rounding : FPRounding) (flags : ℕ) :
    Option (ℕ × ℕ) :=
  (fpToFixed64 sgn exp mnt u rounding flags).map fun (x, flags) =>
    if if u then x ≥ 1 <<< w else ¬(x < 1 <<< (w - 1) ∨ sub 64 0 x ≤ 1 <<< (w - 1)) then (saturation w sgn u, FPLIB_IOC)
    else (x % 2 ^ w, flags)

def fpToFixed32 := fpToFixedNarrow 32

def fpToFixed16 := fpToFixedNarrow 16

/-- `fplibFPToFixed` of a format, with the function that converts and the exponent that infinity gets. -/
def FPFormat.toFixed (fmt : FPFormat) (convert : Bool → ℤ → ℕ → Bool → FPRounding → ℕ → Option (ℕ × ℕ)) (infExp : ℕ)
    (op fbits : ℕ) (u : Bool) (rounding : FPRounding) (fpscr : ℕ) : Option (ℕ × ℕ) :=
  let (x, flags) := fmt.unpack op (modeConv fpscr) 0
  let result :=
    -- If NaN, set cumulative flag or take exception:
    if fmt.isNaN x.exp x.mnt then some (0, FPLIB_IOC)
    else
      let exp : ℤ := if x.exp = fmt.expInf then infExp else x.exp
      convert x.sgn (exp + FP64.expBias - fmt.expBias + fbits) (shl 64 x.mnt (FP64.mantBits - fmt.mantBits)) u rounding
        flags
  result.map fun (x, flags) => (x, setFpscr0 fpscr flags)

/-- Infinity is treated as an ordinary normalised number that saturates. -/
def fplibFPToFixed16From16 := FP16.toFixed fpToFixed16 FP16.expInf

/-- Infinity is made big enough to saturate. -/
def fplibFPToFixed32From16 := FP16.toFixed fpToFixed32 255

def fplibFPToFixed64From16 := FP16.toFixed fpToFixed64 255

def fplibFPToFixed32From32 := FP32.toFixed fpToFixed32 FP32.expInf

def fplibFPToFixed64From32 := FP32.toFixed fpToFixed64 FP32.expInf

def fplibFPToFixed32From64 := FP64.toFixed fpToFixed32 FP64.expInf

def fplibFPToFixed64From64 := FP64.toFixed fpToFixed64 FP64.expInf

/-! ### To integral values -/

namespace FPFormat

variable (fmt : FPFormat)

/-- The exponent of a format without fractional bits. -/
def expint : ℤ := fmt.expBias + fmt.mantBits

/-- The arithmetic of `fplibRoundInt`. -/
def roundIntFinite (x : Unpacked) (rounding : FPRounding) (exact : Bool) (flags : ℕ) : Option (ℕ × ℕ) :=
  let shift := (fmt.expint - x.exp).toNat
  -- Truncate towards zero:
  let whole := if shift ≥ fmt.bits then 0 else x.mnt >>> shift
  let err :=
    if x.exp < fmt.expint - fmt.bits then 1
    else (x.mnt <<< 1 >>> (shift - 1) &&& 3) ||| flag (shl fmt.bits (x.mnt <<< 2) (fmt.bits - shift) ≠ 0)
  (rounding.increment x.sgn whole err).map fun up =>
    let whole := (whole + up) % 2 ^ fmt.bits
    let result :=
      if whole = 0 then fmt.zero x.sgn
      else
        let n := fmt.normalise whole fmt.expint
        fmt.pack x.sgn (n.2 + fmt.expBits).toNat (n.1 >>> fmt.expBits)
    (result, if err ≠ 0 ∧ exact then flags ||| FPLIB_IXC else flags)

/-- `fplibRoundInt`. -/
def roundInt (op : ℕ) (rounding : FPRounding) (exact : Bool) (fpscr : ℕ) : Option (ℕ × ℕ) :=
  let mode := modeConv fpscr
  let (x, flags) := fmt.unpack op mode 0
  let result :=
    -- Handle NaNs, infinities and zeroes:
    if fmt.isNaN x.exp x.mnt then some (fmt.processNaN op mode flags)
    else if x.exp = fmt.expInf then some (fmt.infinity x.sgn, flags)
    else if x.mnt = 0 then some (fmt.zero x.sgn, flags)
    -- There are no fractional bits
    else if x.exp ≥ fmt.expint then some (op, flags)
    else fmt.roundIntFinite x rounding exact flags
  result.map fun (x, flags) => (x, setFpscr0 fpscr flags)

end FPFormat

def fplibRoundInt16 := FP16.roundInt

def fplibRoundInt32 := FP32.roundInt

def fplibRoundInt64 := FP64.roundInt

/-! ### From fixed point -/

namespace FPFormat

variable (fmt : FPFormat)

/-- `cvtf` of a format, with what makes the digits for `round` from a normalised mantissa of 64 bits. -/
def cvtf (digits : ℕ → ℕ) (a fbits : ℕ) (u : Bool) (mode flags : ℕ) : ℕ × ℕ :=
  let sgn := decide (u = false ∧ a >>> (FP64.bits - 1) ≠ 0)
  let exp : ℤ := fmt.expBias + FP64.bits - 1 - fbits
  let mnt := if sgn then sub 64 0 a else a
  -- Handle zero:
  if mnt = 0 then (fmt.zero false, flags)
  else
    let x := fp64Normalise mnt exp
    fmt.round sgn x.2 (digits x.1) mode flags

/-- Normalise into the bits of the format, collapsing error into bottom bit. -/
def cvtfDigits (mnt : ℕ) : ℕ :=
  (mnt >>> (FP64.bits - fmt.bits - 1) ||| flag (mnt &&& (1 <<< (FP64.bits - fmt.bits - 1) - 1) ≠ 0)) % 2 ^ fmt.bits

end FPFormat

def fp16Cvtf := FP16.cvtf FP16.cvtfDigits

def fp32Cvtf := FP32.cvtf FP32.cvtfDigits

def fp64Cvtf := FP64.cvtf fun mnt => shl 64 mnt 1

/-- `fplibFixedToFP`. -/
def fixedToFP (cvtf : ℕ → ℕ → Bool → ℕ → ℕ → ℕ × ℕ) (op fbits : ℕ) (u : Bool) (rounding : FPRounding) (fpscr : ℕ) :
    ℕ × ℕ :=
  let (res, flags) := cvtf op fbits u (rounding.toNat ||| (fpscr >>> 22 &&& 12)) 0
  (res, setFpscr0 fpscr flags)

def fplibFixedToFP16 := fixedToFP fp16Cvtf

def fplibFixedToFP32 := fixedToFP fp32Cvtf

def fplibFixedToFP64 := fixedToFP fp64Cvtf

end Emas.Gem5.Fplib

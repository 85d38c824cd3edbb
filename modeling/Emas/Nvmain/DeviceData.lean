/-
**Ranks, banks and subarrays: their data.**

The commands that the memory controller sends down, as `StandardRank`, `DDR3Bank` and `SubArray` see them:
the type, the translated address below the channel, and the number of bursts. Cycles are `Nat`: a 64-bit
cycle count does not come to its end in a run. A difference of cycles may still go below zero, and wraps
there (`minusCycles`).
-/

import Mathlib.Algebra.Group.Nat.Defs

namespace Emas.Nvmain

/-- `enum OpType`. -/
inductive DeviceOp where
  | nop
  | activate
  | read
  | readPrecharge
  | write
  | writePrecharge
  | precharge
  | prechargeAll
  | powerdownPda
  | powerdownPdpf
  | powerdownPdps
  | powerup
  | refresh
  | busRead
  | busWrite
  | cachedRead
  | cachedWrite
  deriving DecidableEq, Repr

/-- `class NVMainRequest`, below the controller. -/
structure DeviceRequest where
  type : DeviceOp
  row : Nat
  col : Nat
  bank : Nat
  subarray : Nat
  burstCount : Nat
  deriving DecidableEq, Repr

/-- `a - b` of unsigned 64-bit cycles. -/
def minusCycles (a b : Nat) : Nat := if b ≤ a then a - b else a + 2 ^ 64 - b

end Emas.Nvmain

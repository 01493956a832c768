import Mathlib.Data.Nat.Bitwise
import StartKernel.Comm.Types
import StartKernel.Lib.ByteMem

/-!
# `StartKernel.Tools.Klib`: the parts of `tools/klib.h` and `klib.c` that memory uses

Alignment of 32-bit numbers, and the two loops over bytes. The kernel runs on its identity
map, so a kernel pointer is a physical address. The source of a copy may be a user address:
`kernelMemcpy` takes the reader as a parameter.

* `up2_page`, `down2_page`: alignment to 4096 as arithmetic.
-/

set_option autoImplicit false

namespace StartKernel

open ByteMem (Mem fill copyFrom)

/-- `~x` of a `uint32_t`. -/
def not32 (x : Nat) : Nat := 2 ^ 32 - 1 - x

/-- `down2`: round down to a multiple of a power of two. -/
def down2 (size bound : Nat) : Nat := size &&& not32 (toU32 (bound - 1))

/-- `up2`: round up to a multiple of a power of two. The addition wraps around. -/
def up2 (size bound : Nat) : Nat := toU32 (size + bound - 1) &&& not32 (toU32 (bound - 1))

/-- `kernel_memset`. -/
def kernelMemset (m : Mem) (dest : Nat) (v : BitVec 8) (size : Nat) : Mem :=
  if dest = 0 ∨ size = 0 then m else fill m dest v size

/-- `kernel_memcpy`. Nothing, when reading the source faults. -/
def kernelMemcpy (read : Mem → Nat → Option (BitVec 8)) (m : Mem) (dest src size : Nat) :
    Option Mem :=
  if dest = 0 ∨ src = 0 ∨ size = 0 then some m else copyFrom read m dest src size

/-- Masking the low twelve bits of a 32-bit number. -/
theorem and_not32_4095 {x : Nat} (hx : x < 2 ^ 32) : x &&& not32 4095 = x / 4096 * 4096 := by
  have hmask : not32 4095 = (2 ^ 20 - 1) * 2 ^ 12 := by decide
  have hmul : x / 4096 * 4096 = (x / 2 ^ 12) * 2 ^ 12 := by norm_num
  rw [hmask, hmul, ← Nat.shiftLeft_eq, ← Nat.shiftLeft_eq]
  apply Nat.eq_of_testBit_eq
  intro i
  rw [Nat.testBit_and, Nat.testBit_shiftLeft, Nat.testBit_shiftLeft, Nat.testBit_div_two_pow,
    Nat.testBit_two_pow_sub_one]
  by_cases hi : 12 ≤ i
  · have hadd : i - 12 + 12 = i := Nat.sub_add_cancel hi
    by_cases hlt : i - 12 < 20
    · simp [hi, hlt, hadd]
    · have hbit : x.testBit i = false :=
        Nat.testBit_lt_two_pow (lt_of_lt_of_le hx (Nat.pow_le_pow_right (by omega) (by omega)))
      simp [hi, hlt, hbit]
  · simp [hi]

theorem down2_page {x : Nat} (hx : x < 2 ^ 32) : down2 x 4096 = x / 4096 * 4096 :=
  and_not32_4095 hx

theorem up2_page {x : Nat} (hx : x + 4095 < 2 ^ 32) : up2 x 4096 = (x + 4095) / 4096 * 4096 := by
  have hsum : toU32 (x + (4096 : Nat) - 1) = x + 4095 := by
    rw [toU32_of_fits (by omega) (by omega)]
    omega
  unfold up2
  rw [hsum]
  exact and_not32_4095 hx

end StartKernel

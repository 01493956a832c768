import Mathlib.Data.Int.Basic
import Mathlib.Tactic.NormNum

/-!
# `StartKernel.Comm.Types`: the C integers of the kernel

The kernel is built for `i386`: `uint32_t` is a natural number below `2^32` and `int` an
integer in `[-2^31, 2^31)`. `toU32` and `toInt` are the conversions to the two types. They
also give the wrap-around of an operation, which the build (`-O0`) has for both types.
-/

set_option autoImplicit false

namespace StartKernel

/-- Conversion to `uint32_t`. -/
def toU32 (x : Int) : Nat := (x % 2 ^ 32).toNat

/-- Conversion to `int`. -/
def toInt (x : Int) : Int := Int.bmod x (2 ^ 32)

/-- An integer that fits is its own `int`. -/
theorem toInt_of_fits {x : Int} (h₁ : -2 ^ 31 ≤ x) (h₂ : x < 2 ^ 31) : toInt x = x := by
  unfold toInt
  rw [Int.bmod_eq_of_le]
  · norm_num
    omega
  · norm_num
    omega

/-- One step down of a positive `int`. -/
theorem toInt_pred {n : Nat} (h : n + 1 < 2 ^ 31) : toInt (((n + 1 : Nat) : Int) - 1) = n := by
  rw [toInt_of_fits (by omega) (by omega)]
  omega

/-- A number in the upper half of the 32-bit range is negative as an `int`. -/
theorem toInt_of_wraps {x : Int} (h₁ : 2 ^ 31 ≤ x) (h₂ : x < 2 ^ 32) : toInt x = x - 2 ^ 32 := by
  unfold toInt Int.bmod
  have hmod : x % ((2 ^ 32 : Nat) : Int) = x := Int.emod_eq_of_lt (by omega) (by norm_num; omega)
  rw [hmod, if_neg (by norm_num; omega)]
  norm_num

/-- A natural number below `2^32` is its own `uint32_t`. -/
theorem toU32_of_fits {x : Int} (h₁ : 0 ≤ x) (h₂ : x < 2 ^ 32) : toU32 x = x.toNat := by
  unfold toU32
  rw [Int.emod_eq_of_lt h₁ h₂]

theorem toU32_natCast {n : Nat} (h : n < 2 ^ 32) : toU32 n = n := by
  rw [toU32_of_fits (by omega) (by omega)]
  exact Int.toNat_natCast n

/-- One step down of a positive `uint32_t`. -/
theorem toU32_pred {n : Nat} (h : n < 2 ^ 32) : toU32 (((n + 1 : Nat) : Int) - 1) = n := by
  rw [show ((n + 1 : Nat) : Int) - 1 = n by omega, toU32_natCast h]

/-- An `int` is added as a 32-bit number. -/
theorem toU32_add_toInt (x y : Int) : toU32 (x + toInt y) = toU32 (x + y) := by
  have hmod : toInt y % 2 ^ 32 = y % 2 ^ 32 := Int.bmod_emod
  unfold toU32
  rw [Int.add_emod, hmod, ← Int.add_emod]

/-- The two conversions, one after the other. -/
theorem toU32_toInt (x : Int) : toU32 (toInt x) = toU32 x := by
  have h := toU32_add_toInt 0 x
  rwa [Int.zero_add, Int.zero_add] at h

theorem toInt_toU32 (x : Int) : toInt (toU32 x) = toInt x := by
  have hcast : ((toU32 x : Nat) : Int) = x % ((2 ^ 32 : Nat) : Int) := by
    unfold toU32
    norm_num
    omega
  unfold toInt
  rw [hcast, Int.emod_bmod]

/-- A `uint32_t` is below `2^32`. -/
theorem toU32_lt (x : Int) : toU32 x < 2 ^ 32 := by
  unfold toU32
  omega

end StartKernel

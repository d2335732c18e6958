/-
  File:      Cse303/Lib/CInt.lean
  Subject:   THE MACHINE INTEGERS OF A 64-BIT C PLATFORM, over `Int`.

  `int` and `unsigned` have 32 bits and `size_t` has 64. A value is an `Int` (a `Nat` where it is
  unsigned); a conversion or an addition that leaves the range wraps, and `toInt`, `toUnsigned`,
  `toSize` say to what. The lemmas are the two an arithmetic proof needs of each: the conversion of
  a value in range is the value, and of a value out of range it is another one.
-/
import Mathlib.Data.Int.Basic
import Mathlib.Tactic.Common

namespace CInt

/-- What an `int` holds after `x` was stored into it. -/
@[irreducible] def toInt (x : Int) : Int := (x + 2147483648) % 4294967296 - 2147483648

/-- What an `unsigned` holds after `x` was stored into it. -/
@[irreducible] def toUnsigned (x : Int) : Nat := (x % 4294967296).toNat

/-- What a `size_t` holds after `x` was stored into it. -/
@[irreducible] def toSize (x : Int) : Nat := (x % 18446744073709551616).toNat

/-! ## 1. `int` -/

theorem le_toInt (x : Int) : -2147483648 ≤ toInt x := by
  unfold toInt
  omega

theorem toInt_lt (x : Int) : toInt x < 2147483648 := by
  unfold toInt
  omega

/-- A value in the range of `int` is stored as itself. -/
theorem toInt_of_range {x : Int} (h : -2147483648 ≤ x) (h' : x < 2147483648) : toInt x = x := by
  unfold toInt
  omega

/-- The values an `int` stores as themselves are those in its range. -/
theorem toInt_eq_self {x : Int} : toInt x = x ↔ -2147483648 ≤ x ∧ x < 2147483648 := by
  unfold toInt
  omega

@[simp] theorem toInt_zero : toInt 0 = 0 := toInt_of_range (by omega) (by omega)

@[simp] theorem toInt_neg_one : toInt (-1) = -1 := toInt_of_range (by omega) (by omega)

/-- Wrapping an operand first does not change a wrapped difference. -/
theorem toInt_toInt_sub (x y : Int) : toInt (toInt x - y) = toInt (x - y) := by
  unfold toInt
  omega

/-- Storing a length of 32 bits gives zero only for zero. -/
theorem toInt_ne_zero {n : Nat} (h : 0 < n) (h' : n < 4294967296) : toInt n ≠ 0 := by
  unfold toInt
  omega

/-! ## 2. `unsigned` -/

/-- The counts an `unsigned` stores as themselves are those of 32 bits. -/
theorem toUnsigned_eq_self {n : Nat} : toUnsigned n = n ↔ n < 4294967296 := by
  unfold toUnsigned
  omega

/-- A count never becomes a larger one. -/
theorem toUnsigned_le (n : Nat) : toUnsigned n ≤ n := by
  unfold toUnsigned
  omega

/-! ## 3. `size_t` -/

/-- A value in the range of `size_t` is stored as itself. -/
theorem toSize_of_range {x : Int} (h : 0 ≤ x) (h' : x < 18446744073709551616) :
    (toSize x : Int) = x := by
  unfold toSize
  omega

@[simp] theorem toSize_natCast {n : Nat} (h : n < 18446744073709551616) : toSize n = n := by
  unfold toSize
  omega

/-- A negative `int` becomes a count near the top of `size_t`. -/
theorem toSize_of_neg {x : Int} (h : -18446744073709551616 ≤ x) (h' : x < 0) :
    (toSize x : Int) = x + 18446744073709551616 := by
  unfold toSize
  omega

/-- A non-zero `int` asks for at least one byte. -/
theorem toSize_toInt_pos {x : Int} (h : toInt x ≠ 0) : 0 < toSize (toInt x) := by
  have h1 := le_toInt x
  have h2 := toInt_lt x
  unfold toSize
  omega

end CInt

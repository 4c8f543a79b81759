import BufferSim.Cxx.Text
import BufferSim.Numeric.Rounding
import Mathlib.Data.Rat.Floor

/-!
# Doubles

A finite `double` is modelled by the rational number that it stands for.  The
operations round to 53 binary digits, as IEEE 754 prescribes for `binary64` in
the default rounding mode.  The operands of this program are values of type
`int` and their quotients, which neither overflow nor become subnormal.
-/

namespace Cxx

open Numeric

/-- `static_cast<double>` of an `int`. -/
def doubleOfInt (n : Int) : ℚ :=
  roundBinary 53 (n : ℚ)

/-- `operator/` on doubles with a divisor other than zero. -/
def divDouble (x y : ℚ) : ℚ :=
  roundBinary 53 (x / y)

namespace Text

/-- The decimal number nearest to `x`, in units of its last place. -/
def fixedUnits (precision : ℕ) (x : ℚ) : ℕ :=
  (roundEven (10 ^ precision * |x|)).toNat

/-- `operator<<` on a double after `std::fixed` and `std::setprecision`, for at
least one decimal. -/
def ofFixed (precision : ℕ) (x : ℚ) : Text :=
  (if x < 0 then ['-'] else []) ++
    Nat.toDigits 10 (fixedUnits precision x / 10 ^ precision) ++
    '.' :: (Nat.toDigits 10 (fixedUnits precision x % 10 ^ precision)).leftpad
      precision '0'

theorem fixedUnits_eq (precision : ℕ) (x : ℚ) :
    (fixedUnits precision x : Int) = roundEven (10 ^ precision * |x|) :=
  Int.toNat_of_nonneg (roundEven_nonneg (by positivity))

end Text

/-- An `int` is a double. -/
theorem doubleOfInt_eq {n : Int} (hn : |n| < 2 ^ 53) :
    doubleOfInt n = n :=
  roundBinary_intCast hn

theorem divDouble_doubleOfInt {n d : Int} (hn : |n| < 2 ^ 53)
    (hd : |d| < 2 ^ 53) :
    divDouble (doubleOfInt n) (doubleOfInt d) =
      roundBinary 53 ((n : ℚ) / d) := by
  rw [divDouble, doubleOfInt_eq hn, doubleOfInt_eq hd]

/-- `std::ceil` of a quotient of integers is the exact one. -/
theorem ceil_divDouble {n d : Int} (hpos : 0 < d) (hn : |n| < 2 ^ 53)
    (hd : |d| < 2 ^ 53) :
    ⌈divDouble (doubleOfInt n) (doubleOfInt d)⌉ = ⌈(n : ℚ) / d⌉ := by
  rw [divDouble_doubleOfInt hn hd, ceil_roundBinary_div hpos hn]

/-- The quotient of two counts, and its distance from the exact one. -/
theorem abs_divDouble_sub_le {n d : Int} (hn : |n| < 2 ^ 53)
    (hd : |d| < 2 ^ 53) :
    |divDouble (doubleOfInt n) (doubleOfInt d) - n / d| ≤
      |(n : ℚ) / d| / 2 ^ 53 := by
  rw [divDouble_doubleOfInt hn hd]
  exact abs_roundBinary_sub_le 53 _

end Cxx

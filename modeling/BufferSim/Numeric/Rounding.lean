import Mathlib.Algebra.Order.Round
import Mathlib.Data.Int.Log
import Mathlib.Tactic.FieldSimp
import Mathlib.Tactic.Linarith
import Mathlib.Tactic.Positivity
import Mathlib.Tactic.Ring

/-!
# Rounding to a number of binary digits

Binary floating-point arithmetic computes exactly and then rounds to the
nearest number with `p` significant digits, a tie going to the even one.  The
exponent is not bounded here, so the results hold for operands whose quotients
neither overflow nor underflow.

Rounding is exact on integers of at most `p` digits and has a relative error of
at most `2 ^ (-p)` everywhere.  A quotient of two integers keeps a distance from
every integer, and from every tie, that is larger than this error; hence
rounding it up afterwards gives the exact result.
-/

namespace Numeric

variable {K : Type*} [Field K] [LinearOrder K] [IsStrictOrderedRing K]
  [FloorRing K]

/-! ## The nearest integer -/

/-- The nearest integer, and the even one of two equally near. -/
def roundEven (x : K) : ℤ :=
  if Int.fract x < 1 / 2 then ⌊x⌋
  else if 1 / 2 < Int.fract x then ⌊x⌋ + 1
  else if Even ⌊x⌋ then ⌊x⌋
  else ⌊x⌋ + 1

omit [IsStrictOrderedRing K] in
/-- The result is the floor or the integer after it, whichever is near. -/
theorem roundEven_cases (x : K) :
    (roundEven x = ⌊x⌋ ∧ Int.fract x ≤ 1 / 2) ∨
      (roundEven x = ⌊x⌋ + 1 ∧ 1 / 2 ≤ Int.fract x) := by
  by_cases hlow : Int.fract x < 1 / 2
  · exact Or.inl ⟨if_pos hlow, hlow.le⟩
  · have hge : 1 / 2 ≤ Int.fract x := not_lt.mp hlow
    by_cases hhigh : 1 / 2 < Int.fract x
    · refine Or.inr ⟨?_, hge⟩
      rw [roundEven, if_neg hlow, if_pos hhigh]
    · by_cases heven : Even ⌊x⌋
      · refine Or.inl ⟨?_, not_lt.mp hhigh⟩
        rw [roundEven, if_neg hlow, if_neg hhigh, if_pos heven]
      · refine Or.inr ⟨?_, hge⟩
        rw [roundEven, if_neg hlow, if_neg hhigh, if_neg heven]

theorem abs_roundEven_sub_le (x : K) : |(roundEven x : K) - x| ≤ 1 / 2 := by
  have hsplit := Int.floor_add_fract x
  rw [abs_le]
  rcases roundEven_cases x with ⟨h, hfract⟩ | ⟨h, hfract⟩
  · have hnonneg := Int.fract_nonneg x
    rw [h]
    constructor <;> linarith
  · have hlt := Int.fract_lt_one x
    rw [h]
    push_cast
    constructor <;> linarith

/-- An integer at a distance below one half is the nearest one. -/
theorem roundEven_eq_of_abs_sub_lt {x : K} {n : ℤ}
    (h : |x - n| < 1 / 2) : roundEven x = n := by
  have hround := abs_roundEven_sub_le x
  have hclose : |((roundEven x - n : ℤ) : K)| < 1 := by
    push_cast
    calc |(roundEven x : K) - n|
        = |((roundEven x : K) - x) + (x - n)| := by rw [sub_add_sub_cancel]
      _ ≤ |(roundEven x : K) - x| + |x - n| := abs_add_le _ _
      _ < 1 := by linarith
  have hzero : |roundEven x - n| < 1 := by exact_mod_cast hclose
  exact sub_eq_zero.mp (Int.abs_lt_one_iff.mp hzero)

theorem roundEven_nonneg {x : K} (hx : 0 ≤ x) : 0 ≤ roundEven x := by
  have hlow := (abs_le.mp (abs_roundEven_sub_le x)).1
  have hgt : (-1 : K) < roundEven x := by linarith
  exact Int.lt_iff_add_one_le.mp (by exact_mod_cast hgt)

@[simp] theorem roundEven_intCast (n : ℤ) : roundEven (n : K) = n := by
  apply roundEven_eq_of_abs_sub_lt
  rw [sub_self, abs_zero]
  exact one_half_pos

/-! ## The nearest number with `p` binary digits -/

/-- The weight of the last of `p` binary digits of `x`. -/
def lastPlace (p : ℕ) (x : K) : K :=
  2 ^ (Int.log 2 |x| - p + 1)

/-- Round to `p` binary digits. -/
def roundBinary (p : ℕ) (x : K) : K :=
  roundEven (x / lastPlace p x) * lastPlace p x

theorem lastPlace_pos (p : ℕ) (x : K) : 0 < lastPlace p x :=
  zpow_pos two_pos _

theorem roundBinary_nonneg (p : ℕ) {x : K} (hx : 0 ≤ x) :
    0 ≤ roundBinary p x :=
  mul_nonneg (Int.cast_nonneg (roundEven_nonneg
    (div_nonneg hx (lastPlace_pos p x).le))) (lastPlace_pos p x).le

/-- Half of the last place is a small part of the number. -/
theorem lastPlace_le {p : ℕ} {x : K} (hx : x ≠ 0) :
    lastPlace p x / 2 ≤ |x| / 2 ^ p := by
  have hlog : (2 : K) ^ Int.log 2 |x| ≤ |x| := by
    exact_mod_cast Int.zpow_log_le_self (R := K) one_lt_two (abs_pos.mpr hx)
  have heq : lastPlace p x / 2 = 2 ^ Int.log 2 |x| / 2 ^ p := by
    rw [lastPlace, zpow_add₀ two_ne_zero, zpow_sub₀ two_ne_zero, zpow_one,
      zpow_natCast]
    field_simp
  rw [heq]
  exact div_le_div_of_nonneg_right hlog (by positivity)

@[simp] theorem roundBinary_zero (p : ℕ) : roundBinary p (0 : K) = 0 := by
  have hround : roundEven (0 : K) = 0 := by exact_mod_cast roundEven_intCast 0
  rw [roundBinary, zero_div, hround, Int.cast_zero, zero_mul]

/-- The relative error of rounding to `p` digits. -/
theorem abs_roundBinary_sub_le (p : ℕ) (x : K) :
    |roundBinary p x - x| ≤ |x| / 2 ^ p := by
  by_cases hx : x = 0
  · simp [hx]
  · have hpos := lastPlace_pos p x
    have hround := abs_roundEven_sub_le (x / lastPlace p x)
    calc |roundBinary p x - x|
        = |(roundEven (x / lastPlace p x) : K) - x / lastPlace p x| *
            lastPlace p x := by
          rw [← abs_of_pos hpos, ← abs_mul, abs_of_pos hpos, sub_mul,
            div_mul_cancel₀ x hpos.ne', roundBinary]
      _ ≤ 1 / 2 * lastPlace p x := mul_le_mul_of_nonneg_right hround hpos.le
      _ = lastPlace p x / 2 := by ring
      _ ≤ |x| / 2 ^ p := lastPlace_le hx

/-- Integers of at most `p` digits are not rounded. -/
theorem roundBinary_intCast {p : ℕ} {n : ℤ} (hn : |n| < 2 ^ p) :
    roundBinary p (n : K) = n := by
  by_cases hzero : n = 0
  · simp [hzero]
  · have habs : 0 < |(n : K)| := abs_pos.mpr (Int.cast_ne_zero.mpr hzero)
    -- the last place is at most one, and a power of two
    have hlog : Int.log 2 |(n : K)| < p := by
      rw [← Int.lt_zpow_iff_log_lt one_lt_two habs]
      exact_mod_cast hn
    obtain ⟨k, hk⟩ := Int.eq_ofNat_of_zero_le
      (show 0 ≤ (p : ℤ) - 1 - Int.log 2 |(n : K)| by omega)
    have hplace : lastPlace p (n : K) = ((2 : K) ^ k)⁻¹ := by
      rw [lastPlace, ← zpow_natCast, ← zpow_neg, ← hk]
      congr 1
      ring
    have hdiv : (n : K) / lastPlace p (n : K) = ((n * 2 ^ k : ℤ) : K) := by
      rw [hplace, div_inv_eq_mul]
      push_cast
      rfl
    rw [roundBinary, hdiv, roundEven_intCast, ← hdiv,
      div_mul_cancel₀ _ (lastPlace_pos p (n : K)).ne']

/-! ## Quotients of integers -/

/-- The error of a rounded quotient is below the distance between different
quotients with the same denominator. -/
theorem abs_roundBinary_div_sub_lt {p : ℕ} {n d : ℤ} (hd : 0 < d)
    (hn : |n| < 2 ^ p) :
    |roundBinary p ((n : K) / d) - n / d| < 1 / d := by
  have hd' : (0 : K) < d := Int.cast_pos.mpr hd
  have hn' : |(n : K)| < 2 ^ p := by exact_mod_cast hn
  refine (abs_roundBinary_sub_le p _).trans_lt ?_
  rw [abs_div, abs_of_pos hd', div_div, mul_comm, ← div_div]
  refine div_lt_div_of_pos_right ?_ hd'
  rwa [div_lt_one (by positivity)]

/-- Rounding a quotient up is exact, although the quotient is rounded first. -/
theorem ceil_roundBinary_div {p : ℕ} {n d : ℤ} (hd : 0 < d)
    (hn : |n| < 2 ^ p) :
    ⌈roundBinary p ((n : K) / d)⌉ = ⌈(n : K) / d⌉ := by
  have hd' : (0 : K) < d := Int.cast_pos.mpr hd
  by_cases hdvd : d ∣ n
  · -- the quotient is an integer of at most `p` digits
    obtain ⟨k, rfl⟩ := hdvd
    have hk : |k| < 2 ^ p := by
      refine lt_of_le_of_lt ?_ hn
      rw [abs_mul]
      exact le_mul_of_one_le_left (abs_nonneg k) (Int.one_le_abs hd.ne')
    have hquot : ((d * k : ℤ) : K) / d = k := by
      push_cast
      exact mul_div_cancel_left₀ _ hd'.ne'
    rw [hquot, roundBinary_intCast hk]
  · have herror := abs_lt.mp (abs_roundBinary_div_sub_lt (K := K) hd hn)
    set c := ⌈(n : K) / d⌉ with hc
    obtain ⟨hlow, hhigh⟩ := Int.ceil_eq_iff.mp hc.symm
    rw [lt_div_iff₀ hd'] at hlow
    rw [div_le_iff₀ hd'] at hhigh
    have hlow' : (c - 1) * d + 1 ≤ n :=
      Int.add_one_le_of_lt (by exact_mod_cast hlow)
    have hhigh' : n + 1 ≤ c * d := by
      refine Int.add_one_le_of_lt (lt_of_le_of_ne (by exact_mod_cast hhigh) ?_)
      exact fun heq => hdvd (Dvd.intro_left c heq.symm)
    have hbelow : ((c : K) - 1) + 1 / d ≤ n / d := by
      rw [le_div_iff₀ hd', add_mul, one_div_mul_cancel hd'.ne']
      exact_mod_cast hlow'
    have habove : (n : K) / d + 1 / d ≤ c := by
      rw [← add_div, div_le_iff₀ hd']
      exact_mod_cast hhigh'
    rw [Int.ceil_eq_iff]
    constructor <;> linarith

/-- The nearest integer to an approximation of `a / b` is also a nearest one to
`a / b` itself, if the error is below half of the distance between quotients. -/
theorem abs_sub_roundEven_mul_le {a b : ℤ} (hb : 0 < b) {y : K}
    (hy : |y - a / b| < 1 / (2 * b)) : 2 * |a - roundEven y * b| ≤ b := by
  have hb' : (0 : K) < b := Int.cast_pos.mpr hb
  have hround := abs_roundEven_sub_le y
  have hnear : |(a : K) / b - roundEven y| < 1 / 2 + 1 / (2 * b) := by
    calc |(a : K) / b - roundEven y|
        = |(y - roundEven y) - (y - a / b)| := by
          rw [sub_sub_sub_cancel_left]
      _ ≤ |y - roundEven y| + |y - a / b| := abs_sub _ _
      _ < 1 / 2 + 1 / (2 * b) := by
          rw [abs_sub_comm]
          exact add_lt_add_of_le_of_lt hround hy
  have hscaled : 2 * |(a : K) - roundEven y * b| < b + 1 := by
    have heq : (a : K) - roundEven y * b = (a / b - roundEven y) * b := by
      rw [sub_mul, div_mul_cancel₀ _ hb'.ne']
    rw [heq, abs_mul, abs_of_pos hb']
    calc 2 * (|(a : K) / b - roundEven y| * b)
        < 2 * ((1 / 2 + 1 / (2 * b)) * b) := by
          exact mul_lt_mul_of_pos_left
            (mul_lt_mul_of_pos_right hnear hb') two_pos
      _ = b + 1 := by field_simp
  exact Int.lt_add_one_iff.mp (by exact_mod_cast hscaled)

/-- Nearest integers to two quotients whose sum is `m` differ from it by one at
most, and only if the quotients are halfway between integers. -/
theorem nearest_add_nearest {a a' b k k' m : ℤ} (hb : 0 < b)
    (hk : 2 * |a - k * b| ≤ b) (hk' : 2 * |a' - k' * b| ≤ b)
    (hsum : a + a' = m * b) :
    |k + k' - m| ≤ 1 ∧ ((∀ j, 2 * a ≠ (2 * j + 1) * b) → k + k' = m) := by
  obtain ⟨hlow, hhigh⟩ := abs_le.mp (show |a - k * b| ≤ b / 2 by omega)
  obtain ⟨hlow', hhigh'⟩ := abs_le.mp (show |a' - k' * b| ≤ b / 2 by omega)
  have hgap : (k + k' - m) * b = -(a - k * b) - (a' - k' * b) := by
    linarith
  have hbound : |k + k' - m| * b ≤ 1 * b := by
    rw [← abs_of_pos hb, ← abs_mul, abs_of_pos hb, hgap, abs_le]
    omega
  have hone := le_of_mul_le_mul_right hbound hb
  refine ⟨hone, fun hties => ?_⟩
  obtain ⟨hge, hle⟩ := abs_le.mp hone
  by_contra hne
  rcases (show k + k' - m = 1 ∨ k + k' - m = -1 by omega) with hd | hd
  · -- both quotients are rounded up by one half
    rw [hd, one_mul] at hgap
    exact hties (k - 1) (by linarith [show 2 * (a - k * b) = -b by omega])
  · rw [hd, neg_one_mul] at hgap
    exact hties k (by linarith [show 2 * (a - k * b) = b by omega])

end Numeric

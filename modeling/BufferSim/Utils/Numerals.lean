import BufferSim.Cxx.Double
import BufferSim.Cxx.Integer

/-!
# Reading decimal fractions back

A reader of decimal fractions recovers what is printed with `std::fixed`.
-/

namespace BufferSim

open Cxx Cxx.Text

/-- Read a number with decimals, in units of the last one. -/
def readFixed (precision : ℕ) (t : Text) : ℕ :=
  leadingNat t * 10 ^ precision +
    leadingNat ((t.dropWhile Char.isDigit).drop 1)

theorem ofDigitChars_leftpad (width n : ℕ) :
    Nat.ofDigitChars 10 ((Nat.toDigits 10 n).leftpad width '0') 0 = n := by
  rw [List.leftpad, Nat.ofDigitChars_append, Nat.ofDigitChars_replicate_zero,
    Nat.mul_zero, Nat.ofDigitChars_toDigits (by decide) (by decide)]

/-- The digits before and after the point are read back. -/
theorem readFixed_ofFixed (precision : ℕ) {x : ℚ} (hx : 0 ≤ x) :
    readFixed precision (Text.ofFixed precision x) =
      Text.fixedUnits precision x := by
  set units := Text.fixedUnits precision x with hunits
  set whole := Nat.toDigits 10 (units / 10 ^ precision) with hwhole
  set decimals :=
    (Nat.toDigits 10 (units % 10 ^ precision)).leftpad precision '0'
      with hdecimals
  have htext : Text.ofFixed precision x = whole ++ '.' :: decimals := by
    rw [Text.ofFixed, if_neg (not_lt.mpr hx), List.nil_append]
  have hpoint : '.'.isDigit = false := by decide
  have hdigits : ∀ c ∈ whole, c.isDigit = true := fun c hc =>
    isDigit_of_mem_toDigits hc
  have hdecimalDigits : ∀ c ∈ decimals, c.isDigit = true := by
    intro c hc
    rcases List.mem_append.mp hc with hpad | hdigit
    · rw [List.eq_of_mem_replicate hpad]
      decide
    · exact isDigit_of_mem_toDigits hdigit
  have hrest : (whole ++ '.' :: decimals).dropWhile Char.isDigit =
      '.' :: decimals := by
    rw [List.dropWhile_append_of_pos hdigits,
      List.dropWhile_cons_of_neg (by simp [hpoint])]
  have hread : leadingNat (whole ++ '.' :: decimals) =
      units / 10 ^ precision :=
    leadingNat_toDigits_append _ (by simp [hpoint])
  have hreadDecimals : leadingNat decimals = units % 10 ^ precision := by
    have happend : leadingNat (decimals ++ []) =
        Nat.ofDigitChars 10 decimals 0 :=
      leadingNat_append hdecimalDigits (by simp)
    rwa [List.append_nil, hdecimals, ofDigitChars_leftpad] at happend
  rw [readFixed, htext, hread, hrest, List.drop_one, List.tail_cons,
    hreadDecimals, Nat.div_add_mod']

end BufferSim

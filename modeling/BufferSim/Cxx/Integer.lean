import BufferSim.Cxx.Text
import Mathlib.Algebra.Group.Int.Defs
import Mathlib.Algebra.Group.Nat.Defs

/-!
# Machine integers

An `int` has 32 bits and a `long` has 64.  Signed overflow is undefined in C++;
the compiled program wraps around, and `int32` does the same.  `std::atoi` is
`std::strtol`, which stops at the bounds of a `long`, with its result converted
to an `int`.
-/

namespace Cxx

/-- The value of an `int` after `n` has been stored in it. -/
def int32 (n : Int) : Int :=
  (BitVec.ofInt 32 n).toInt

theorem int32_eq_bmod (n : Int) : int32 n = n.bmod (2 ^ 32) :=
  BitVec.toInt_ofInt n

/-- In the range of an `int` nothing is lost. -/
theorem int32_of_range {n : Int} (hle : -2 ^ 31 ≤ n) (hlt : n < 2 ^ 31) :
    int32 n = n := by
  rw [int32_eq_bmod, Int.bmod_def]
  omega

theorem int32_of_nonneg {n : Int} (hnonneg : 0 ≤ n) (hlt : n < 2 ^ 31) :
    int32 n = n :=
  int32_of_range (by omega) hlt

theorem int32_add_one (n : Int) : int32 (int32 n + 1) = int32 (n + 1) := by
  simp only [int32_eq_bmod, Int.bmod_add_bmod]

/-! ## Reading a number -/

namespace Text

/-- The number that the digits at the start of a text stand for. -/
def leadingNat (t : Text) : ℕ :=
  Nat.ofDigitChars 10 (t.takeWhile Char.isDigit) 0

/-- The number at the start of a text, after white space and a sign. -/
def parseInt (s : Text) : Int :=
  match s.dropWhile isspace with
  | '-' :: rest => -(leadingNat rest : Int)
  | '+' :: rest => leadingNat rest
  | rest => leadingNat rest

/-- `std::strtol` to base ten. -/
def strtol (s : Text) : Int :=
  max (-2 ^ 63) (min (2 ^ 63 - 1) (parseInt s))

/-- `std::atoi`. -/
def atoi (s : Text) : Int :=
  int32 (strtol s)

/-! ## Digits -/

theorem isDigit_of_mem_toDigits {n : ℕ} {c : Char}
    (hc : c ∈ Nat.toDigits 10 n) : c.isDigit = true :=
  Nat.isDigit_of_mem_toDigits (by decide) (by decide) hc

/-- Digits that are followed by something else are read as their number. -/
theorem leadingNat_append {digits rest : Text}
    (hdigits : ∀ c ∈ digits, c.isDigit = true)
    (hrest : ∀ c ∈ rest.head?, c.isDigit = false) :
    leadingNat (digits ++ rest) = Nat.ofDigitChars 10 digits 0 := by
  have hstop : rest.takeWhile Char.isDigit = [] := by
    cases rest with
    | nil => rfl
    | cons c rest =>
        rw [List.takeWhile_cons_of_neg]
        simp [hrest c rfl]
  rw [leadingNat, List.takeWhile_append_of_pos hdigits, hstop,
    List.append_nil]

theorem leadingNat_toDigits_append (n : ℕ) {rest : Text}
    (hrest : ∀ c ∈ rest.head?, c.isDigit = false) :
    leadingNat (Nat.toDigits 10 n ++ rest) = n := by
  rw [leadingNat_append (fun _ hc => isDigit_of_mem_toDigits hc) hrest,
    Nat.ofDigitChars_toDigits (by decide) (by decide)]

/-- A digit is neither white space nor a sign. -/
theorem not_isspace_of_isDigit {c : Char} (hc : c.isDigit = true) :
    isspace c = false ∧ c ≠ '-' ∧ c ≠ '+' := by
  have hother : ([' ', '\t', '\n', '\x0b', '\x0c', '\r', '-', '+'] :
      List Char).all (fun d => !d.isDigit) = true := by
    decide
  have hne : ∀ d ∈ ([' ', '\t', '\n', '\x0b', '\x0c', '\r', '-', '+'] :
      List Char), c ≠ d := by
    rintro d hd rfl
    simpa [hc] using List.all_eq_true.mp hother c hd
  refine ⟨?_, hne '-' (by simp), hne '+' (by simp)⟩
  rw [isspace, decide_eq_false_iff_not]
  intro hmem
  exact hne c (List.mem_append_left ['-', '+'] hmem) rfl

/-! ## Printed numbers -/

theorem parseInt_of_digit {c : Char} (hc : c.isDigit = true) (rest : Text) :
    parseInt (c :: rest) = leadingNat (c :: rest) := by
  obtain ⟨hspace, hminus, hplus⟩ := not_isspace_of_isDigit hc
  rw [parseInt, List.dropWhile_cons_of_neg (by simp [hspace])]
  split
  · next heq => exact absurd (List.cons.inj heq).1 hminus
  · next heq => exact absurd (List.cons.inj heq).1 hplus
  · rfl

theorem parseInt_minus (rest : Text) :
    parseInt ('-' :: rest) = -(leadingNat rest : Int) := by
  have hspace : isspace '-' = false := by decide
  rw [parseInt, List.dropWhile_cons_of_neg (by simp [hspace])]
  rfl

/-- A printed number is read back, up to the text that follows. -/
theorem parseInt_ofInt_append (n : Int) {rest : Text}
    (hrest : ∀ c ∈ rest.head?, c.isDigit = false) :
    parseInt (ofInt n ++ rest) = n := by
  have hread := leadingNat_toDigits_append n.natAbs hrest
  rw [ofInt]
  split
  · next hneg =>
      rw [List.cons_append, parseInt_minus, hread]
      omega
  · next hnonneg =>
      obtain ⟨c, digits, hdigits⟩ :=
        List.exists_cons_of_ne_nil (Nat.toDigits_ne_nil (n := n.natAbs) (b := 10))
      have hc : c.isDigit = true :=
        isDigit_of_mem_toDigits (n := n.natAbs) (by simp [hdigits])
      rw [hdigits, List.cons_append] at hread ⊢
      rw [parseInt_of_digit hc, hread]
      omega

theorem parseInt_ofInt (n : Int) : parseInt (ofInt n) = n := by
  have happend : parseInt (ofInt n ++ []) = n :=
    parseInt_ofInt_append n (by simp)
  rwa [List.append_nil] at happend

/-- A number of type `long` is converted to an `int`. -/
theorem atoi_ofInt_of_long {n : Int} (hle : -2 ^ 63 ≤ n) (hlt : n < 2 ^ 63) :
    atoi (ofInt n) = int32 n := by
  have hlong : strtol (ofInt n) = n := by
    rw [strtol, parseInt_ofInt]
    omega
  rw [atoi, hlong]

/-- `std::atoi` reads the numbers of type `int`. -/
theorem atoi_ofInt {n : Int} (hle : -2 ^ 31 ≤ n) (hlt : n < 2 ^ 31) :
    atoi (ofInt n) = n := by
  rw [atoi_ofInt_of_long (by omega) (by omega), int32_of_range hle hlt]

end Text
end Cxx

import Mathlib.Data.List.DropRight
import Mathlib.Data.List.Infix

/-!
# Python strings

A `str` is modelled as the list of its code points.
-/

namespace Python

abbrev Str := List Char

namespace Str

/-- The white space of `str.isspace`, which is what `str.strip` removes. -/
def isspace (c : Char) : Bool :=
  let n := c.toNat
  (9 ≤ n && n ≤ 13) || (28 ≤ n && n ≤ 32) || n == 0x85 || n == 0xa0 ||
    n == 0x1680 || (0x2000 ≤ n && n ≤ 0x200a) || n == 0x2028 || n == 0x2029 ||
    n == 0x202f || n == 0x205f || n == 0x3000

/-- `str.lstrip`. -/
def lstrip (s : Str) : Str :=
  s.dropWhile isspace

/-- `str.rstrip`. -/
def rstrip (s : Str) : Str :=
  s.rdropWhile isspace

/-- `str.strip`. -/
def strip (s : Str) : Str :=
  rstrip (lstrip s)

/-- `str.startswith`. -/
def startswith (s start : Str) : Bool :=
  start.isPrefixOf s

/-- `str.endswith`. -/
def endswith (s ending : Str) : Bool :=
  ending.isSuffixOf s

/-- The slice `s[n:]`. -/
def sliceFrom (s : Str) (n : ℕ) : Str :=
  s.drop n

/-- The slice `s[:-n]`, for `n > 0`. -/
def sliceToLast (s : Str) (n : ℕ) : Str :=
  s.take (s.length - n)

/-! ## Prefixes and suffixes -/

@[simp] theorem startswith_iff {s start : Str} :
    startswith s start = true ↔ start <+: s := List.isPrefixOf_iff_prefix

@[simp] theorem endswith_iff {s ending : Str} :
    endswith s ending = true ↔ ending <:+ s := List.isSuffixOf_iff_suffix

@[simp] theorem sliceFrom_append_length (start s : Str) :
    sliceFrom (start ++ s) start.length = s := List.drop_left

@[simp] theorem sliceToLast_append_length (s ending : Str) :
    sliceToLast (s ++ ending) ending.length = s := by
  simp [sliceToLast]

/-- A prefix without the separator lies before the separator. -/
theorem prefix_of_prefix_append_cons {start before after : Str} {sep : Char}
    (hsep : sep ∉ start) (h : start <+: before ++ sep :: after) :
    start <+: before := by
  rcases List.prefix_or_prefix_of_prefix h (List.prefix_append before _)
    with hshort | ⟨more, rfl⟩
  · exact hshort
  · rw [List.prefix_append_right_inj] at h
    cases more with
    | nil => simp
    | cons c cs =>
        obtain ⟨rfl, -⟩ := List.cons_prefix_cons.mp h
        exact absurd (by simp) hsep

/-! ## White space -/

theorem ascii_of_isAlpha {c : Char} (hc : c.isAlpha = true) :
    (65 ≤ c.toNat ∧ c.toNat ≤ 90) ∨ (97 ≤ c.toNat ∧ c.toNat ≤ 122) := by
  rcases Bool.or_eq_true_iff.mp hc with hupper | hlower
  · have hrange : c.val ≥ 'A'.val ∧ c.val ≤ 'Z'.val := of_decide_eq_true hupper
    exact Or.inl hrange
  · have hrange : (decide (c.val ≥ 'a'.val) && decide (c.val ≤ 'z'.val)) = true :=
      hlower
    rw [Bool.and_eq_true, decide_eq_true_eq, decide_eq_true_eq] at hrange
    exact Or.inr hrange

/-- A letter is not white space. -/
theorem isspace_of_isAlpha {c : Char} (hc : c.isAlpha = true) :
    isspace c = false := by
  have hascii := ascii_of_isAlpha hc
  simp only [isspace, Bool.or_eq_false_iff, Bool.and_eq_false_iff,
    decide_eq_false_iff_not, beq_eq_false_iff_ne, ne_eq]
  omega

theorem countP_dropWhile_not (p : Char → Bool) (s : Str) :
    (s.dropWhile p).countP (fun c => !p c) = s.countP (fun c => !p c) := by
  induction s with
  | nil => rfl
  | cons c cs ih =>
      by_cases hc : p c = true
      · simp [List.dropWhile_cons_of_pos hc, hc, ih]
      · rw [List.dropWhile_cons_of_neg hc]

/-- `strip` removes white space only. -/
theorem countP_strip (s : Str) :
    (strip s).countP (fun c => !isspace c) =
      s.countP (fun c => !isspace c) := by
  rw [strip, rstrip, List.rdropWhile, List.countP_reverse,
    countP_dropWhile_not, List.countP_reverse, lstrip, countP_dropWhile_not]

theorem rstrip_append_of_isspace {s space : Str}
    (hspace : ∀ c ∈ space, isspace c = true) :
    rstrip (s ++ space) = rstrip s := by
  rw [rstrip, rstrip, List.rdropWhile, List.rdropWhile, List.reverse_append,
    List.dropWhile_append_of_pos (by simpa using hspace)]

theorem lstrip_append_of_isspace {space s : Str}
    (hspace : ∀ c ∈ space, isspace c = true) :
    lstrip (space ++ s) = lstrip s :=
  List.dropWhile_append_of_pos hspace

/-- White space before a text does not survive `strip`. -/
theorem strip_append_left {space s : Str}
    (hspace : ∀ c ∈ space, isspace c = true) :
    strip (space ++ s) = strip s := by
  rw [strip, strip, lstrip_append_of_isspace hspace]

/-- White space after a text does not survive `strip`. -/
theorem strip_append_right {s space : Str}
    (hspace : ∀ c ∈ space, isspace c = true) :
    strip (s ++ space) = strip s := by
  rw [strip, strip, lstrip, List.dropWhile_append]
  split
  · next hnil =>
      have hs : lstrip s = [] := List.isEmpty_iff.mp hnil
      have hw : space.dropWhile isspace = [] :=
        List.dropWhile_eq_nil_iff.mpr hspace
      rw [hs, hw]
  · exact rstrip_append_of_isspace hspace

/-- Nothing but white space before a text is removed by `strip`. -/
theorem strip_append_left_iff {start s : Str} :
    strip (start ++ s) = strip s ↔ ∀ c ∈ start, isspace c = true := by
  constructor
  · intro h
    have hcount := congrArg (List.countP (fun c => !isspace c)) h
    rw [countP_strip, countP_strip, List.countP_append] at hcount
    have hzero : start.countP (fun c => !isspace c) = 0 :=
      Nat.add_eq_right.mp hcount
    intro c hc
    simpa using List.countP_eq_zero.mp hzero c hc
  · intro hspace
    exact strip_append_left hspace

end Str

end Python

import Mathlib.Data.List.DropRight
import Mathlib.Data.List.Infix

/-!
# Byte strings

A `std::string` is modelled as a list of characters, one for each byte.  The
character functions are those of the C locale, which change and classify ASCII
characters only.
-/

namespace Cxx

abbrev Text := List Char

namespace Text

/-- `std::isspace` of the C locale. -/
def isspace (c : Char) : Bool :=
  c ∈ [' ', '\t', '\n', '\x0b', '\x0c', '\r']

/-- `std::transform` with `std::tolower`. -/
def lower (s : Text) : Text :=
  s.map Char.toLower

/-- `std::string::find`: the first position at which `needle` occurs. -/
def find (needle : Text) : Text → Option ℕ
  | [] => if needle = [] then some 0 else none
  | c :: rest =>
      if needle.isPrefixOf (c :: rest) then some 0
      else (find needle rest).map (· + 1)

/-- `std::string::substr`. -/
def substr (s : Text) (pos len : ℕ) : Text :=
  (s.drop pos).take len

/-- `std::to_string`, and `operator<<` on an `int`. -/
def ofInt (n : Int) : Text :=
  if n < 0 then '-' :: Nat.toDigits 10 n.natAbs
  else Nat.toDigits 10 n.natAbs

/-- `std::left` with `std::setw`: pad with spaces to at least the width. -/
def setw (width : ℕ) (s : Text) : Text :=
  s.rightpad width ' '

/-! ## Case -/

@[simp] theorem lower_append (s t : Text) :
    lower (s ++ t) = lower s ++ lower t := List.map_append

@[simp] theorem length_lower (s : Text) : (lower s).length = s.length :=
  List.length_map Char.toLower

/-- `std::tolower` changes upper-case letters only, and into lower-case ones. -/
theorem toLower_eq_iff {c d : Char} (hupper : d.isUpper = false)
    (hlower : d.isLower = false) : c.toLower = d ↔ c = d := by
  by_cases hc : c.val ≥ 'A'.val ∧ c.val ≤ 'Z'.val
  · have hval : c.toLower.val = c.val + 32 :=
      congrArg Char.val (dif_pos hc : c.toLower = _)
    have hbounds : 65 ≤ c.val.toNat ∧ c.val.toNat ≤ 90 := hc
    constructor
    · rintro rfl
      have hrange : (decide (c.toLower.val ≥ 'a'.val) &&
          decide (c.toLower.val ≤ 'z'.val)) = false := hlower
      have hlow : ¬(97 ≤ c.toLower.val.toNat ∧ c.toLower.val.toNat ≤ 122) := by
        simpa [UInt32.le_iff_toNat_le] using hrange
      have hsum : (c.val + 32).toNat = (c.val.toNat + 32) % 2 ^ 32 :=
        UInt32.toNat_add c.val 32
      rw [hval, hsum] at hlow
      omega
    · rintro rfl
      exact absurd hc (of_decide_eq_false hupper)
  · have hsame : c.toLower = c := dif_neg hc
    rw [hsame]

theorem isspace_toLower (c : Char) : isspace c.toLower = isspace c := by
  simp [isspace, toLower_eq_iff]

/-! ## Search -/

/-- The needle is found at the first position at which it occurs. -/
theorem exists_of_find_eq_some {needle s : Text} (hne : needle ≠ []) {n : ℕ}
    (h : find needle s = some n) :
    ∃ before after, s = before ++ (needle ++ after) ∧ before.length = n ∧
      ¬ needle <:+: before := by
  induction s generalizing n with
  | nil => simp [find, hne] at h
  | cons c rest ih =>
      by_cases hprefix : needle.isPrefixOf (c :: rest)
      · obtain ⟨after, hafter⟩ := List.isPrefixOf_iff_prefix.mp hprefix
        simp only [find, if_pos hprefix, Option.some.injEq] at h
        exact ⟨[], after, hafter.symm, h, by simpa using hne⟩
      · simp only [find, if_neg hprefix, Option.map_eq_some_iff] at h
        obtain ⟨m, hm, rfl⟩ := h
        obtain ⟨before, after, rfl, rfl, hfresh⟩ := ih hm
        refine ⟨c :: before, after, rfl, rfl, ?_⟩
        intro hinfix
        rcases List.infix_cons_iff.mp hinfix with hhead | htail
        · exact hprefix (List.isPrefixOf_iff_prefix.mpr
            (hhead.trans (List.prefix_append (c :: before) _)))
        · exact hfresh htail

/-- A search in the lowered text, seen in the text itself. -/
theorem exists_of_find_lower {needle s : Text} (hne : needle ≠ []) {n : ℕ}
    (h : find needle (lower s) = some n) :
    ∃ before letters after, s = before ++ (letters ++ after) ∧
      before.length = n ∧ lower letters = needle ∧
      ¬ needle <:+: lower before := by
  obtain ⟨before, after, hsplit, rfl, hfresh⟩ := exists_of_find_eq_some hne h
  obtain ⟨before, rest, rfl, rfl, hrest⟩ := List.map_eq_append_iff.mp hsplit
  obtain ⟨letters, after, rfl, hletters, -⟩ := List.map_eq_append_iff.mp hrest
  exact ⟨before, letters, after, rfl, by simp, hletters, hfresh⟩

/-- A needle whose first character does not occur again in it does not overlap
itself. -/
theorem prefix_of_prefix_append {c : Char} {cs before after : Text}
    (hc : c ∉ cs) (hne : before ≠ [])
    (h : c :: cs <+: before ++ (c :: cs ++ after)) : c :: cs <+: before := by
  rcases List.prefix_or_prefix_of_prefix h (List.prefix_append before _)
    with hshort | ⟨more, hmore⟩
  · exact hshort
  · cases more with
    | nil => rw [← hmore, List.append_nil]
    | cons d more =>
        -- the rest of the needle would begin with its first character
        rw [← hmore, List.prefix_append_right_inj] at h
        obtain ⟨b, before, rfl⟩ := List.exists_cons_of_ne_nil hne
        obtain ⟨rfl, htail⟩ := List.cons.inj hmore
        have hhead : d = b := (List.cons_prefix_cons.mp h).1
        exact absurd (by rw [← htail]; simp [hhead]) hc

/-- Such a needle is found where it occurs after a text without it. -/
theorem find_append {c : Char} {cs : Text} (hc : c ∉ cs) {before : Text}
    (hfresh : ¬ (c :: cs) <:+: before) (after : Text) :
    find (c :: cs) (before ++ (c :: cs ++ after)) = some before.length := by
  induction before with
  | nil => simp [find]
  | cons b before ih =>
      have hrest : ¬ c :: cs <:+: before :=
        fun h => hfresh (List.infix_cons_iff.mpr (Or.inr h))
      have hprefix : ¬ (c :: cs).isPrefixOf
          (b :: (before ++ (c :: cs ++ after))) := by
        rw [List.isPrefixOf_iff_prefix]
        intro h
        exact hfresh
          (prefix_of_prefix_append hc (List.cons_ne_nil b before) h).isInfix
      rw [List.cons_append, find, if_neg hprefix, ih hrest]
      rfl

end Text
end Cxx

import Mathlib.Data.List.DropRight

/-!
# Records of fields with fixed widths

A record is the concatenation of its fields.  When the length of every field is
the width of its column, a field is the slice of the record that begins after
the widths of the columns before it, whatever the contents of these columns
are.
-/

namespace Layout

variable {α : Type*}

/-- The part of a record of the given length from an offset on. -/
def slice (record : List α) (offset width : ℕ) : List α :=
  (record.drop offset).take width

/-- The sum of the first `n` widths. -/
def offset (width : ℕ → ℕ) : ℕ → ℕ
  | 0 => 0
  | n + 1 => offset width n + width n

/-- Every field is as long as its column is wide. -/
def HasWidths (width : ℕ → ℕ) (fields : List (List α)) : Prop :=
  ∀ n field, fields[n]? = some field → field.length = width n

namespace HasWidths

variable {width : ℕ → ℕ} {fields : List (List α)}

theorem length_flatten_take (h : HasWidths width fields) {n : ℕ}
    (hn : n ≤ fields.length) :
    (fields.take n).flatten.length = offset width n := by
  induction n with
  | zero => rfl
  | succ n ih =>
      have hlt : n < fields.length := hn
      have hfield : fields[n]? = some fields[n] :=
        List.getElem?_eq_getElem hlt
      rw [List.take_add_one, hfield, List.flatten_append, List.length_append,
        ih (Nat.le_of_lt hlt), Option.toList_some, List.flatten_singleton,
        h n _ hfield, offset]

theorem length_flatten (h : HasWidths width fields) :
    fields.flatten.length = offset width fields.length := by
  simpa using h.length_flatten_take (Nat.le_refl _)

/-- A field is read back at the offset of its column. -/
theorem slice_flatten (h : HasWidths width fields) {n : ℕ} {field : List α}
    (hfield : fields[n]? = some field) :
    slice fields.flatten (offset width n) (width n) = field := by
  obtain ⟨hlt, hget⟩ := List.getElem?_eq_some_iff.mp hfield
  have hoffset := h.length_flatten_take (Nat.le_of_lt hlt)
  have hsplit : fields.flatten =
      (fields.take n).flatten ++ (field ++ (fields.drop (n + 1)).flatten) := by
    rw [← List.flatten_cons, ← List.flatten_append, ← hget,
      List.getElem_cons_drop, List.take_append_drop]
  rw [slice, hsplit, ← hoffset, List.drop_left, ← h n field hfield,
    List.take_left]

end HasWidths

/-! ## Padding and lines -/

/-- Trailing padding does not matter when it is removed. -/
theorem rdropWhile_append_replicate [BEq α] [LawfulBEq α] (field : List α)
    (a : α) (n : ℕ) :
    (field ++ List.replicate n a).rdropWhile (· == a) =
      field.rdropWhile (· == a) := by
  induction n with
  | zero => simp
  | succ n ih =>
      rw [List.replicate_succ', ← List.append_assoc,
        List.rdropWhile_concat_pos _ _ _ (by simp), ih]

/-- Lines that are ended by a separator are read back by a split at it. -/
theorem splitOn_flatten [BEq α] [LawfulBEq α] {sep : α} {lines : List (List α)}
    (h : ∀ line ∈ lines, sep ∉ line) :
    (lines.map (fun line => line ++ [sep])).flatten.splitOn sep =
      lines ++ [[]] := by
  induction lines with
  | nil => simp
  | cons line lines ih =>
      obtain ⟨hline, hlines⟩ := List.forall_mem_cons.mp h
      simp [List.splitOn_append_cons_self_of_not_mem hline, ih hlines]

/-- A text without the separator belongs to the line that follows it. -/
theorem splitOn_append_left [BEq α] [LawfulBEq α] {sep : α} {start : List α}
    (h : sep ∉ start) (rest : List α) :
    (start ++ rest).splitOn sep =
      (rest.splitOn sep).modifyHead (start ++ ·) := by
  induction start with
  | nil =>
      obtain ⟨line, lines, hsplit⟩ :=
        List.exists_cons_of_ne_nil (List.splitOn_ne_nil sep rest)
      simp [hsplit]
  | cons a start ih =>
      rw [List.mem_cons, not_or] at h
      obtain ⟨hne, hstart⟩ := h
      obtain ⟨line, lines, hsplit⟩ :=
        List.exists_cons_of_ne_nil (List.splitOn_ne_nil sep rest)
      rw [List.cons_append, List.splitOn_cons_eq_if_modifyHead,
        if_neg (by simpa using Ne.symm hne), ih hstart, hsplit]
      rfl

end Layout

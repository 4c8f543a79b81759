import BufferSim.Database.PageOffsets

/-!
# The table name after `FROM`

`extractTableName` searches for the letters of `from`, not for the keyword.
Where they occur earlier, inside a longer word or a string literal, it reads
the text that follows this occurrence.
-/

namespace BufferSim

open Cxx

/-! ## The keyword -/

/-- A character of an identifier or a keyword. -/
def isWordChar (c : Char) : Bool :=
  c.isAlphanum || c == '_'

/-- The quote of string literals. -/
def quote : Char := Char.ofNat 39

/-- The word `from`, in any case, begins at position `i` as a whole word and
outside of the string literals. -/
def FromKeywordAt (sql : Text) (i : ℕ) : Prop :=
  Text.lower (Text.substr sql i 4) = "from".toList ∧
  (sql.take i).getLast?.any isWordChar = false ∧
  sql[i + 4]?.any isWordChar = false ∧
  (sql.take i).count quote % 2 = 0

instance (sql : Text) : DecidablePred (FromKeywordAt sql) :=
  fun i => inferInstanceAs (Decidable (
    Text.lower (Text.substr sql i 4) = "from".toList ∧
    (sql.take i).getLast?.any isWordChar = false ∧
    sql[i + 4]?.any isWordChar = false ∧
    (sql.take i).count quote % 2 = 0))

/-- The parts of a query around a table name. -/
structure QueryParts where
  pre : Text
  keyword : Text
  space : Text
  name : Text
  rest : Text

def QueryParts.sql (q : QueryParts) : Text :=
  q.pre ++ (q.keyword ++ (q.space ++ (q.name ++ q.rest)))

/-- A query whose first keyword `from` is followed by the table name. -/
structure FromClause extends QueryParts where
  keyword_letters : Text.lower keyword = "from".toList
  keyword_at : FromKeywordAt toQueryParts.sql pre.length
  keyword_first : ∀ i < pre.length, ¬ FromKeywordAt toQueryParts.sql i
  space_ne_nil : space ≠ []
  space_isspace : space.all Text.isspace = true
  name_ne_nil : name ≠ []
  name_isNameChar : name.all isNameChar = true
  rest_delimiter : rest.head?.any isNameChar = false

/-! ## The scan -/

theorem isNameChar_toLower (c : Char) :
    isNameChar c.toLower = isNameChar c := by
  simp [isNameChar, Text.isspace_toLower, bne, BEq.beq, Text.toLower_eq_iff]

theorem takeWhile_lower {p : Char → Bool}
    (hp : ∀ c : Char, p c.toLower = p c) (s : Text) :
    (Text.lower s).takeWhile p = Text.lower (s.takeWhile p) := by
  have hcomp : p ∘ Char.toLower = p := funext hp
  rw [Text.lower, List.takeWhile_map, hcomp, Text.lower]

/-- The index loops skip white space and take the characters up to the next
delimiter. -/
theorem extractTableName_of_find {sql : Text} {pos : ℕ}
    (h : Text.find "from".toList (Text.lower sql) = some pos) :
    extractTableName sql =
      ((sql.drop (pos + 4)).dropWhile Text.isspace).takeWhile isNameChar := by
  have hdrop : ∀ n, (Text.lower sql).drop n = Text.lower (sql.drop n) :=
    fun n => List.map_drop.symm
  have hskip : ∀ s : Text,
      s.drop (s.takeWhile Text.isspace).length = s.dropWhile Text.isspace := by
    intro s
    have hsplit := List.takeWhile_append_dropWhile (p := Text.isspace) (l := s)
    exact List.append_cancel_left
      ((List.prefix_iff_eq_append.mp (List.takeWhile_prefix _)).trans
        hsplit.symm)
  have htake : ∀ s : Text,
      s.take (s.takeWhile isNameChar).length = s.takeWhile isNameChar :=
    fun s => (List.prefix_iff_eq_take.mp (List.takeWhile_prefix _)).symm
  simp only [extractTableName, h, Text.substr, hdrop,
    takeWhile_lower Text.isspace_toLower, takeWhile_lower isNameChar_toLower,
    Text.length_lower, htake]
  rw [← List.drop_drop, hskip]

/-- After the first occurrence of the letters the text up to the next delimiter
is read. -/
theorem extractTableName_append {before letters tail : Text}
    (hletters : Text.lower letters = "from".toList)
    (hfresh : ¬ "from".toList <:+: Text.lower before) :
    extractTableName (before ++ (letters ++ tail)) =
      (tail.dropWhile Text.isspace).takeWhile isNameChar := by
  have hfind : Text.find "from".toList
      (Text.lower (before ++ (letters ++ tail))) = some before.length := by
    have hfound := Text.find_append (by decide : 'f' ∉ "rom".toList) hfresh
      (Text.lower tail)
    simpa [hletters] using hfound
  have hlength : letters.length = 4 := by
    simpa using congrArg List.length hletters
  rw [extractTableName_of_find hfind, ← hlength, ← List.append_assoc,
    ← List.length_append, List.drop_left]

/-- A name that is read follows the first occurrence of the letters. -/
theorem exists_letters {sql : Text} (hne : extractTableName sql ≠ []) :
    ∃ before letters tail, sql = before ++ (letters ++ tail) ∧
      Text.lower letters = "from".toList ∧
      ¬ "from".toList <:+: Text.lower before := by
  cases hfind : Text.find "from".toList (Text.lower sql) with
  | none =>
      refine absurd ?_ hne
      simp only [extractTableName, hfind]
  | some pos =>
      obtain ⟨before, letters, tail, hsql, -, hletters, hfresh⟩ :=
        Text.exists_of_find_lower (by decide) hfind
      exact ⟨before, letters, tail, hsql, hletters, hfresh⟩

/-- The first occurrence begins before the end of any text with the letters. -/
theorem length_lt_of_letters {pre before tail rest : Text}
    (hsql : pre ++ tail = before ++ rest)
    (hpre : "from".toList <:+: Text.lower pre)
    (hfresh : ¬ "from".toList <:+: Text.lower before) :
    before.length < pre.length := by
  by_contra hlong
  have hshort : pre <+: before :=
    List.prefix_of_prefix_length_le (List.prefix_append pre tail)
      ⟨rest, hsql.symm⟩ (Nat.le_of_not_lt hlong)
  exact hfresh (hpre.trans (hshort.map Char.toLower).isInfix)

/-- The text goes on with the name, possibly after white space, and the name
ends at a delimiter or with the text. -/
def ContinuesWith (name tail : Text) : Prop :=
  ∃ space rest, tail = space ++ (name ++ rest) ∧
    space.all Text.isspace = true ∧ rest.head?.any isNameChar = false

theorem isspace_eq_false {c : Char} (h : isNameChar c = true) :
    Text.isspace c = false := by
  simp only [isNameChar, Bool.and_eq_true, Bool.not_eq_true'] at h
  exact h.1.1.1.1

theorem scan_eq_iff {name : Text} (hne : name ≠ [])
    (hname : name.all isNameChar = true) (tail : Text) :
    (tail.dropWhile Text.isspace).takeWhile isNameChar = name ↔
      ContinuesWith name tail := by
  constructor
  · rintro rfl
    refine ⟨tail.takeWhile Text.isspace,
      (tail.dropWhile Text.isspace).dropWhile isNameChar, ?_,
      List.all_takeWhile, ?_⟩
    · simp only [List.takeWhile_append_dropWhile]
    · have hstop := List.head?_dropWhile_not isNameChar
        (tail.dropWhile Text.isspace)
      cases hhead :
          ((tail.dropWhile Text.isspace).dropWhile isNameChar).head? with
      | none => rfl
      | some c =>
          rw [hhead] at hstop
          exact hstop
  · rintro ⟨space, rest, rfl, hspace, hrest⟩
    rw [List.all_eq_true] at hspace hname
    obtain ⟨c, cs, rfl⟩ := List.exists_cons_of_ne_nil hne
    have hhead : Text.isspace c = false :=
      isspace_eq_false (hname c List.mem_cons_self)
    rw [List.dropWhile_append_of_pos hspace, List.cons_append,
      List.dropWhile_cons_of_neg (by simp [hhead]), ← List.cons_append,
      List.takeWhile_append_of_pos hname]
    cases rest with
    | nil => simp
    | cons d rest =>
        have hdelimiter : isNameChar d = false := hrest
        simp [hdelimiter]

/-! ## Queries that are read correctly -/

theorem FromClause.continuesWith (q : FromClause) :
    ContinuesWith q.name (q.space ++ (q.name ++ q.rest)) :=
  ⟨q.space, q.rest, rfl, q.space_isspace, q.rest_delimiter⟩

/-- The table name is read exactly when the letters of `from` do not occur
before the keyword, or when their first occurrence is followed by the same
name. -/
theorem extractTableName_eq_iff (q : FromClause) :
    extractTableName q.sql = q.name ↔
      ¬ "from".toList <:+: Text.lower q.pre ∨
      ∃ before letters tail, q.sql = before ++ (letters ++ tail) ∧
        before.length < q.pre.length ∧
        Text.lower letters = "from".toList ∧
        ¬ "from".toList <:+: Text.lower before ∧
        ContinuesWith q.name tail := by
  constructor
  · intro hname
    by_cases hpre : "from".toList <:+: Text.lower q.pre
    · right
      obtain ⟨before, letters, tail, hsql, hletters, hfresh⟩ :=
        exists_letters (hname.symm ▸ q.name_ne_nil)
      refine ⟨before, letters, tail, hsql,
        length_lt_of_letters hsql hpre hfresh, hletters, hfresh, ?_⟩
      rw [hsql, extractTableName_append hletters hfresh] at hname
      exact (scan_eq_iff q.name_ne_nil q.name_isNameChar tail).mp hname
    · exact Or.inl hpre
  · rintro (hfresh | ⟨before, letters, tail, hsql, -, hletters, hfresh, htail⟩)
    · rw [QueryParts.sql, extractTableName_append q.keyword_letters hfresh]
      exact (scan_eq_iff q.name_ne_nil q.name_isNameChar _).mpr q.continuesWith
    · rw [hsql, extractTableName_append hletters hfresh]
      exact (scan_eq_iff q.name_ne_nil q.name_isNameChar tail).mpr htail

/-! ## Queries with the letters before the keyword -/

/-- The letters occur behind the keyword only. -/
def studentsFrom : FromClause where
  pre := "SELECT name ".toList
  keyword := "From".toList
  space := " \n".toList
  name := "students".toList
  rest := " WHERE city = fromage;".toList
  keyword_letters := by decide
  keyword_at := by decide
  keyword_first := by decide
  space_ne_nil := by decide
  space_isspace := by decide
  name_ne_nil := by decide
  name_isNameChar := by decide
  rest_delimiter := by decide

theorem extractTableName_eq_iff_students :
    extractTableName studentsFrom.sql = "students".toList :=
  (extractTableName_eq_iff studentsFrom).mpr (Or.inl (by decide))

def validFrom : FromClause where
  pre := "SELECT name AS valid_from ".toList
  keyword := "FROM".toList
  space := " ".toList
  name := "students".toList
  rest := ";".toList
  keyword_letters := by decide
  keyword_at := by decide
  keyword_first := by decide
  space_ne_nil := by decide
  space_isspace := by decide
  name_ne_nil := by decide
  name_isNameChar := by decide
  rest_delimiter := by decide

/-- The keyword itself is read as the name of the table. -/
theorem valid_from_misread :
    validFrom.sql = "SELECT name AS valid_from FROM students;".toList ∧
    extractTableName validFrom.sql = "FROM".toList ∧
    ¬ ∀ q : FromClause, extractTableName q.sql = q.name := by
  refine ⟨by decide, by decide, ?_⟩
  intro h
  exact absurd (h validFrom) (by decide)

end BufferSim

import BufferSim.Database.PageOffsets

/-!
# Attribution of pages to tables

A query is anchored at one table, but the length of its page sequence comes
from the size of its result.  The sequence stays inside the pages that were
reserved for the table exactly as long as the result is no larger than these
pages; joins and tables that have grown can exceed them.
-/

namespace BufferSim

open Cxx Allocation

/-- The answer to the query that counts the rows of a table: their number, or
an error. -/
def Counts (sqlite : Sqlite) (table : Text) : Option ℕ → Prop
  | some n => (sqlite (countSql table)).rc = SQLITE_OK ∧
      ∃ row, (sqlite (countSql table)).rows = [row] ∧
        row.argv = [some (Text.ofInt n)]
  | none => (sqlite (countSql table)).rc ≠ SQLITE_OK

/-- The tables of a database, with distinct names, and the number of rows of
each whose count succeeds. -/
structure Catalogue (sqlite : Sqlite) (names : List Text)
    (rowCount : Text → Option ℕ) : Prop where
  names_eq : tableNames sqlite = some names
  nodup_names : names.Nodup
  counts : ∀ table ∈ names, Counts sqlite table (rowCount table)

/-! ## The pages that tables need -/

/-- The pages for `n` rows; an empty table needs one. -/
def neededPages (pageSize : Int) (n : ℕ) : Int :=
  max 1 (ceilDiv n pageSize)

/-- The tables that are counted, with the pages that they need. -/
def pageRequests (rowCount : Text → Option ℕ) (pageSize : Int)
    (names : List Text) : List (Text × Int) :=
  names.filterMap (fun table =>
    (rowCount table).map (fun n => (table, neededPages pageSize n)))

/-- Consecutive extents for the tables, from page zero on. -/
def tableExtents (rowCount : Text → Option ℕ) (pageSize : Int)
    (names : List Text) : List (Extent Text) :=
  place 0 (pageRequests rowCount pageSize names)

def pageTotal (rowCount : Text → Option ℕ) (pageSize : Int)
    (names : List Text) : Int :=
  placeEnd 0 (pageRequests rowCount pageSize names)

/-- The rows of each table and the pages of all tables can be counted in an
`int`. -/
structure Fits (rowCount : Text → Option ℕ) (pageSize : Int)
    (names : List Text) : Prop where
  rows_lt : ∀ table ∈ names, ∀ n, rowCount table = some n → n < 2 ^ 31
  pages_lt : pageTotal rowCount pageSize names < 2 ^ 31

/-- The number of pages that are reserved for a table. -/
def reservedPages (rowCount : Text → Option ℕ) (pageSize : Int)
    (table : Text) : Int :=
  match rowCount table with
  | some n => neededPages pageSize n
  | none => 0

variable {sqlite : Sqlite} {names : List Text} {rowCount : Text → Option ℕ}
  {pageSize : Int}

theorem numPages_natCast (hsize : 1 ≤ pageSize) (n : ℕ) :
    numPages n pageSize = neededPages pageSize n := by
  have hpages : ceilDiv n pageSize = 0 ∨ 1 ≤ ceilDiv n pageSize := by
    rcases Nat.eq_zero_or_pos n with rfl | hpos
    · exact Or.inl (by simp [ceilDiv])
    · exact Or.inr (one_le_ceilDiv hsize (by exact_mod_cast hpos))
  simp only [numPages, neededPages]
  split <;> omega

theorem mem_pageRequests {r : Text × Int}
    (hr : r ∈ pageRequests rowCount pageSize names) :
    r.1 ∈ names ∧ ∃ n, rowCount r.1 = some n ∧ r.2 = neededPages pageSize n := by
  rw [pageRequests, List.mem_filterMap] at hr
  obtain ⟨table, htable, hmap⟩ := hr
  obtain ⟨n, hcount, rfl⟩ := Option.map_eq_some_iff.mp hmap
  exact ⟨htable, n, hcount, rfl⟩

theorem one_le_of_mem_pageRequests {r : Text × Int}
    (hr : r ∈ pageRequests rowCount pageSize names) : 1 ≤ r.2 := by
  obtain ⟨-, n, -, hpages⟩ := mem_pageRequests hr
  rw [hpages]
  exact le_max_left _ _

theorem nonneg_of_mem_pageRequests {r : Text × Int}
    (hr : r ∈ pageRequests rowCount pageSize names) : 0 ≤ r.2 :=
  Int.le_of_lt (one_le_of_mem_pageRequests hr)

/-- What is known of a table's extent. -/
theorem mem_tableExtents {e : Extent Text}
    (he : e ∈ tableExtents rowCount pageSize names) :
    e.size = reservedPages rowCount pageSize e.key ∧ 1 ≤ e.size ∧
      0 ≤ e.offset ∧ e.offset + e.size ≤ pageTotal rowCount pageSize names := by
  have hpages : ∀ r ∈ pageRequests rowCount pageSize names, 0 ≤ r.2 :=
    fun r hr => nonneg_of_mem_pageRequests hr
  have hr := mem_requests_of_mem_place he
  obtain ⟨-, n, hcount, hsize⟩ := mem_pageRequests hr
  refine ⟨?_, one_le_of_mem_pageRequests hr, le_offset_of_mem_place hpages he,
    add_size_le_placeEnd hpages he⟩
  rw [reservedPages, hcount]
  exact hsize

theorem eq_of_contains_tableExtents {a b : Extent Text}
    (ha : a ∈ tableExtents rowCount pageSize names)
    (hb : b ∈ tableExtents rowCount pageSize names) {p : Int}
    (hap : a.Contains p) (hbp : b.Contains p) : a = b :=
  eq_of_contains (fun _ hr => nonneg_of_mem_pageRequests hr) ha hb hap hbp

/-! ## The registry -/

/-- The count is the value of `std::atoi` on the number of rows. -/
theorem countRows_eq {table : Text} {count : Option ℕ}
    (h : Counts sqlite table count) :
    countRows sqlite table =
      count.map (fun n : ℕ => Text.atoi (Text.ofInt n)) := by
  cases count with
  | none =>
      have hrc : (sqlite (countSql table)).rc ≠ SQLITE_OK := h
      simp only [countRows, if_pos hrc, Option.map_none]
  | some n =>
      obtain ⟨hrc, row, hrows, hargv⟩ := h
      simp [countRows, hrc, hrows, hargv]

namespace Catalogue

theorem reservations_eq (h : Catalogue sqlite names rowCount)
    (hsize : 1 ≤ pageSize)
    (hrows : ∀ table ∈ names, ∀ n, rowCount table = some n → n < 2 ^ 31) :
    reservations sqlite pageSize names =
      pageRequests rowCount pageSize names := by
  refine List.filterMap_congr fun table htable => ?_
  rw [countRows_eq (h.counts table htable)]
  cases hcount : rowCount table with
  | none => rfl
  | some n =>
      have hlt := hrows table htable n hcount
      have hread : Text.atoi (Text.ofInt n) = n :=
        Text.atoi_ofInt (by omega) (by exact_mod_cast hlt)
      simp only [Option.map_some, hread, numPages_natCast hsize]

/-- If the counts fit, the registry lists the extents of the tables. -/
theorem initPageOffsets_eq (h : Catalogue sqlite names rowCount)
    (hsize : 1 ≤ pageSize) (hfits : Fits rowCount pageSize names)
    {db : SQLiteManager} (hopen : db.isOpen = true) :
    (db.initPageOffsets sqlite pageSize).tablePageOffsets =
      (tableExtents rowCount pageSize names).map
        (fun e => (e.key, e.offset)) := by
  have hreservations := h.reservations_eq hsize hfits.rows_lt
  rw [tableExtents, ← hreservations]
  refine SQLiteManager.initPageOffsets_eq hopen h.names_eq h.nodup_names ?_ ?_
  · rw [hreservations]
    exact fun r hr => nonneg_of_mem_pageRequests hr
  · rw [hreservations]
    exact hfits.pages_lt

/-- A table that is found in the registry has an extent that starts at its base
page. -/
theorem exists_extent_of_findTable (h : Catalogue sqlite names rowCount)
    (hsize : 1 ≤ pageSize) (hfits : Fits rowCount pageSize names)
    {db : SQLiteManager} (hperm : db.tablePageOffsets.Perm
      (SQLiteManager.opened.initPageOffsets sqlite pageSize).tablePageOffsets)
    {tableName : Text} {entry : Text × Int}
    (hfind : db.findTable tableName = some entry) :
    db.getBasePageId tableName = entry.2 ∧
      ∃ e ∈ tableExtents rowCount pageSize names,
        e.key = entry.1 ∧ e.offset = entry.2 := by
  refine ⟨by rw [SQLiteManager.getBasePageId, hfind], ?_⟩
  have hmem := hperm.subset (List.mem_of_find?_eq_some hfind)
  rw [h.initPageOffsets_eq hsize hfits rfl] at hmem
  obtain ⟨e, he, rfl⟩ := List.mem_map.mp hmem
  exact ⟨e, he, rfl, rfl⟩

end Catalogue

/-! ## Queries -/

/-- A sequence from the start of an extent stays inside it exactly when the
records fit into its pages. -/
theorem pages_contained_iff (hsize : 1 ≤ pageSize) {e : Extent Text}
    (hoffset : 0 ≤ e.offset) (hpages : 1 ≤ e.size)
    (hend : e.offset + e.size < 2 ^ 31) {recordCount : Int}
    (hcount : 0 < recordCount) :
    (∀ p ∈ generatePageSequence recordCount pageSize e.offset, e.Contains p) ↔
      recordCount ≤ pageSize * e.size := by
  rw [← ceilDiv_le_iff hsize]
  constructor
  · intro h
    by_contra hlt
    -- the first page behind the extent is still of type `int`
    have hbehind : int32 (e.offset + e.size.toNat) = e.offset + e.size := by
      rw [Int.toNat_of_nonneg (by omega)]
      exact int32_of_nonneg (by omega) hend
    have hpage := h (e.offset + e.size) (by
      rw [mem_generatePageSequence hsize hcount]
      exact ⟨e.size.toNat, by omega, hbehind⟩)
    exact absurd hpage.2 (Int.lt_irrefl _)
  · intro hle p hp
    rw [mem_generatePageSequence hsize hcount] at hp
    obtain ⟨i, hi, rfl⟩ := hp
    rw [int32_of_nonneg (by omega) (by omega)]
    exact ⟨by omega, by omega⟩

/-- The pages of a query stay inside the range of its table exactly when its
result fits into the pages reserved for the table.  Two queries for which this
holds, anchored at different tables, share no page. -/
theorem page_attribution (hcat : Catalogue sqlite names rowCount)
    (hsize : 1 ≤ pageSize) (hfits : Fits rowCount pageSize names)
    {db : SQLiteManager} (hperm : db.tablePageOffsets.Perm
      (SQLiteManager.opened.initPageOffsets sqlite pageSize).tablePageOffsets)
    {sql₁ sql₂ : Text} {entry₁ entry₂ : Text × Int}
    (hfind₁ : db.findTable (extractTableName sql₁) = some entry₁)
    (hfind₂ : db.findTable (extractTableName sql₂) = some entry₂)
    (hne : entry₁.1 ≠ entry₂.1) {recordCount₁ recordCount₂ : Int}
    (hpos₁ : 0 < recordCount₁) (hpos₂ : 0 < recordCount₂) :
    ((∀ p ∈ db.queryPages pageSize sql₁ recordCount₁,
        entry₁.2 ≤ p ∧
          p < entry₁.2 + reservedPages rowCount pageSize entry₁.1) ↔
      recordCount₁ ≤ pageSize * reservedPages rowCount pageSize entry₁.1) ∧
    (recordCount₁ ≤ pageSize * reservedPages rowCount pageSize entry₁.1 →
      recordCount₂ ≤ pageSize * reservedPages rowCount pageSize entry₂.1 →
      (db.queryPages pageSize sql₁ recordCount₁).Disjoint
        (db.queryPages pageSize sql₂ recordCount₂)) := by
  obtain ⟨hbase₁, e₁, he₁, hkey₁, hoffset₁⟩ :=
    hcat.exists_extent_of_findTable hsize hfits hperm hfind₁
  obtain ⟨hbase₂, e₂, he₂, hkey₂, hoffset₂⟩ :=
    hcat.exists_extent_of_findTable hsize hfits hperm hfind₂
  obtain ⟨hsize₁, hsome₁, hstart₁, hend₁⟩ := mem_tableExtents he₁
  obtain ⟨hsize₂, hsome₂, hstart₂, hend₂⟩ := mem_tableExtents he₂
  have hinside₁ := pages_contained_iff hsize hstart₁ hsome₁
    (hend₁.trans_lt hfits.pages_lt) hpos₁
  have hinside₂ := pages_contained_iff hsize hstart₂ hsome₂
    (hend₂.trans_lt hfits.pages_lt) hpos₂
  rw [SQLiteManager.queryPages, SQLiteManager.queryPages, hbase₁, hbase₂,
    ← hkey₁, ← hkey₂, ← hsize₁, ← hsize₂, ← hoffset₁, ← hoffset₂]
  refine ⟨hinside₁, ?_⟩
  intro hfit₁ hfit₂ p hp₁ hp₂
  have heq := eq_of_contains_tableExtents he₁ he₂
    (hinside₁.mpr hfit₁ p hp₁) (hinside₂.mpr hfit₂ p hp₂)
  exact hne (by rw [← hkey₁, ← hkey₂, heq])

/-! ## A result that does not fit -/

/-- A row with one cell. -/
def singleCell (cell : Text) : CallbackRow where
  argv := [some cell]
  colNames := [none]
  length_eq := rfl

/-- A database with the given tables, which answers queries for their names and
counts only. -/
def countedTables (names : List Text) (rowCount : Text → Option ℕ) : Sqlite :=
  fun sql =>
    if sql = tableNamesSql then
      { rows := names.map singleCell, rc := SQLITE_OK }
    else
      match names.find? (fun table => countSql table = sql) with
      | some table =>
          match rowCount table with
          | some n => { rows := [singleCell (Text.ofInt n)], rc := SQLITE_OK }
          | none => { rows := [], rc := 1 }
      | none => { rows := [], rc := 1 }

theorem countSql_injective : Function.Injective countSql := by
  intro table table' heq
  exact List.append_cancel_left (List.append_cancel_right heq)

theorem tableNames_countedTables (names : List Text)
    (rowCount : Text → Option ℕ) :
    tableNames (countedTables names rowCount) = some names := by
  have hcells : names.filterMap (fun name =>
      (singleCell name).argv.head?.join) = names :=
    List.filterMap_some
  simp only [tableNames, countedTables, if_true, ne_eq, not_true_eq_false,
    if_false, List.filterMap_map, Function.comp_def, hcells]

theorem counts_countedTables {names : List Text} (rowCount : Text → Option ℕ)
    {table : Text} (htable : table ∈ names) :
    Counts (countedTables names rowCount) table (rowCount table) := by
  have hfound : names.find? (fun t => countSql t = countSql table) =
      some table := by
    cases hfind : names.find? (fun t => countSql t = countSql table) with
    | none => exact absurd (List.find?_eq_none.mp hfind table htable) (by simp)
    | some t =>
        have ht : countSql t = countSql table := by
          simpa using List.find?_some hfind
        rw [countSql_injective ht]
  have hresponse : countedTables names rowCount (countSql table) =
      match rowCount table with
      | some n => { rows := [singleCell (Text.ofInt n)], rc := SQLITE_OK }
      | none => { rows := [], rc := 1 } := by
    rw [countedTables, if_neg (countSql_ne_tableNamesSql table), hfound]
  cases hcount : rowCount table with
  | none =>
      rw [hcount] at hresponse
      rw [Counts, hresponse]
      decide
  | some n =>
      rw [hcount] at hresponse
      rw [Counts, hresponse]
      exact ⟨rfl, _, rfl, rfl⟩

/-- The tables `courses` and `enrollments`, of five rows each. -/
def twoTables : Sqlite :=
  countedTables ["courses".toList, "enrollments".toList] (fun _ => some 5)

theorem catalogue_twoTables : Catalogue twoTables
    ["courses".toList, "enrollments".toList] (fun _ => some 5) where
  names_eq := tableNames_countedTables _ _
  nodup_names := by decide
  counts _ htable := counts_countedTables _ htable

theorem fits_twoTables : Fits (fun _ => some 5) 5
    ["courses".toList, "enrollments".toList] where
  rows_lt table _ n hn := by
    obtain rfl := Option.some.inj hn
    decide
  pages_lt := by decide

/-- The registry that the two tables get with five records per page. -/
def twoTablesRegistry : SQLiteManager :=
  SQLiteManager.opened.initPageOffsets twoTables 5

theorem twoTablesRegistry_eq : twoTablesRegistry.tablePageOffsets =
    [("courses".toList, 0), ("enrollments".toList, 1)] := by
  rw [twoTablesRegistry,
    catalogue_twoTables.initPageOffsets_eq (by decide) fits_twoTables rfl]
  decide

theorem findTable_twoTables {tableName : Text} {entry : Text × Int}
    (h : ([("courses".toList, 0), ("enrollments".toList, 1)] :
      List (Text × Int)).find?
        (fun entry => Text.lower entry.1 = Text.lower tableName) = some entry) :
    twoTablesRegistry.findTable tableName = some entry := by
  rw [SQLiteManager.findTable, twoTablesRegistry_eq]
  exact h

/-- A join anchored at `courses` that returns six records requests the page of
`enrollments`. -/
theorem join_shares_page :
    Catalogue twoTables ["courses".toList, "enrollments".toList]
      (fun _ => some 5) ∧
    twoTablesRegistry.findTable
        (extractTableName "SELECT * FROM courses c JOIN enrollments e;".toList) =
      some ("courses".toList, 0) ∧
    twoTablesRegistry.findTable
        (extractTableName "SELECT * FROM enrollments;".toList) =
      some ("enrollments".toList, 1) ∧
    1 ∈ twoTablesRegistry.queryPages 5
      "SELECT * FROM courses c JOIN enrollments e;".toList 6 ∧
    1 ∈ twoTablesRegistry.queryPages 5 "SELECT * FROM enrollments;".toList 5 := by
  have hcourses : twoTablesRegistry.findTable
      (extractTableName "SELECT * FROM courses c JOIN enrollments e;".toList) =
        some ("courses".toList, 0) := findTable_twoTables (by decide)
  have henrollments : twoTablesRegistry.findTable
      (extractTableName "SELECT * FROM enrollments;".toList) =
        some ("enrollments".toList, 1) := findTable_twoTables (by decide)
  refine ⟨catalogue_twoTables, hcourses, henrollments, ?_, ?_⟩
  · rw [SQLiteManager.queryPages, SQLiteManager.getBasePageId, hcourses]
    decide
  · rw [SQLiteManager.queryPages, SQLiteManager.getBasePageId, henrollments]
    decide

theorem page_attribution_twoTables :
    (twoTablesRegistry.queryPages 5
        "SELECT * FROM courses c WHERE c.credits=4;".toList 3).Disjoint
      (twoTablesRegistry.queryPages 5
        "SELECT * FROM enrollments;".toList 5) := by
  have hcourses : twoTablesRegistry.findTable (extractTableName
      "SELECT * FROM courses c WHERE c.credits=4;".toList) =
        some ("courses".toList, 0) := findTable_twoTables (by decide)
  have henrollments : twoTablesRegistry.findTable (extractTableName
      "SELECT * FROM enrollments;".toList) =
        some ("enrollments".toList, 1) := findTable_twoTables (by decide)
  have hattribution := page_attribution catalogue_twoTables
    (by decide : (1 : Int) ≤ 5) fits_twoTables (List.Perm.refl _) hcourses
    henrollments (by decide) (by decide : (0 : Int) < 3)
    (by decide : (0 : Int) < 5)
  exact hattribution.2 (by decide) (by decide)

end BufferSim

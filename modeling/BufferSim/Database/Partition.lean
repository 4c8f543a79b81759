import BufferSim.Database.Attribution
import Mathlib.Data.List.Nodup

/-!
# The partition of the page space

The registry divides the page ids from zero up to the total among the tables
whose count succeeds: in the order of their names, without a gap, and with the
number of pages that a scan of the table requests.  A table whose count fails
takes no pages, an empty one takes a page of its own.

The number of rows is read into an `int`.  A larger table makes the next page
id negative, even where the pages of all tables could be numbered.
-/

namespace BufferSim

open Cxx Allocation

/-- The tables of a database and their numbers of rows.  SQLite does not accept
two names that differ in case only. -/
structure Tables (sqlite : Sqlite) (names : List Text)
    (rowCount : Text → Option ℕ) : Prop where
  names_eq : tableNames sqlite = some names
  nodup_lower : (names.map Text.lower).Nodup
  counts : ∀ table ∈ names, Counts sqlite table (rowCount table)

/-- The value of `nextPageId` after the loop. -/
def nextPageId (sqlite : Sqlite) (pageSize : Int) (names : List Text) : Int :=
  (names.foldl (reserveTable sqlite pageSize) ([], 0)).2

/-- The extents divide the page ids from zero up to `total` among the tables. -/
structure Partition (rowCount : Text → Option ℕ) (pageSize : Int)
    (names : List Text) (total : Int) (extents : List (Extent Text)) :
    Prop where
  /-- Exactly the tables whose count succeeds have an extent. -/
  keys_eq : extents.map Extent.key =
    names.filter (fun table => (rowCount table).isSome)
  size_eq : ∀ e ∈ extents, ∃ n, rowCount e.key = some n ∧
    e.size = neededPages pageSize n
  ordered : extents.Pairwise (fun a b => a.offset + a.size ≤ b.offset)
  disjoint : ∀ a ∈ extents, ∀ b ∈ extents, ∀ p,
    a.Contains p → b.Contains p → a = b
  cover : ∀ p, (∃ e ∈ extents, e.Contains p) ↔ 0 ≤ p ∧ p < total

/-- The registry, look-ups in it and scans of the tables go by one partition of
the page space. -/
structure PageSpacePartitioned (sqlite : Sqlite) (pageSize : Int)
    (names : List Text) (rowCount : Text → Option ℕ) (registry : SQLiteManager)
    (extents : List (Extent Text)) : Prop where
  registry_eq : (registry.initPageOffsets sqlite pageSize).tablePageOffsets =
    extents.map (fun e => (e.key, e.offset))
  next_eq : nextPageId sqlite pageSize names = pageTotal rowCount pageSize names
  partition : Partition rowCount pageSize names
    (pageTotal rowCount pageSize names) extents
  /-- Every order of an iteration and every spelling of a name. -/
  lookup : ∀ db : SQLiteManager, db.tablePageOffsets.Perm
      (registry.initPageOffsets sqlite pageSize).tablePageOffsets →
    ∀ e ∈ extents, ∀ tableName, Text.lower tableName = Text.lower e.key →
      db.getBasePageId tableName = e.offset
  /-- A query that returns all rows of a table. -/
  scan : ∀ e ∈ extents, ∀ result : QueryResult, result.rows ≠ [] →
    rowCount e.key = some result.rows.length →
      generatePageSequence result.recordCount pageSize e.offset = e.toList

variable {sqlite : Sqlite} {pageSize : Int} {names : List Text}
  {rowCount : Text → Option ℕ}

/-! ## The extents of the tables -/

theorem map_fst_pageRequests (rowCount : Text → Option ℕ) (pageSize : Int)
    (names : List Text) :
    (pageRequests rowCount pageSize names).map Prod.fst =
      names.filter (fun table => (rowCount table).isSome) := by
  induction names with
  | nil => rfl
  | cons table names ih =>
      cases hcount : rowCount table with
      | none => simpa [pageRequests, hcount] using ih
      | some n => simpa [pageRequests, hcount] using ih

/-- Consecutive extents of the needed sizes partition the page space. -/
theorem partition_tableExtents (rowCount : Text → Option ℕ) (pageSize : Int)
    (names : List Text) :
    Partition rowCount pageSize names (pageTotal rowCount pageSize names)
      (tableExtents rowCount pageSize names) := by
  have hpages : ∀ r ∈ pageRequests rowCount pageSize names, 0 ≤ r.2 :=
    fun r hr => nonneg_of_mem_pageRequests hr
  constructor
  · exact (map_key_place _ _).trans (map_fst_pageRequests _ _ _)
  · intro e he
    exact (mem_pageRequests (mem_requests_of_mem_place he)).2
  · exact pairwise_place 0 hpages
  · intro a ha b hb p hap hbp
    exact eq_of_contains_tableExtents ha hb hap hbp
  · exact fun p => exists_contains_iff 0 hpages p

namespace Tables

theorem catalogue (h : Tables sqlite names rowCount) :
    Catalogue sqlite names rowCount where
  names_eq := h.names_eq
  nodup_names := List.Nodup.of_map Text.lower h.nodup_lower
  counts := h.counts

theorem nextPageId_eq (h : Tables sqlite names rowCount) (hsize : 1 ≤ pageSize)
    (hfits : Fits rowCount pageSize names) :
    nextPageId sqlite pageSize names = pageTotal rowCount pageSize names := by
  have hreservations := h.catalogue.reservations_eq hsize hfits.rows_lt
  have hpages : ∀ r ∈ reservations sqlite pageSize names, 0 ≤ r.2 := by
    rw [hreservations]
    exact fun r hr => nonneg_of_mem_pageRequests hr
  have hend : placeEnd 0 (reservations sqlite pageSize names) < 2 ^ 31 := by
    rw [hreservations]
    exact hfits.pages_lt
  rw [nextPageId, foldl_reserveTable_nil sqlite pageSize
    h.catalogue.nodup_names hpages hend, hreservations, pageTotal]

/-- The keys of the registry are distinct up to case. -/
theorem nodup_lower_keys (h : Tables sqlite names rowCount) (pageSize : Int) :
    ((tableExtents rowCount pageSize names).map
      (fun e => Text.lower e.key)).Nodup := by
  have hsub : ((names.filter
      (fun table => (rowCount table).isSome)).map Text.lower).Nodup :=
    h.nodup_lower.sublist (List.filter_sublist.map Text.lower)
  rw [← (partition_tableExtents rowCount pageSize names).keys_eq,
    List.map_map] at hsub
  exact hsub

end Tables

/-! ## Look-ups in any order -/

/-- A name finds the entry that it agrees with up to case, when the keys of the
registry are distinct up to case. -/
theorem SQLiteManager.getBasePageId_eq {db : SQLiteManager}
    (hnodup : (db.tablePageOffsets.map
      (fun entry => Text.lower entry.1)).Nodup)
    {entry : Text × Int} (hentry : entry ∈ db.tablePageOffsets)
    {tableName : Text} (hname : Text.lower tableName = Text.lower entry.1) :
    db.getBasePageId tableName = entry.2 := by
  have hsome : (db.findTable tableName).isSome := by
    rw [SQLiteManager.findTable, List.find?_isSome]
    exact ⟨entry, hentry, by simp [hname]⟩
  obtain ⟨found, hfound⟩ := Option.isSome_iff_exists.mp hsome
  have hkey : Text.lower found.1 = Text.lower tableName := by
    simpa using List.find?_some hfound
  have heq : found = entry :=
    List.inj_on_of_nodup_map hnodup (List.mem_of_find?_eq_some hfound) hentry
      (hkey.trans hname)
  rw [SQLiteManager.getBasePageId, hfound, heq]

/-- Every iteration order finds the extent of a table. -/
theorem Tables.getBasePageId_eq (h : Tables sqlite names rowCount)
    (hsize : 1 ≤ pageSize) (hfits : Fits rowCount pageSize names)
    {registry db : SQLiteManager} (hopen : registry.isOpen = true)
    (hperm : db.tablePageOffsets.Perm
      (registry.initPageOffsets sqlite pageSize).tablePageOffsets)
    {e : Extent Text} (he : e ∈ tableExtents rowCount pageSize names)
    {tableName : Text} (hname : Text.lower tableName = Text.lower e.key) :
    db.getBasePageId tableName = e.offset := by
  rw [h.catalogue.initPageOffsets_eq hsize hfits hopen] at hperm
  have hnodup : (db.tablePageOffsets.map
      (fun entry => Text.lower entry.1)).Nodup := by
    rw [(hperm.map _).nodup_iff, List.map_map]
    exact h.nodup_lower_keys pageSize
  have hentry : (e.key, e.offset) ∈ db.tablePageOffsets :=
    hperm.mem_iff.mpr (List.mem_map_of_mem he)
  exact SQLiteManager.getBasePageId_eq hnodup hentry hname

/-! ## Scans -/

/-- A scan of a table requests the pages of its extent. -/
theorem generatePageSequence_eq_toList (hsize : 1 ≤ pageSize) {e : Extent Text}
    (hoffset : 0 ≤ e.offset) (hend : e.offset + e.size < 2 ^ 31) {n : ℕ}
    (hcount : 1 ≤ n) (hpages : e.size = neededPages pageSize n) :
    generatePageSequence n pageSize e.offset = e.toList := by
  have hpos : 1 ≤ ceilDiv n pageSize :=
    one_le_ceilDiv hsize (by exact_mod_cast hcount)
  have hceil : ceilDiv n pageSize = e.size := by
    rw [hpages, neededPages]
    omega
  rw [generatePageSequence, if_neg (by omega), hceil, Extent.toList]
  refine List.map_congr_left fun i hi => ?_
  rw [List.mem_range] at hi
  exact int32_of_nonneg (by omega) (by omega)

/-- The registry partitions the page space among the tables whose count
succeeds, if the counts and the total fit into an `int`.  Whatever the order of
an iteration is, every spelling of such a name finds the first page of its
table, and a query that returns all its rows requests all its pages. -/
theorem page_space_partition (h : Tables sqlite names rowCount)
    (hsize : 1 ≤ pageSize) (hfits : Fits rowCount pageSize names)
    {registry : SQLiteManager} (hopen : registry.isOpen = true) :
    PageSpacePartitioned sqlite pageSize names rowCount registry
      (tableExtents rowCount pageSize names) where
  registry_eq := h.catalogue.initPageOffsets_eq hsize hfits hopen
  next_eq := h.nextPageId_eq hsize hfits
  partition := partition_tableExtents rowCount pageSize names
  lookup db hperm e he tableName hname :=
    h.getBasePageId_eq hsize hfits hopen hperm he hname
  scan e he result hne hcount := by
    obtain ⟨hmem, n, hn, hpages⟩ := mem_pageRequests
      (mem_requests_of_mem_place he)
    obtain rfl : n = result.rows.length :=
      Option.some.inj (hn.symm.trans hcount)
    obtain ⟨-, -, hoffset, hend⟩ := mem_tableExtents he
    have hlt : result.rows.length < 2 ^ 31 := hfits.rows_lt e.key hmem _ hn
    have hrecords : result.recordCount = result.rows.length :=
      int32_of_nonneg (by omega) (by exact_mod_cast hlt)
    rw [hrecords]
    exact generatePageSequence_eq_toList hsize hoffset
      (hend.trans_lt hfits.pages_lt) (List.length_pos_iff.mpr hne) hpages

/-! ## A table with an error and an empty one -/

/-- `Courses` has seven rows, `library` none and `students` twelve; `staff`
cannot be counted. -/
def fourCounts (table : Text) : Option ℕ :=
  if table = "Courses".toList then some 7
  else if table = "library".toList then some 0
  else if table = "students".toList then some 12
  else none

def fourTables : List Text :=
  ["Courses", "library", "staff", "students"].map String.toList

theorem tables_fourTables :
    Tables (countedTables fourTables fourCounts) fourTables fourCounts where
  names_eq := tableNames_countedTables _ _
  nodup_lower := by decide
  counts _ htable := counts_countedTables _ htable

theorem fits_fourTables : Fits fourCounts 5 fourTables where
  rows_lt := by decide
  pages_lt := by decide

theorem page_space_partition_four :
    PageSpacePartitioned (countedTables fourTables fourCounts) 5 fourTables
      fourCounts SQLiteManager.opened
      [{ key := "Courses".toList, offset := 0, size := 2 },
        { key := "library".toList, offset := 2, size := 1 },
        { key := "students".toList, offset := 3, size := 3 }] ∧
    generatePageSequence 12 5 ((SQLiteManager.opened.initPageOffsets
      (countedTables fourTables fourCounts) 5).getBasePageId
        "STUDENTS".toList) = [3, 4, 5] := by
  have hpartition := page_space_partition tables_fourTables
    (by decide : (1 : Int) ≤ 5) fits_fourTables
    (rfl : SQLiteManager.opened.isOpen = true)
  have hextents : tableExtents fourCounts 5 fourTables =
      [{ key := "Courses".toList, offset := 0, size := 2 },
        { key := "library".toList, offset := 2, size := 1 },
        { key := "students".toList, offset := 3, size := 3 }] := by decide
  rw [hextents] at hpartition
  refine ⟨hpartition, ?_⟩
  rw [hpartition.lookup _ (List.Perm.refl _)
    { key := "students".toList, offset := 3, size := 3 } (by simp)
    "STUDENTS".toList (by decide)]
  decide

/-! ## A table that is too large to be counted -/

/-- `events` has 3000000000 rows and `students` has five. -/
def largeCounts (table : Text) : Option ℕ :=
  if table = "events".toList then some 3000000000 else some 5

def largeTables : List Text :=
  ["events", "students"].map String.toList

theorem tables_largeTables :
    Tables (countedTables largeTables largeCounts) largeTables largeCounts where
  names_eq := tableNames_countedTables _ _
  nodup_lower := by decide
  counts _ htable := counts_countedTables _ htable

theorem registry_largeTables :
    (SQLiteManager.opened.initPageOffsets
      (countedTables largeTables largeCounts) 5).tablePageOffsets =
        [("events".toList, 0), ("students".toList, -258993459)] := by
  have hevents : countRows (countedTables largeTables largeCounts)
      "events".toList = some (int32 3000000000) := by
    rw [countRows_eq (tables_largeTables.counts _ (by decide))]
    exact congrArg some (Text.atoi_ofInt_of_long (by decide) (by decide))
  have hstudents : countRows (countedTables largeTables largeCounts)
      "students".toList = some 5 := by
    rw [countRows_eq (tables_largeTables.counts _ (by decide))]
    exact congrArg some (Text.atoi_ofInt (by decide) (by decide))
  have hnames : tableNames (countedTables largeTables largeCounts) =
      some ["events".toList, "students".toList] := tables_largeTables.names_eq
  simp only [SQLiteManager.initPageOffsets, SQLiteManager.opened, hnames,
    Bool.not_true, Bool.false_eq_true, if_false, List.foldl_cons,
    List.foldl_nil, reserveTable, hevents, hstudents]
  decide

/-- The pages of the two tables could be numbered, but the count of `events`
becomes negative, and `students` gets page ids below zero. -/
theorem page_space_not_partitioned :
    Tables (countedTables largeTables largeCounts) largeTables largeCounts ∧
    pageTotal largeCounts 5 largeTables < 2 ^ 31 ∧
    ¬ ∃ extents, PageSpacePartitioned (countedTables largeTables largeCounts)
      5 largeTables largeCounts SQLiteManager.opened extents := by
  refine ⟨tables_largeTables, by decide, ?_⟩
  rintro ⟨extents, h⟩
  have hentry : ("students".toList, -258993459) ∈
      extents.map (fun e : Extent Text => (e.key, e.offset)) := by
    rw [← h.registry_eq, registry_largeTables]
    exact List.mem_cons_of_mem _ List.mem_cons_self
  obtain ⟨e, he, heq⟩ := List.mem_map.mp hentry
  have hoffset : e.offset = -258993459 := congrArg Prod.snd heq
  obtain ⟨n, -, hsize⟩ := h.partition.size_eq e he
  have hpages : 1 ≤ e.size := hsize ▸ le_max_left _ _
  -- the first page of the table lies outside of the page space
  have hfirst := (h.partition.cover e.offset).mp
    ⟨e, he, Int.le_refl _, by omega⟩
  omega

end BufferSim

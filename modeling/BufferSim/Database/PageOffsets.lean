import BufferSim.Allocation.Extents
import BufferSim.Database.SQLiteManager

/-!
# The page registry

At start-up `initPageOffsets` reserves consecutive page ids for every table of
the database, from the row counts of that moment.  A query is anchored at the
table whose name follows `FROM`; `getBasePageId` looks its first page up.

`initPageOffsets` lists the entries of the registry in the order in which it
adds them.  An iteration over the `unordered_map` may visit them in any other
order, so results about look-ups hold for every permutation of that list.

Row counts and page ids are of type `int`.  The registry is the one that is
meant as long as the pages of all tables can be numbered in that type.
-/

namespace BufferSim

open Cxx Allocation

/-- `std::ceil(static_cast<double>(n) / d)` for positive `d`, which is exact
for an `int`. -/
def ceilDiv (n d : Int) : Int :=
  -(-n / d)

/-- `tablePageOffsets_[table] = page;` -/
def assignOffset (offsets : List (Text × Int)) (table : Text) (page : Int) :
    List (Text × Int) :=
  if table ∈ offsets.map Prod.fst then
    offsets.map (fun entry => if entry.1 = table then (table, page) else entry)
  else offsets ++ [(table, page)]

/-! ## `initPageOffsets` -/

def tableNamesSql : Text :=
  "SELECT name FROM sqlite_master WHERE type='table' ORDER BY name;".toList

/-- The names that the query on `sqlite_master` delivers, unless it fails. -/
def tableNames (sqlite : Sqlite) : Option (List Text) :=
  let response := sqlite tableNamesSql
  if response.rc ≠ SQLITE_OK then none
  else some (response.rows.filterMap (fun row => row.argv.head?.join))

def countSql (table : Text) : Text :=
  "SELECT COUNT(*) FROM ".toList ++ table ++ ";".toList

theorem countSql_ne_tableNamesSql (table : Text) :
    countSql table ≠ tableNamesSql := by
  have hcount : (countSql table)[7]? = some 'C' := by
    unfold countSql
    rw [List.append_assoc, List.getElem?_append_left (by decide)]
    decide
  have hnames : tableNamesSql[7]? = some 'n' := by
    unfold tableNamesSql
    decide
  intro heq
  rw [heq, hnames] at hcount
  exact absurd hcount (by decide)

/-- The row count of a table, unless its query fails. -/
def countRows (sqlite : Sqlite) (table : Text) : Option Int :=
  let response := sqlite (countSql table)
  if response.rc ≠ SQLITE_OK then none
  else some (response.rows.foldl
    (fun rowCount row =>
      match row.argv with
      | some cell :: _ => Text.atoi cell
      | _ => rowCount)
    0)

/-- The pages reserved for a table; an empty table gets one. -/
def numPages (rowCount pageSize : Int) : Int :=
  let pages := ceilDiv rowCount pageSize
  if pages = 0 then 1 else pages

/-- One iteration of the loop over the table names. -/
def reserveTable (sqlite : Sqlite) (pageSize : Int)
    (state : List (Text × Int) × Int) (table : Text) :
    List (Text × Int) × Int :=
  let (offsets, nextPageId) := state
  match countRows sqlite table with
  | none => (offsets, nextPageId)
  | some rowCount =>
      (assignOffset offsets table nextPageId,
        int32 (nextPageId + numPages rowCount pageSize))

namespace SQLiteManager

/-- `SQLiteManager::initPageOffsets`. -/
def initPageOffsets (db : SQLiteManager) (sqlite : Sqlite) (pageSize : Int) :
    SQLiteManager :=
  if !db.isOpen then db
  else
    { db with
      tablePageOffsets :=
        match tableNames sqlite with
        | none => []
        | some names => (names.foldl (reserveTable sqlite pageSize) ([], 0)).1 }

/-- The first entry of the iteration whose key agrees with the name up to
case. -/
def findTable (db : SQLiteManager) (tableName : Text) : Option (Text × Int) :=
  db.tablePageOffsets.find?
    (fun entry => Text.lower entry.1 = Text.lower tableName)

/-- `SQLiteManager::getBasePageId`. -/
def getBasePageId (db : SQLiteManager) (tableName : Text) : Int :=
  match db.findTable tableName with
  | some entry => entry.2
  | none => 0

end SQLiteManager

/-- The characters of a table name in `extractTableName`. -/
def isNameChar (c : Char) : Bool :=
  !Text.isspace c && c != ',' && c != ';' && c != ')' && c != '('

/-- `SQLiteManager::extractTableName`. -/
def extractTableName (sql : Text) : Text :=
  let lower := Text.lower sql
  match Text.find "from".toList lower with
  | none => []
  | some pos =>
      let afterFrom := lower.drop (pos + 4)
      let start := pos + 4 + (afterFrom.takeWhile Text.isspace).length
      let length := ((lower.drop start).takeWhile isNameChar).length
      Text.substr sql start length

/-- `Helpers::generatePageSequence`. -/
def generatePageSequence (recordCount pageSize basePageId : Int) : List Int :=
  if recordCount ≤ 0 ∨ pageSize ≤ 0 then []
  else
    (List.range (ceilDiv recordCount pageSize).toNat).map
      (fun i : ℕ => int32 (basePageId + i))

/-- The pages that the main loop requests for a query. -/
def SQLiteManager.queryPages (db : SQLiteManager) (pageSize : Int) (sql : Text)
    (recordCount : Int) : List Int :=
  generatePageSequence recordCount pageSize
    (db.getBasePageId (extractTableName sql))

/-! ## Page counts -/

theorem ceilDiv_le_iff {n d m : Int} (hd : 1 ≤ d) :
    ceilDiv n d ≤ m ↔ n ≤ d * m := by
  have hfloor : -m ≤ -n / d ↔ -m * d ≤ -n := Int.le_ediv_iff_mul_le hd
  have hmul : -m * d = -(d * m) := by
    rw [Int.neg_mul, Int.mul_comm]
  rw [hmul] at hfloor
  rw [ceilDiv]
  omega

theorem one_le_ceilDiv {n d : Int} (hd : 1 ≤ d) (hn : 0 < n) :
    1 ≤ ceilDiv n d := by
  by_contra hlt
  have hzero : ceilDiv n d ≤ 0 := by omega
  rw [ceilDiv_le_iff hd] at hzero
  omega

/-- The pages of a sequence are counted up from its base page in an `int`. -/
theorem mem_generatePageSequence {recordCount pageSize basePageId p : Int}
    (hsize : 1 ≤ pageSize) (hcount : 0 < recordCount) :
    p ∈ generatePageSequence recordCount pageSize basePageId ↔
      ∃ i : ℕ, (i : Int) < ceilDiv recordCount pageSize ∧
        int32 (basePageId + i) = p := by
  rw [generatePageSequence, if_neg (by omega), List.mem_map]
  refine exists_congr fun i => and_congr_left fun _ => ?_
  rw [List.mem_range]
  omega

/-- A sequence requests as many pages as its records fill. -/
theorem length_generatePageSequence {recordCount pageSize : Int}
    (hsize : 1 ≤ pageSize) (hcount : 0 < recordCount) (basePageId : Int) :
    (generatePageSequence recordCount pageSize basePageId).length =
      (ceilDiv recordCount pageSize).toNat := by
  rw [generatePageSequence, if_neg (by omega), List.length_map,
    List.length_range]

/-! ## The registry as consecutive extents -/

/-- The tables whose count succeeds, with the pages that they need. -/
def reservations (sqlite : Sqlite) (pageSize : Int) (names : List Text) :
    List (Text × Int) :=
  names.filterMap (fun table =>
    (countRows sqlite table).map
      (fun rowCount => (table, numPages rowCount pageSize)))

/-- The loop over distinct names places the reservations one after the other, if
all their pages can be numbered. -/
theorem foldl_reserveTable (sqlite : Sqlite) (pageSize : Int)
    {names : List Text} (hnames : names.Nodup)
    {offsets : List (Text × Int)} {next : Int} (hnext : 0 ≤ next)
    (hpages : ∀ r ∈ reservations sqlite pageSize names, 0 ≤ r.2)
    (hend : placeEnd next (reservations sqlite pageSize names) < 2 ^ 31)
    (hfresh : ∀ table ∈ names, table ∉ offsets.map Prod.fst) :
    names.foldl (reserveTable sqlite pageSize) (offsets, next) =
      (offsets ++
          (place next (reservations sqlite pageSize names)).map
            (fun e => (e.key, e.offset)),
        placeEnd next (reservations sqlite pageSize names)) := by
  induction names generalizing offsets next with
  | nil => simp [reservations, placeEnd]
  | cons table names ih =>
      obtain ⟨htable, hnames⟩ := List.nodup_cons.mp hnames
      have hrest : ∀ t ∈ names, t ∉ offsets.map Prod.fst :=
        fun t ht => hfresh t (List.mem_cons_of_mem table ht)
      rw [List.foldl_cons]
      cases hcount : countRows sqlite table with
      | none =>
          have hskip : reservations sqlite pageSize (table :: names) =
              reservations sqlite pageSize names := by
            simp [reservations, hcount]
          rw [hskip] at hpages hend ⊢
          simp only [reserveTable, hcount]
          exact ih hnames hnext hpages hend hrest
      | some rowCount =>
          have hcons : reservations sqlite pageSize (table :: names) =
              (table, numPages rowCount pageSize) ::
                reservations sqlite pageSize names := by
            simp [reservations, hcount]
          rw [hcons] at hpages hend ⊢
          obtain ⟨hfirst, hpages'⟩ := List.forall_mem_cons.mp hpages
          have hend' : placeEnd (next + numPages rowCount pageSize)
              (reservations sqlite pageSize names) < 2 ^ 31 := hend
          have hle := le_placeEnd (next + numPages rowCount pageSize) hpages'
          have hnext' : 0 ≤ next + numPages rowCount pageSize :=
            Int.add_nonneg hnext hfirst
          have hsum : int32 (next + numPages rowCount pageSize) =
              next + numPages rowCount pageSize :=
            int32_of_nonneg hnext' (hle.trans_lt hend')
          have hnew : table ∉ offsets.map Prod.fst :=
            hfresh table List.mem_cons_self
          simp only [reserveTable, hcount, assignOffset, if_neg hnew, hsum]
          rw [ih hnames hnext' hpages' hend']
          · simp [place, placeEnd]
          · intro t ht
            have hne : t ≠ table := fun h => htable (h ▸ ht)
            simpa [hne] using hrest t ht

/-- The loop of `initPageOffsets`, from an empty registry and page zero on. -/
theorem foldl_reserveTable_nil (sqlite : Sqlite) (pageSize : Int)
    {names : List Text} (hnames : names.Nodup)
    (hpages : ∀ r ∈ reservations sqlite pageSize names, 0 ≤ r.2)
    (hend : placeEnd 0 (reservations sqlite pageSize names) < 2 ^ 31) :
    names.foldl (reserveTable sqlite pageSize) ([], 0) =
      ((place 0 (reservations sqlite pageSize names)).map
          (fun e => (e.key, e.offset)),
        placeEnd 0 (reservations sqlite pageSize names)) :=
  foldl_reserveTable sqlite pageSize hnames le_rfl hpages hend
    (fun _ _ => List.not_mem_nil)

/-- The registry of an open database lists the extents of its tables. -/
theorem SQLiteManager.initPageOffsets_eq {db : SQLiteManager}
    (hopen : db.isOpen = true) {sqlite : Sqlite} {names : List Text}
    (htables : tableNames sqlite = some names) (hnames : names.Nodup)
    {pageSize : Int}
    (hpages : ∀ r ∈ reservations sqlite pageSize names, 0 ≤ r.2)
    (hend : placeEnd 0 (reservations sqlite pageSize names) < 2 ^ 31) :
    (db.initPageOffsets sqlite pageSize).tablePageOffsets =
      (place 0 (reservations sqlite pageSize names)).map
        (fun e => (e.key, e.offset)) := by
  simp [SQLiteManager.initPageOffsets, hopen, htables,
    foldl_reserveTable_nil sqlite pageSize hnames hpages hend]

end BufferSim

import BufferSim.Utils.MetricsReport
import BufferSim.Utils.TableLayout

/-!
# Reading the display

`display.txt` is written for people, but its text determines what is shown.  The
labels of the head give the time, the SQL text and the record count, and the
line of dashes gives the widths of the columns, so that every cell is read from
its place in the line.

Spaces at the end of a cell cannot be told from the padding, newlines in a cell
cannot be told from the end of a row, and a line of the SQL text must not look
like the line with the record count.
-/

namespace BufferSim

open Cxx Layout

/-- What a report shows. -/
structure Shown where
  time : Text
  sql : Text
  recordCount : Int
  result : QueryResult
  deriving DecidableEq, Repr

/-! ## The reader -/

/-- The lengths of the groups of dashes, each of which is followed by two
spaces. -/
def readWidths : ℕ → Text → List ℕ
  | n, '-' :: rest => readWidths (n + 1) rest
  | n, ' ' :: ' ' :: rest => n :: readWidths 0 rest
  | _, _ => []

/-- The cells of a line, without the spaces at their ends. -/
def readCells : List ℕ → Text → List Text
  | [], _ => []
  | width :: widths, line =>
      (line.take (width + 2)).rdropWhile (· == ' ') ::
        readCells widths (line.drop (width + 2))

/-- The table from the lines behind the head.  The two empty lines at the end
are dropped. -/
def readTable : List Text → QueryResult
  | header :: dashes :: rest =>
      let widths := readWidths 0 dashes
      { columns := readCells widths header
        rows := rest.dropLast.dropLast.map (readCells widths) }
  | _ => QueryResult.empty

def timeLabel : Text := "  Query executed at: ".toList

def sqlLabel : Text := "  SQL: ".toList

def recordsLabel : Text := "  Records: ".toList

def rule : Text := "========================================".toList

def isSqlLine (line : Text) : Bool :=
  !recordsLabel.isPrefixOf line

/-- Read a report.  The SQL text ends before the line with the record count. -/
def readReport (t : Text) : Option Shown :=
  match t.splitOn '\n' with
  | _ :: time :: rest =>
      match rest.dropWhile isSqlLine with
      | records :: _ :: _ :: table => do
          return {
            time := ← labelled timeLabel time
            sql := ← labelled sqlLabel
              (['\n'].intercalate (rest.takeWhile isSqlLine))
            recordCount := Text.parseInt (← labelled recordsLabel records)
            result := readTable table }
      | _ => none
  | _ => none

/-! ## Widths and cells -/

theorem readWidths_replicate (n width : ℕ) (rest : Text) :
    readWidths n (List.replicate width '-' ++ rest) =
      readWidths (n + width) rest := by
  induction width generalizing n with
  | zero => rfl
  | succ width ih =>
      rw [List.replicate_succ, List.cons_append, readWidths, ih]
      congr 1
      omega

/-- The line of dashes tells the widths. -/
theorem readWidths_dashLine (widths : List ℕ) :
    readWidths 0 (dashLine widths) = widths := by
  induction widths with
  | nil => rfl
  | cons width widths ih =>
      have hline : dashLine (width :: widths) =
          List.replicate width '-' ++ (' ' :: ' ' :: dashLine widths) := by
        simp [dashLine]
      rw [hline, readWidths_replicate, Nat.zero_add, readWidths, ih]

/-- A cell that is read back from a padded line. -/
def Plain (cell : Text) : Prop :=
  '\n' ∉ cell ∧ cell.getLast? ≠ some ' '

instance : DecidablePred Plain :=
  fun cell => inferInstanceAs
    (Decidable ('\n' ∉ cell ∧ cell.getLast? ≠ some ' '))

theorem rdropWhile_setw {cell : Text} (hcell : cell.getLast? ≠ some ' ')
    (width : ℕ) :
    (Text.setw width cell).rdropWhile (· == ' ') = cell := by
  rw [Text.setw, List.rightpad, rdropWhile_append_replicate,
    List.rdropWhile_eq_self_iff]
  intro hne hspace
  rw [List.getLast?_eq_some_getLast hne] at hcell
  exact hcell (congrArg some (beq_iff_eq.mp hspace))

theorem readCells_paddedLine {widths : List ℕ} {cells : List Text}
    (hlength : cells.length = widths.length)
    (hfits : FitsColumns widths cells)
    (hplain : ∀ cell ∈ cells, cell.getLast? ≠ some ' ') :
    readCells widths (paddedLine widths cells) = cells := by
  induction widths generalizing cells with
  | nil =>
      obtain rfl := List.length_eq_zero_iff.mp hlength
      rfl
  | cons width widths ih =>
      obtain ⟨cell, cells, rfl⟩ := List.exists_cons_of_length_eq_add_one hlength
      obtain ⟨hcell, hrest⟩ := List.forall_mem_cons.mp hplain
      obtain ⟨hwidth, hfits'⟩ := fitsColumns_cons.mp hfits
      have hpad : (Text.setw (width + 2) cell).length = width + 2 := by
        rw [Text.setw, List.length_rightpad]
        omega
      have hline : paddedLine (width :: widths) (cell :: cells) =
          Text.setw (width + 2) cell ++ paddedLine widths cells := by
        simp [paddedLine]
      rw [hline, readCells, List.take_left' hpad, List.drop_left' hpad,
        rdropWhile_setw hcell, ih (Nat.succ.inj hlength) hfits' hrest]

/-! ## Tables -/

theorem fitsColumns_columns (result : QueryResult) :
    FitsColumns (columnWidths result) result.columns := by
  have hself : ∀ cells : List Text,
      FitsColumns (cells.map List.length) cells := by
    intro cells
    induction cells with
    | nil => simp
    | cons cell cells ih => exact fitsColumns_cons.mpr ⟨le_rfl, ih⟩
  exact (hself result.columns).foldl_widen result.rows

/-- Every row has a cell for each column, and all names and cells are read back
from their lines. -/
structure QueryResult.Readable (result : QueryResult) : Prop where
  rectangular : result.Rectangular
  plain : ∀ cells ∈ result.columns :: result.rows, ∀ cell ∈ cells, Plain cell

theorem readCells_line {result : QueryResult} (h : result.Readable)
    {cells : List Text} (hcells : cells ∈ result.columns :: result.rows) :
    readCells (columnWidths result) (paddedLine (columnWidths result) cells) =
      cells := by
  have hplain : ∀ cell ∈ cells, cell.getLast? ≠ some ' ' :=
    fun cell hcell => (h.plain cells hcells cell hcell).2
  rcases List.mem_cons.mp hcells with rfl | hrow
  · exact readCells_paddedLine (length_columnWidths result).symm
      (fitsColumns_columns result) hplain
  · have hlength := (h.rectangular cells hrow).trans
      (length_columnWidths result).symm
    exact readCells_paddedLine hlength (fitsColumns_of_mem hrow) hplain

theorem readTable_tableLines {result : QueryResult} (h : result.Readable) :
    readTable (tableLines result ++ [[]]) = result := by
  have hlines : tableLines result ++ [[]] =
      paddedLine (columnWidths result) result.columns ::
        dashLine (columnWidths result) ::
        (result.rows.map (paddedLine (columnWidths result)) ++ [[]] ++ [[]]) :=
    rfl
  have hrows : (result.rows.map (paddedLine (columnWidths result))).map
      (readCells (columnWidths result)) = result.rows := by
    rw [List.map_map]
    refine (List.map_congr_left fun row hrow => ?_).trans (List.map_id _)
    exact readCells_line h (List.mem_cons_of_mem _ hrow)
  rw [hlines, readTable, readWidths_dashLine, List.dropLast_concat,
    List.dropLast_concat, hrows, readCells_line h List.mem_cons_self]

/-! ## Reports -/

/-- The lines of the body of a report. -/
def bodyLines (result : QueryResult) : List Text :=
  if result.rows = [] then ["(No results)".toList, [], []]
  else tableLines result ++ [[]]

theorem splitOn_body {result : QueryResult} (h : result.Readable) :
    (if result.rows = [] then "(No results)\n\n".toList
      else resultTable result).splitOn '\n' = bodyLines result := by
  rw [bodyLines]
  split
  · decide
  · exact splitOn_resultTable fun cells hcells cell hcell =>
      (h.plain cells hcells cell hcell).1

/-- What a report shows of a result: a result without rows is shown without
columns. -/
def shownResult (result : QueryResult) : QueryResult :=
  if result.rows = [] then QueryResult.empty else result

theorem readTable_bodyLines {result : QueryResult} (h : result.Readable) :
    readTable (bodyLines result) = shownResult result := by
  rw [bodyLines, shownResult]
  split
  · rfl
  · exact readTable_tableLines h

theorem reportHead_eq (timeBuf sql : Text) (result : QueryResult) :
    reportHead timeBuf sql result =
      rule ++ '\n' :: ((timeLabel ++ timeBuf) ++ '\n' ::
        ((sqlLabel ++ sql) ++ '\n' ::
          ((recordsLabel ++ Text.ofInt result.recordCount) ++ '\n' ::
            (rule ++ ['\n', '\n'])))) := by
  unfold reportHead timeLabel sqlLabel recordsLabel rule
  simp

/-- The lines of a report; the SQL text can have several. -/
theorem splitOn_queryReport {timeBuf : Text} (htime : Single timeBuf)
    (sql : Text) {result : QueryResult} (h : result.Readable) :
    (queryReport timeBuf sql result).splitOn '\n' =
      rule :: (timeLabel ++ timeBuf) ::
        ((sqlLabel ++ sql).splitOn '\n' ++
          ((recordsLabel ++ Text.ofInt result.recordCount) :: rule :: [] ::
            bodyLines result)) := by
  have hrule : '\n' ∉ rule := by decide
  have htimeLine : '\n' ∉ timeLabel ++ timeBuf :=
    single_append (by decide) htime
  have hrecords : '\n' ∉ recordsLabel ++ Text.ofInt result.recordCount :=
    single_append (by decide) (single_ofInt _)
  have hempty : '\n' ∉ ([] : Text) := List.not_mem_nil
  rw [queryReport, reportHead_eq, ← splitOn_body h]
  set body := if result.rows = [] then "(No results)\n\n".toList
    else resultTable result
  set records := recordsLabel ++ Text.ofInt result.recordCount
  have hlines : (rule ++ '\n' :: ((timeLabel ++ timeBuf) ++ '\n' ::
      ((sqlLabel ++ sql) ++ '\n' :: (records ++ '\n' ::
        (rule ++ ['\n', '\n']))))) ++ body =
      rule ++ '\n' :: ((timeLabel ++ timeBuf) ++ '\n' ::
        ((sqlLabel ++ sql) ++ '\n' :: (records ++ '\n' ::
          (rule ++ '\n' :: ([] ++ '\n' :: body))))) := by
    simp only [List.append_assoc, List.cons_append, List.nil_append]
  rw [hlines, List.splitOn_append_cons_self_of_not_mem hrule,
    List.splitOn_append_cons_self_of_not_mem htimeLine,
    List.splitOn_append_cons_self,
    List.splitOn_append_cons_self_of_not_mem hrecords,
    List.splitOn_append_cons_self_of_not_mem hrule,
    List.splitOn_append_cons_self_of_not_mem hempty]

/-- No line of the SQL text looks like the line with the record count. -/
def NoRecordsLine (sql : Text) : Prop :=
  ∀ line ∈ sql.splitOn '\n', isSqlLine line = true

instance : DecidablePred NoRecordsLine :=
  fun sql => inferInstanceAs
    (Decidable (∀ line ∈ sql.splitOn '\n', isSqlLine line = true))

/-- Nor does the first line with its label. -/
theorem isSqlLine_label (line : Text) : isSqlLine (sqlLabel ++ line) = true := by
  rfl

theorem NoRecordsLine.with_label {sql : Text} (h : NoRecordsLine sql) :
    ∀ line ∈ (sqlLabel ++ sql).splitOn '\n', isSqlLine line = true := by
  have hlabel : '\n' ∉ sqlLabel := by decide
  obtain ⟨first, rest, hsplit⟩ :=
    List.exists_cons_of_ne_nil (List.splitOn_ne_nil '\n' sql)
  rw [NoRecordsLine, hsplit] at h
  rw [splitOn_append_left hlabel, hsplit, List.modifyHead_cons]
  exact List.forall_mem_cons.mpr
    ⟨isSqlLine_label first, (List.forall_mem_cons.mp h).2⟩

theorem isSqlLine_recordsLabel (count : Text) :
    isSqlLine (recordsLabel ++ count) = false := by
  rw [isSqlLine, Bool.not_eq_false']
  exact List.isPrefixOf_iff_prefix.mpr (List.prefix_append _ _)

/-- Reading a report gives back the time, the SQL text, the record count and the
result. -/
theorem readReport_queryReport {timeBuf sql : Text} (htime : Single timeBuf)
    (hsql : NoRecordsLine sql) {result : QueryResult} (h : result.Readable) :
    readReport (queryReport timeBuf sql result) =
      some { time := timeBuf
             sql := sql
             recordCount := result.recordCount
             result := shownResult result } := by
  have hlines := hsql.with_label
  have hrecords : ¬ isSqlLine
      (recordsLabel ++ Text.ofInt result.recordCount) = true := by
    rw [isSqlLine_recordsLabel]
    exact Bool.false_ne_true
  rw [readReport, splitOn_queryReport htime sql h]
  simp only []
  rw [List.dropWhile_append_of_pos hlines, List.takeWhile_append_of_pos hlines,
    List.dropWhile_cons_of_neg hrecords, List.takeWhile_cons_of_neg hrecords,
    List.append_nil, List.intercalate_splitOn]
  simp only [labelled_append, Option.bind_eq_bind, Option.bind_some,
    Text.parseInt_ofInt, readTable_bodyLines h]
  rfl

end BufferSim

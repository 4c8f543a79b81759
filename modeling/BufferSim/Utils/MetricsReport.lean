import BufferSim.Layout.Fields
import BufferSim.Buffer.Ratios
import BufferSim.Utils.Numerals

/-!
# The report on the metrics

`Helpers::dumpMetricsToFile` writes the counters and ratios of all managers to
`metrics.txt` when the program ends.  A reader that looks for the labels of the
report recovers every number of every manager.
-/

namespace BufferSim

open Cxx Layout

/-! ## Writing -/

/-- `ofs << label << value << "\n";` -/
def printField (label : String) (value : Text) : Text :=
  label.toList ++ value ++ "\n".toList

/-- The lines on one manager. -/
def metricsBlock (m : Metrics) : Text :=
  printField "Strategy: " m.strategyName.toList ++
  printField "  Total Requests : " (Text.ofInt m.totalRequests) ++
  printField "  Buffer Hits    : " (Text.ofInt m.bufferHits) ++
  printField "  Buffer Misses  : " (Text.ofInt m.bufferMisses) ++
  printField "  Disk Reads     : " (Text.ofInt m.diskReads) ++
  printField "  Hit Ratio      : " (Text.ofFixed 4 m.hitRatio) ++
  printField "  Miss Ratio     : " (Text.ofFixed 4 m.missRatio) ++
  printField "  Evictions      : " (Text.ofInt m.evictions)

/-- The loop over the managers, with a line between two of them. -/
def metricsBlocks : List Metrics → Text
  | [] => []
  | [m] => metricsBlock m
  | m :: m' :: managers =>
      metricsBlock m ++
        "\n----------------------------------------\n\n".toList ++
        metricsBlocks (m' :: managers)

def metricsHead (timeBuf : Text) : Text :=
  "========================================\n".toList ++
  "  BUFFER MANAGER METRICS REPORT\n".toList ++
  printField "  Generated on: " timeBuf ++
  "========================================\n\n".toList

def metricsReport (timeBuf : Text) (managers : List Metrics) : Text :=
  metricsHead timeBuf ++ metricsBlocks managers ++
    "\n========================================\n".toList

/-- `Helpers::dumpMetricsToFile`; the file stays as it is when it cannot be
opened. -/
def dumpMetricsToFile (opens : Bool) (timeBuf : Text)
    (managers : List Metrics) (file : Option Text) : Option Text :=
  if opens then some (metricsReport timeBuf managers) else file

/-! ## Reading -/

/-- What the report says on one manager, with the ratios in units of their last
decimal. -/
structure MetricsEntry where
  strategyName : Text
  totalRequests : Int
  bufferHits : Int
  bufferMisses : Int
  diskReads : Int
  hitRatio : ℕ
  missRatio : ℕ
  evictions : Int
  deriving DecidableEq, Repr

/-- The part of a line after its label. -/
def labelled (label line : Text) : Option Text :=
  if label.isPrefixOf line then some (line.drop label.length) else none

/-- Read the lines on one manager from the start of a list of lines. -/
def readEntry : List Text → Option MetricsEntry
  | name :: requests :: hits :: misses :: reads :: hitRatio :: missRatio ::
      evictions :: _ => do
        return {
          strategyName := ← labelled "Strategy: ".toList name
          totalRequests :=
            Text.parseInt (← labelled "  Total Requests : ".toList requests)
          bufferHits :=
            Text.parseInt (← labelled "  Buffer Hits    : ".toList hits)
          bufferMisses :=
            Text.parseInt (← labelled "  Buffer Misses  : ".toList misses)
          diskReads :=
            Text.parseInt (← labelled "  Disk Reads     : ".toList reads)
          hitRatio :=
            readFixed 4 (← labelled "  Hit Ratio      : ".toList hitRatio)
          missRatio :=
            readFixed 4 (← labelled "  Miss Ratio     : ".toList missRatio)
          evictions :=
            Text.parseInt (← labelled "  Evictions      : ".toList evictions) }
  | _ => none

/-- Read all managers from the text of a report. -/
def readMetrics (t : Text) : List MetricsEntry :=
  (t.splitOn '\n').tails.filterMap readEntry

/-- The entry that the report makes for a manager. -/
def Metrics.entry (m : Metrics) : MetricsEntry where
  strategyName := m.strategyName.toList
  totalRequests := m.totalRequests
  bufferHits := m.bufferHits
  bufferMisses := m.bufferMisses
  diskReads := m.diskReads
  hitRatio := Text.fixedUnits 4 m.hitRatio
  missRatio := Text.fixedUnits 4 m.missRatio
  evictions := m.evictions

/-! ## The lines of the report -/

def blockLines (m : Metrics) : List Text :=
  ["Strategy: ".toList ++ m.strategyName.toList,
    "  Total Requests : ".toList ++ Text.ofInt m.totalRequests,
    "  Buffer Hits    : ".toList ++ Text.ofInt m.bufferHits,
    "  Buffer Misses  : ".toList ++ Text.ofInt m.bufferMisses,
    "  Disk Reads     : ".toList ++ Text.ofInt m.diskReads,
    "  Hit Ratio      : ".toList ++ Text.ofFixed 4 m.hitRatio,
    "  Miss Ratio     : ".toList ++ Text.ofFixed 4 m.missRatio,
    "  Evictions      : ".toList ++ Text.ofInt m.evictions]

def separatorLines : List Text :=
  [[], "----------------------------------------".toList, []]

def blocksLines : List Metrics → List Text
  | [] => []
  | [m] => blockLines m
  | m :: m' :: managers =>
      blockLines m ++ (separatorLines ++ blocksLines (m' :: managers))

def titleLines : List Text :=
  ["========================================".toList,
    "  BUFFER MANAGER METRICS REPORT".toList]

def ruleLines : List Text :=
  ["========================================".toList, []]

def headLines (timeBuf : Text) : List Text :=
  titleLines ++ (("  Generated on: ".toList ++ timeBuf) :: ruleLines)

def tailLines : List Text :=
  [[], "========================================".toList]

/-- End every line with a newline. -/
def unlines (lines : List Text) : Text :=
  (lines.map (fun line => line ++ ['\n'])).flatten

theorem unlines_append (xs ys : List Text) :
    unlines (xs ++ ys) = unlines xs ++ unlines ys := by
  simp [unlines]

theorem printField_append (label : String) (value : Text) (lines : List Text) :
    printField label value ++ unlines lines =
      unlines ((label.toList ++ value) :: lines) := rfl

@[simp] theorem unlines_nil : unlines [] = [] := rfl

theorem metricsBlock_eq (m : Metrics) :
    metricsBlock m = unlines (blockLines m) := by
  simp only [blockLines, ← printField_append, metricsBlock, unlines_nil,
    List.append_assoc, List.append_nil]

theorem separator_eq :
    "\n----------------------------------------\n\n".toList =
      unlines separatorLines := by
  simp [unlines, separatorLines]

theorem metricsBlocks_eq (managers : List Metrics) :
    metricsBlocks managers = unlines (blocksLines managers) := by
  induction managers using metricsBlocks.induct with
  | case1 => rfl
  | case2 m => exact metricsBlock_eq m
  | case3 m m' managers ih =>
      rw [metricsBlocks, blocksLines, metricsBlock_eq, separator_eq, ih,
        unlines_append, unlines_append, List.append_assoc]

theorem metricsHead_eq (timeBuf : Text) :
    metricsHead timeBuf = unlines (headLines timeBuf) := by
  have htitle : "========================================\n".toList ++
        "  BUFFER MANAGER METRICS REPORT\n".toList = unlines titleLines := by
    simp [unlines, titleLines]
  have hrule : "========================================\n\n".toList =
      unlines ruleLines := by
    simp [unlines, ruleLines]
  calc metricsHead timeBuf
      = unlines titleLines ++ printField "  Generated on: " timeBuf ++
          unlines ruleLines :=
        congrArg₂ (fun title rule =>
          title ++ printField "  Generated on: " timeBuf ++ rule) htitle hrule
    _ = unlines titleLines ++
          unlines (("  Generated on: ".toList ++ timeBuf) :: ruleLines) := by
        rw [List.append_assoc, printField_append]
    _ = unlines (headLines timeBuf) := (unlines_append _ _).symm

theorem metricsReport_eq (timeBuf : Text) (managers : List Metrics) :
    metricsReport timeBuf managers =
      unlines (headLines timeBuf ++ (blocksLines managers ++ tailLines)) := by
  have htail : "\n========================================\n".toList =
      unlines tailLines := by
    simp [unlines, tailLines]
  rw [metricsReport, metricsHead_eq, metricsBlocks_eq, htail, unlines_append,
    unlines_append, List.append_assoc]

/-! ## Lines without newlines -/

/-- A line of text without a newline in it. -/
def Single (t : Text) : Prop :=
  '\n' ∉ t

instance : DecidablePred Single :=
  fun t => inferInstanceAs (Decidable ('\n' ∉ t))

theorem single_append {s t : Text} (hs : Single s) (ht : Single t) :
    Single (s ++ t) := fun hmem =>
  (List.mem_append.mp hmem).elim hs ht

theorem single_cons {c : Char} {t : Text} (hc : c ≠ '\n') (ht : Single t) :
    Single (c :: t) := fun hmem =>
  (List.mem_cons.mp hmem).elim (fun heq => hc heq.symm) ht

theorem single_of_isDigit {t : Text} (h : ∀ c ∈ t, c.isDigit = true) :
    Single t := by
  intro hmem
  have hnewline : '\n'.isDigit = false := by decide
  rw [h _ hmem] at hnewline
  exact absurd hnewline (by decide)

theorem single_ofInt (n : Int) : Single (Text.ofInt n) := by
  have hdigits : Single (Nat.toDigits 10 n.natAbs) :=
    single_of_isDigit fun _ hc => Text.isDigit_of_mem_toDigits hc
  rw [Text.ofInt]
  split
  · exact single_cons (by decide) hdigits
  · exact hdigits

theorem single_ofFixed (precision : ℕ) (x : ℚ) :
    Single (Text.ofFixed precision x) := by
  have hdigits : ∀ n, Single (Nat.toDigits 10 n) := fun n =>
    single_of_isDigit fun _ hc => Text.isDigit_of_mem_toDigits hc
  have hzeros : ∀ n, Single (List.replicate n '0') := fun n hmem =>
    absurd (List.eq_of_mem_replicate hmem) (by decide)
  rw [Text.ofFixed]
  refine single_append (single_append ?_ (hdigits _))
    (single_cons (by decide) (single_append (hzeros _) (hdigits _)))
  split
  · decide
  · decide

theorem single_of_mem_blockLines {m : Metrics}
    (hname : Single m.strategyName.toList) :
    ∀ line ∈ blockLines m, Single line := by
  simp only [blockLines, List.forall_mem_cons, List.not_mem_nil,
    false_implies, implies_true, and_true]
  refine ⟨single_append (by decide) hname,
    single_append (by decide) (single_ofInt _),
    single_append (by decide) (single_ofInt _),
    single_append (by decide) (single_ofInt _),
    single_append (by decide) (single_ofInt _),
    single_append (by decide) (single_ofFixed _ _),
    single_append (by decide) (single_ofFixed _ _),
    single_append (by decide) (single_ofInt _)⟩

theorem single_of_mem_blocksLines {managers : List Metrics}
    (hnames : ∀ m ∈ managers, Single m.strategyName.toList) :
    ∀ line ∈ blocksLines managers, Single line := by
  induction managers using metricsBlocks.induct with
  | case1 => simp [blocksLines]
  | case2 m => exact single_of_mem_blockLines (hnames m List.mem_cons_self)
  | case3 m m' managers ih =>
      obtain ⟨hname, hrest⟩ := List.forall_mem_cons.mp hnames
      have hseparator : ∀ line ∈ separatorLines, Single line := by decide
      rw [blocksLines]
      intro line hline
      rcases List.mem_append.mp hline with hblock | hline
      · exact single_of_mem_blockLines hname line hblock
      · rcases List.mem_append.mp hline with hsep | hlater
        · exact hseparator line hsep
        · exact ih hrest line hlater

/-- The lines of the report are read back by a split at the newlines. -/
theorem splitOn_metricsReport {timeBuf : Text} (htime : Single timeBuf)
    {managers : List Metrics}
    (hnames : ∀ m ∈ managers, Single m.strategyName.toList) :
    (metricsReport timeBuf managers).splitOn '\n' =
      headLines timeBuf ++ (blocksLines managers ++ tailLines) ++ [[]] := by
  rw [metricsReport_eq]
  refine splitOn_flatten fun line hline => ?_
  have htitle : ∀ line ∈ titleLines, Single line := by decide
  have hrule : ∀ line ∈ ruleLines, Single line := by decide
  have htail : ∀ line ∈ tailLines, Single line := by decide
  simp only [headLines, List.mem_append, List.mem_cons] at hline
  rcases hline with (hline | rfl | hline) | hline | hline
  · exact htitle line hline
  · exact single_append (by decide) htime
  · exact hrule line hline
  · exact single_of_mem_blocksLines hnames line hline
  · exact htail line hline

/-! ## The entries of the report -/

theorem labelled_append (label value : Text) :
    labelled label (label ++ value) = some value := by
  rw [labelled, if_pos, List.drop_left]
  exact List.isPrefixOf_iff_prefix.mpr (List.prefix_append _ _)

/-- The lines on a manager are read as its entry. -/
theorem readEntry_blockLines (m : Metrics) (rest : List Text) :
    readEntry (blockLines m ++ rest) = some m.entry := by
  simp only [blockLines, List.cons_append, List.nil_append, readEntry,
    labelled_append, Option.bind_eq_bind, Option.bind_some, Text.parseInt_ofInt,
    readFixed_ofFixed 4 m.hitRatio_nonneg,
    readFixed_ofFixed 4 m.missRatio_nonneg]
  rfl

/-- No entry starts at a line that does not begin with an `S`. -/
theorem readEntry_cons_of_head {line : Text} (h : line.head? ≠ some 'S')
    (rest : List Text) : readEntry (line :: rest) = none := by
  have hlabel : labelled "Strategy: ".toList line = none := by
    rw [labelled, if_neg]
    rw [List.isPrefixOf_iff_prefix]
    rintro ⟨value, rfl⟩
    exact h rfl
  rw [readEntry.eq_def]
  split
  · next heq =>
      obtain ⟨rfl, -⟩ := List.cons.inj heq
      rw [hlabel]
      rfl
  · rfl

/-- The reader passes over lines that do not begin with an `S`. -/
theorem filterMap_tails_append {lines : List Text}
    (h : ∀ line ∈ lines, line.head? ≠ some 'S') (rest : List Text) :
    (lines ++ rest).tails.filterMap readEntry =
      rest.tails.filterMap readEntry := by
  induction lines with
  | nil => rfl
  | cons line lines ih =>
      obtain ⟨hline, hlines⟩ := List.forall_mem_cons.mp h
      rw [List.cons_append, List.tails_cons, List.filterMap_cons,
        readEntry_cons_of_head hline, ih hlines]

theorem head?_label_append {label : Text} {c : Char}
    (h : label.head? = some c) (value : Text) :
    (label ++ value).head? = some c := by
  rw [List.head?_append, h, Option.some_or]

theorem head?_ne_of_mem_tail_blockLines (m : Metrics) :
    ∀ line ∈ (blockLines m).tail, line.head? ≠ some 'S' := by
  have hlabel : ∀ label value : Text, label.head? = some ' ' →
      (label ++ value).head? ≠ some 'S' := by
    intro label value h
    rw [head?_label_append h]
    decide
  simp only [blockLines, List.tail_cons, List.forall_mem_cons,
    List.not_mem_nil, false_implies, implies_true, and_true]
  exact ⟨hlabel _ _ rfl, hlabel _ _ rfl, hlabel _ _ rfl, hlabel _ _ rfl,
    hlabel _ _ rfl, hlabel _ _ rfl, hlabel _ _ rfl⟩

/-- The lines on a manager make one entry. -/
theorem filterMap_tails_blockLines (m : Metrics) (rest : List Text) :
    (blockLines m ++ rest).tails.filterMap readEntry =
      m.entry :: rest.tails.filterMap readEntry := by
  have hentry := readEntry_blockLines m rest
  have htail := filterMap_tails_append (head?_ne_of_mem_tail_blockLines m) rest
  obtain ⟨name, hblock⟩ : ∃ name, blockLines m = name :: (blockLines m).tail :=
    ⟨_, rfl⟩
  rw [hblock, List.cons_append] at hentry ⊢
  rw [List.tails_cons, List.filterMap_cons, hentry, htail]

theorem filterMap_tails_blocksLines (managers : List Metrics)
    (rest : List Text) :
    (blocksLines managers ++ rest).tails.filterMap readEntry =
      managers.map Metrics.entry ++ rest.tails.filterMap readEntry := by
  induction managers using metricsBlocks.induct with
  | case1 => rfl
  | case2 m => exact filterMap_tails_blockLines m rest
  | case3 m m' managers ih =>
      have hseparator : ∀ line ∈ separatorLines, line.head? ≠ some 'S' := by
        decide
      rw [blocksLines, List.append_assoc, List.append_assoc,
        filterMap_tails_blockLines, filterMap_tails_append hseparator, ih]
      rfl

/-- The reader recovers the names, the counters and the printed ratios of all
managers from the file. -/
theorem readMetrics_metricsReport {timeBuf : Text} (htime : Single timeBuf)
    {managers : List Metrics}
    (hnames : ∀ m ∈ managers, Single m.strategyName.toList) :
    readMetrics (metricsReport timeBuf managers) =
      managers.map Metrics.entry := by
  have htitle : ∀ line ∈ titleLines, line.head? ≠ some 'S' := by decide
  have hrule : ∀ line ∈ ruleLines, line.head? ≠ some 'S' := by decide
  have htail : ∀ line ∈ tailLines ++ [[]], line.head? ≠ some 'S' := by decide
  have hhead : ∀ line ∈ headLines timeBuf, line.head? ≠ some 'S' := by
    simp only [headLines, List.mem_append, List.mem_cons]
    rintro line (hline | rfl | hline)
    · exact htitle line hline
    · rw [head?_label_append rfl]
      decide
    · exact hrule line hline
  rw [readMetrics, splitOn_metricsReport htime hnames, List.append_assoc,
    List.append_assoc, filterMap_tails_append hhead,
    filterMap_tails_blocksLines, ← List.append_nil (tailLines ++ [[]]),
    filterMap_tails_append htail]
  exact List.append_nil _

end BufferSim

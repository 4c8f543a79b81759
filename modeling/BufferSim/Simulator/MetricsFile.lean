import BufferSim.Simulator.Accounting
import BufferSim.Simulator.Display
import BufferSim.Utils.MetricsReport

/-!
# The metrics of a run as they are reported

The report on the metrics of a run lists the four managers in the order of the
main loop.  Its reader finds one entry for each of them, the entries agree on
the number of requests, and in each of them the counters and the printed ratios
add up.
-/

namespace BufferSim

open Cxx

/-- An entry whose counters balance for a number of requests, and whose ratios
add up to one except for the last decimal of a tie. -/
structure MetricsEntry.Balanced (requests : ℕ) (e : MetricsEntry) : Prop where
  totalRequests_eq : e.totalRequests = requests
  hits_add_misses : e.bufferHits + e.bufferMisses = requests
  diskReads_eq : e.diskReads = e.bufferMisses
  evictions_le : e.evictions ≤ e.bufferMisses
  ratios_near : 0 < requests → requests < 2 ^ 31 →
    |(e.hitRatio : Int) + e.missRatio - 10 ^ 4| ≤ 1
  ratios_sum : 0 < requests → requests < 2 ^ 31 →
    (∀ j : ℕ, 2 * (10 ^ 4 * e.bufferHits) ≠ (2 * j + 1) * requests) →
    e.hitRatio + e.missRatio = 10 ^ 4

theorem Accounts.balanced {requests rejected : ℕ} {resident : Finset Int}
    {m : Metrics} (h : Accounts requests rejected resident m) :
    m.entry.Balanced requests := by
  have htotal := h.totalRequests_eq
  have hbalance := h.hits_add_misses
  have hratios : 0 < requests → requests < 2 ^ 31 → _ := fun hpos hlt =>
    Metrics.printed_ratios hbalance (htotal ▸ hpos) (htotal ▸ hlt)
  refine ⟨congrArg Int.ofNat htotal, ?_, congrArg Int.ofNat h.diskReads_eq, ?_,
    fun hpos hlt => (hratios hpos hlt).2.2.1, fun hpos hlt hties => ?_⟩
  · show (m.bufferHits : Int) + m.bufferMisses = requests
    exact_mod_cast hbalance.trans htotal
  · have hmisses := h.misses_eq
    have hle : m.evictions ≤ m.bufferMisses := by omega
    exact Int.ofNat_le.mpr hle
  · refine (hratios hpos hlt).2.2.2 (fun j hj => hties j ?_)
    rw [htotal] at hj
    show 2 * (10 ^ 4 * (m.bufferHits : Int)) = (2 * j + 1) * requests
    exact_mod_cast hj

namespace Simulator

/-- The metrics of `g_managers`, in their order. -/
def metrics (s : Simulator) : List Metrics :=
  [s.lru.metrics, s.mru.metrics, s.clock.metrics, s.pinned.metrics]

/-- The report that the program writes when it ends. -/
def metricsReport (timeBuf : Text) (s : Simulator) : Text :=
  BufferSim.metricsReport timeBuf s.metrics

variable {config : Config} {pages : List Int} {s : Simulator}

theorem Fed.strategyNames (h : Fed config pages s) :
    s.metrics.map Metrics.strategyName = ["LRU", "MRU", "CLOCK", "PINNED"] := by
  have hC := config.bufferSize_pos
  obtain ⟨l, hl, -, hlru⟩ := (LRUBuffer.refines hC).totals
    (ListBuffer.represents_new "LRU" _) rfl pages
  obtain ⟨m, hm, -, hmru⟩ := (MRUBuffer.refines hC).totals
    (ListBuffer.represents_new "MRU" _) rfl pages
  obtain ⟨c, hc, -, hclock⟩ := (ClockBuffer.refines hC).totals
    (ClockBuffer.represents_new hC) rfl pages
  obtain ⟨p, hp, -, hpinned⟩ := (PinnedBuffer.refines config.bufferSize).totals
    (PinnedBuffer.represents_new _) rfl pages
  obtain rfl : l = s.lru := Option.some.inj (hl.symm.trans h.lru)
  obtain rfl : m = s.mru := Option.some.inj (hm.symm.trans h.mru)
  obtain rfl : c = s.clock := Option.some.inj (hc.symm.trans h.clock)
  obtain rfl : p = s.pinned := Option.some.inj (hp.symm.trans h.pinned)
  have hnames := congrArg₂ List.cons (congrArg Metrics.strategyName hlru)
    (congrArg₂ List.cons (congrArg Metrics.strategyName hmru)
      (congrArg₂ List.cons (congrArg Metrics.strategyName hclock)
        (congrArg (fun n => [n]) (congrArg Metrics.strategyName hpinned))))
  exact hnames

/-- The four managers have counted each of the pages. -/
theorem Fed.balanced (h : Fed config pages s) :
    ∀ m ∈ s.metrics, m.entry.Balanced pages.length := by
  have hC := config.bufferSize_pos
  obtain ⟨l, hl, hlru, -⟩ := LRUBuffer.accounts hC pages
  obtain ⟨m, hm, hmru, -⟩ := MRUBuffer.accounts hC pages
  obtain ⟨c, hc, hclock, -⟩ := ClockBuffer.accounts hC pages
  obtain ⟨p, rejected, hp, -, hpinned, -⟩ :=
    PinnedBuffer.accounts config.bufferSize pages
  obtain rfl : l = s.lru := Option.some.inj (hl.symm.trans h.lru)
  obtain rfl : m = s.mru := Option.some.inj (hm.symm.trans h.mru)
  obtain rfl : c = s.clock := Option.some.inj (hc.symm.trans h.clock)
  obtain rfl : p = s.pinned := Option.some.inj (hp.symm.trans h.pinned)
  simp only [Simulator.metrics, List.forall_mem_cons, List.not_mem_nil,
    false_implies, implies_true, and_true]
  exact ⟨hlru.balanced, hmru.balanced, hclock.balanced, hpinned.balanced⟩

/-- The reader of the report finds the entries of the four managers. -/
theorem Fed.readMetrics_report (h : Fed config pages s) {timeBuf : Text}
    (htime : Single timeBuf) :
    readMetrics (s.metricsReport timeBuf) = s.metrics.map Metrics.entry ∧
      (s.metrics.map Metrics.entry).map MetricsEntry.strategyName =
        ["LRU".toList, "MRU".toList, "CLOCK".toList, "PINNED".toList] ∧
      ∀ e ∈ s.metrics.map Metrics.entry, e.Balanced pages.length := by
  have hnames := h.strategyNames
  refine ⟨readMetrics_metricsReport htime ?_, ?_, ?_⟩
  · intro m hm
    have hmem := List.mem_map_of_mem (f := Metrics.strategyName) hm
    rw [hnames] at hmem
    have hsingle : ∀ name ∈ ["LRU", "MRU", "CLOCK", "PINNED"],
        Single name.toList := by decide
    exact hsingle _ hmem
  · have hlists := congrArg (List.map String.toList) hnames
    rw [List.map_map] at hlists ⊢
    exact hlists
  · intro e he
    obtain ⟨m, hm, rfl⟩ := List.mem_map.mp he
    exact h.balanced m hm

end Simulator

/-- After any run of the main loop the report on the metrics reads as four
balanced entries for the same number of requests. -/
theorem metrics_file_balanced (config : Config) (db : SQLiteManager)
    (queries : List Submission) {timeBuf : Text} (htime : Single timeBuf) :
    ∃ s entries, (Simulator.startUp config db).run config queries = some s ∧
      readMetrics (s.metricsReport timeBuf) = entries ∧
      entries.map MetricsEntry.strategyName =
        ["LRU".toList, "MRU".toList, "CLOCK".toList, "PINNED".toList] ∧
      entries = s.metrics.map Metrics.entry ∧
      ∀ e ∈ entries, e.Balanced (totalPages config db queries) := by
  obtain ⟨s, hrun, hfed, -, -⟩ := Simulator.run_startUp config db queries
  obtain ⟨hread, hnames, hbalanced⟩ := hfed.readMetrics_report htime
  rw [length_flatMap_pages] at hbalanced
  exact ⟨s, _, hrun, hread, hnames, rfl, hbalanced⟩

theorem metrics_file_balanced_student :
    ∃ s entries, (Simulator.startUp Config.source SQLiteManager.opened).run
        Config.source [studentsQuery "SELECT name FROM students;" [studentRow]] =
          some s ∧
      readMetrics (s.metricsReport "2026-03-01 12:00:00".toList) = entries ∧
      ∀ e ∈ entries, e.Balanced 1 := by
  obtain ⟨s, entries, hrun, hread, -, -, hbalanced⟩ := metrics_file_balanced
    Config.source SQLiteManager.opened
    [studentsQuery "SELECT name FROM students;" [studentRow]]
    (by decide : Single "2026-03-01 12:00:00".toList)
  exact ⟨s, entries, hrun, hread, hbalanced⟩

end BufferSim

import BufferSim.Paging.ScanOptimal
import BufferSim.Paging.ScanFlush
import BufferSim.Buffer.Exactness
import BufferSim.Buffer.RepeatedScan

/-!
# The managers under table scans

A query on a whole table requests each of its pages once.  What the managers
hold after such a scan depends on the strategy: nothing but the scan under LRU
and CLOCK, nearly all of the former pages under MRU, the pinned pages and a part
of the scan under PINNED.  When scans of a table that does not fit are repeated,
no strategy that loads what it misses does better than MRU.
-/

namespace BufferSim

open Paging

variable {C : ℕ}

/-! ## Repeated scans -/

/-- On any number of requests of a repeated scan of more pages than frames MRU
misses no more often than any demand-paging schedule with as many frames. -/
theorem mru_optimal_on_scans {N : ℕ} (hC : 1 ≤ C) (hN : C < N) (base : Int)
    (n T : ℕ) :
    ∃ m, MRUBuffer.manager.run (MRUBuffer.new C)
        ((List.replicate n (tableScan base N)).flatten.take T) = some m ∧
      ∀ S : Schedule C ((List.replicate n (tableScan base N)).flatten.take T),
        m.metrics.bufferMisses ≤ S.misses := by
  have htake : (List.replicate n (tableScan base N)).flatten.take T =
      trace (scanPage base N) (min T (n * N)) := by
    rw [flatten_replicate_tableScan, trace, trace, ← List.map_take,
      List.take_range]
  rw [htake]
  obtain ⟨m, hrun, -, -, hmisses⟩ :=
    MRUBuffer.run_new hC (trace (scanPage base N) (min T (n * N)))
  refine ⟨m, hrun, fun S => ?_⟩
  rw [hmisses]
  exact (cyclic_scanPage base N).mru_misses_le_schedule hC hN _ S

theorem mru_optimal_on_scans_five :
    ∃ m, MRUBuffer.manager.run (MRUBuffer.new 3)
        ((List.replicate 4 (tableScan 20 5)).flatten.take 17) = some m ∧
      ∀ S : Schedule 3 ((List.replicate 4 (tableScan 20 5)).flatten.take 17),
        m.metrics.bufferMisses ≤ S.misses :=
  mru_optimal_on_scans (by decide) (by decide) 20 4 17

/-! ## One scan -/

theorem LRUBuffer.useOrder_after_scan (hC : 1 ≤ C) (history : List Int)
    {scan : List Int} (hscan : scan.Nodup) (hlong : C ≤ scan.length) :
    ∃ l, LRUBuffer.manager.run (LRUBuffer.new C) (history ++ scan) = some l ∧
      l.useOrder.toList = scan.reverse.take C := by
  obtain ⟨l, hrun, hrep, -, -⟩ := LRUBuffer.run_new hC (history ++ scan)
  refine ⟨l, hrun, ?_⟩
  rw [hrep.toList_eq, lru_run_elems, take_recency_scan history hscan hlong]

theorem ClockBuffer.resident_after_scan (hC : 1 ≤ C) (history : List Int)
    {scan : List Int} (hscan : scan.Nodup) (hlong : C ≤ scan.length) :
    ∃ c₀ c, ClockBuffer.manager.run (ClockBuffer.new C) history = some c₀ ∧
      ClockBuffer.manager.run c₀ scan = some c ∧
      ((∀ p ∈ scan, p ∉ c₀.resident) →
        c.resident = (scan.reverse.take C).toFinset ∧
        c.metrics.bufferMisses = c₀.metrics.bufferMisses + scan.length) := by
  set P := secondChance Int C
  obtain ⟨c₀, hrun₀, hrep₀, -⟩ :=
    (ClockBuffer.refines hC).run (ClockBuffer.represents_new hC) history
  obtain ⟨c, hrun, hrep, hmetrics⟩ :=
    (ClockBuffer.refines hC).run hrep₀ scan
  refine ⟨c₀, c, hrun₀, hrun, fun hfresh => ⟨?_, ?_⟩⟩
  · have hfresh' : ∀ p ∈ scan, p ∉ P.resident (P.run history) := by
      rwa [hrep₀.resident_eq] at hfresh
    have hafter := (secondChance_conservative C).resident_after_scan
      (secondChance_fillsFirst C).card_le hscan hlong hfresh'
    rw [Policy.run_append] at hafter
    rw [hrep.resident_eq]
    exact hafter
  · have hmisses : (P.missLog (P.run history) scan).length = scan.length := by
      rw [P.missLog_of_fresh hscan]
      rwa [hrep₀.resident_eq] at hfresh
    have hmetrics' : c.metrics =
        c₀.metrics.recordAll (P.outcomes (P.run history) scan) := hmetrics
    rw [hmetrics', Metrics.recordAll_eq, ← P.length_missLog, hmisses]

theorem MRUBuffer.useOrder_after_scan (hC : 1 ≤ C) (history : List Int)
    {scan : List Int} (hscan : scan.Nodup) :
    ∃ m₀ m, MRUBuffer.manager.run (MRUBuffer.new C) history = some m₀ ∧
      MRUBuffer.manager.run m₀ scan = some m ∧
      (C ≤ history.toFinset.card → (∀ p ∈ scan, p ∉ m₀.resident) →
        ∃ v rest, m₀.useOrder.toList = v :: rest ∧
          m.useOrder.toList = scan.getLast?.getD v :: rest) := by
  set s := ((mruRule Int).policy C).run history with hs
  obtain ⟨m₀, hrun₀, hrep₀, -⟩ :=
    (MRUBuffer.refines hC).run (ListBuffer.represents_new "MRU" C) history
  obtain ⟨m, hrun, hrep, -⟩ := (MRUBuffer.refines hC).run hrep₀ scan
  refine ⟨m₀, m, hrun₀, hrun, fun hmany hfresh => ?_⟩
  have hfull : s.elems.length = C := by
    have hcard := ((mruRule Int).fillsFirst C).card_resident history
    rwa [Nat.min_eq_left hmany, EvictionRule.policy_resident,
      List.toFinset_card_of_nodup s.nodup] at hcard
  obtain ⟨v, rest, helems⟩ := List.exists_cons_of_length_pos (hfull ▸ hC)
  have hfresh' : ∀ p ∈ scan, p ∉ s.elems := fun p hp hmem => by
    refine hfresh p hp ?_
    rw [hrep₀.resident_eq]
    exact List.mem_toFinset.mpr hmem
  refine ⟨v, rest, hrep₀.toList_eq.trans helems, ?_⟩
  exact hrep.toList_eq.trans (mru_elems_after_scan helems hfull hscan hfresh')

theorem PinnedBuffer.resident_after_scan (history : List Int)
    {scan : List Int} (hscan : scan.Nodup) (hlong : C ≤ scan.length) :
    ∃ p₀ p, PinnedBuffer.manager.run (PinnedBuffer.new C) history = some p₀ ∧
      PinnedBuffer.manager.run p₀ scan = some p ∧
      p.pinnedPages = p₀.pinnedPages ∪
        ((scan.filter (fun q => (7 : Int) ∣ q ∧ q ∉ p₀.pinnedPages)).take
          (C - p₀.pinnedPages.card)).toFinset ∧
      p.resident = p.pinnedPages ∪
        ((scan.filter (fun q => ¬(7 : Int) ∣ q)).reverse.take
          (C - p.pinnedPages.card)).toFinset := by
  obtain ⟨p₀, hrun₀, hrep₀, -⟩ :=
    (PinnedBuffer.refines C).run (PinnedBuffer.represents_new C) history
  obtain ⟨p, hrun, hafter, -⟩ := (PinnedBuffer.refines C).run hrep₀ scan
  have hrep : Represents C p
      (((pinnedRule shouldPin).policy C).run (history ++ scan)) := by
    rw [Policy.run_append]
    exact hafter
  have hpinned₀ : p₀.pinnedPages =
      (pinnedElems multipleOfSeven C history).toFinset :=
    Represents.pinnedPages_eq hrep₀
  have hpinned : p.pinnedPages =
      (pinnedElems multipleOfSeven C (history ++ scan)).toFinset :=
    hrep.pinnedPages_eq
  have hcard₀ : p₀.pinnedPages.card =
      (pinnedElems multipleOfSeven C history).length := by
    rw [hpinned₀, List.toFinset_card_of_nodup (nodup_pinnedElems history)]
  have hcard : p.pinnedPages.card =
      (pinnedElems multipleOfSeven C (history ++ scan)).length := by
    rw [hpinned, List.toFinset_card_of_nodup (nodup_pinnedElems _)]
  refine ⟨p₀, p, hrun₀, hrun, ?_, ?_⟩
  · rw [hpinned, pinnedElems_append history hscan, List.toFinset_append,
      ← hpinned₀, ← hcard₀]
    congr 3
    refine List.filter_congr fun q _ => ?_
    simp [multipleOfSeven, hpinned₀]
  · rw [hrep.resident_eq, ← hpinned, unpinnedElems_append history hscan hlong,
      unpinnedShare, ← hcard]
    congr 4
    refine List.filter_congr fun q _ => ?_
    simp [multipleOfSeven]

/-- One scan of at least `C` pages after any history: LRU holds its last `C`
pages, and so does CLOCK if none of the pages was resident; MRU with full
frames that hold none of the pages gives up one page to the whole scan; PINNED
keeps its pinned pages, pins the first others of the scan as long as there are
frames, and holds the last unpinned pages of the scan in the rest. -/
theorem after_scan (hC : 1 ≤ C) (history : List Int) {scan : List Int}
    (hscan : scan.Nodup) (hlong : C ≤ scan.length) :
    (∃ l, LRUBuffer.manager.run (LRUBuffer.new C) (history ++ scan) = some l ∧
      l.useOrder.toList = scan.reverse.take C) ∧
    (∃ c₀ c, ClockBuffer.manager.run (ClockBuffer.new C) history = some c₀ ∧
      ClockBuffer.manager.run c₀ scan = some c ∧
      ((∀ p ∈ scan, p ∉ c₀.resident) →
        c.resident = (scan.reverse.take C).toFinset ∧
        c.metrics.bufferMisses = c₀.metrics.bufferMisses + scan.length)) ∧
    (∃ m₀ m, MRUBuffer.manager.run (MRUBuffer.new C) history = some m₀ ∧
      MRUBuffer.manager.run m₀ scan = some m ∧
      (C ≤ history.toFinset.card → (∀ p ∈ scan, p ∉ m₀.resident) →
        ∃ v rest, m₀.useOrder.toList = v :: rest ∧
          m.useOrder.toList = scan.getLast?.getD v :: rest)) ∧
    ∃ p₀ p, PinnedBuffer.manager.run (PinnedBuffer.new C) history = some p₀ ∧
      PinnedBuffer.manager.run p₀ scan = some p ∧
      p.pinnedPages = p₀.pinnedPages ∪
        ((scan.filter (fun q => (7 : Int) ∣ q ∧ q ∉ p₀.pinnedPages)).take
          (C - p₀.pinnedPages.card)).toFinset ∧
      p.resident = p.pinnedPages ∪
        ((scan.filter (fun q => ¬(7 : Int) ∣ q)).reverse.take
          (C - p.pinnedPages.card)).toFinset :=
  ⟨LRUBuffer.useOrder_after_scan hC history hscan hlong,
    ClockBuffer.resident_after_scan hC history hscan hlong,
    MRUBuffer.useOrder_after_scan hC history hscan,
    PinnedBuffer.resident_after_scan history hscan hlong⟩

/-- The pages 7, 8 and 9, and a scan with one more page to be pinned. -/
theorem after_scan_three :
    (∃ l, LRUBuffer.manager.run (LRUBuffer.new 3)
        ([7, 8, 9, 7] ++ [1, 14, 2, 3]) = some l ∧
      l.useOrder.toList = [3, 2, 14]) ∧
    (∃ c₀ c, ClockBuffer.manager.run (ClockBuffer.new 3) [7, 8, 9, 7] =
        some c₀ ∧
      ClockBuffer.manager.run c₀ [1, 14, 2, 3] = some c ∧
      c.resident = {3, 2, 14}) ∧
    (∃ m₀ m, MRUBuffer.manager.run (MRUBuffer.new 3) [7, 8, 9, 7] = some m₀ ∧
      MRUBuffer.manager.run m₀ [1, 14, 2, 3] = some m ∧
      m.useOrder.toList = [3, 9, 8]) ∧
    ∃ p₀ p, PinnedBuffer.manager.run (PinnedBuffer.new 3) [7, 8, 9, 7] =
        some p₀ ∧
      PinnedBuffer.manager.run p₀ [1, 14, 2, 3] = some p ∧
      p.pinnedPages = {7, 14} ∧ p.resident = {7, 14, 3} := by
  obtain ⟨⟨l, hl, hlru⟩, ⟨c₀, c, hc₀, hc, hclock⟩, ⟨m₀, m, hm₀, hm, hmru⟩,
    p₀, p, hp₀, hp, hpins, hpinned⟩ := after_scan (by decide : 1 ≤ 3)
      [7, 8, 9, 7] (by decide : ([1, 14, 2, 3] : List Int).Nodup) (by decide)
  have hheld : (ClockBuffer.manager.run (ClockBuffer.new 3) [7, 8, 9, 7]).map
      (fun c => c.resident) = some {7, 8, 9} := by decide
  have horder : (MRUBuffer.manager.run (MRUBuffer.new 3) [7, 8, 9, 7]).map
      (fun m => (m.resident, m.useOrder.toList)) =
        some ({7, 8, 9}, [7, 9, 8]) := by decide
  have hpages : (PinnedBuffer.manager.run (PinnedBuffer.new 3)
      [7, 8, 9, 7]).map (fun p => p.pinnedPages) = some {7} := by decide
  rw [hc₀, Option.map_some, Option.some_inj] at hheld
  rw [hm₀, Option.map_some, Option.some_inj, Prod.mk.injEq] at horder
  rw [hp₀, Option.map_some, Option.some_inj] at hpages
  refine ⟨⟨l, hl, hlru⟩, ⟨c₀, c, hc₀, hc, ?_⟩, ⟨m₀, m, hm₀, hm, ?_⟩,
    p₀, p, hp₀, hp, ?_⟩
  · exact (hclock (by rw [hheld]; decide)).1
  · obtain ⟨v, rest, hfirst, hlast⟩ :=
      hmru (by decide) (by rw [horder.1]; decide)
    rw [horder.2, List.cons.injEq] at hfirst
    rw [hlast, ← hfirst.2]
    rfl
  · have hboth : p.pinnedPages = {7, 14} := by
      rw [hpins, hpages]
      decide
    rw [hpinned, hboth]
    exact ⟨rfl, by decide⟩

end BufferSim

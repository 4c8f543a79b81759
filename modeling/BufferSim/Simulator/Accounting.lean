import BufferSim.Buffer.Accounting
import BufferSim.Simulator.MainLoop

/-!
# Metrics of a run of the simulator

The main loop feeds the same pages to all four managers, so their accounts are
those of one trace: the page sequences of the queries with records, one after
the other.
-/

namespace BufferSim

/-- The sum of the page counts of the queries that deliver records. -/
def totalPages (config : Config) (db : SQLiteManager) : List Submission → ℕ
  | [] => 0
  | q :: queries =>
      (if q.HasRecords db then
        (ceilDiv (q.result db).recordCount config.pageSize).toNat
      else 0) + totalPages config db queries

theorem length_pages (config : Config) (db : SQLiteManager) (q : Submission) :
    (q.pages config db).length =
      if q.HasRecords db then
        (ceilDiv (q.result db).recordCount config.pageSize).toNat
      else 0 := by
  have hsize : (1 : Int) ≤ config.pageSize := by
    exact_mod_cast config.pageSize_pos
  unfold Submission.pages
  split
  · next hrecords => exact length_generatePageSequence hsize hrecords.2 _
  · rfl

theorem length_flatMap_pages (config : Config) (db : SQLiteManager)
    (queries : List Submission) :
    (queries.flatMap (Submission.pages config db)).length =
      totalPages config db queries := by
  induction queries with
  | nil => rfl
  | cons q queries ih =>
      simp only [List.flatMap_cons, List.length_append, length_pages, ih,
        totalPages]

/-- After any run all four managers have counted the same requests, and the
counters of each balance with the pages that it holds. -/
theorem metrics_accounting (config : Config) (db : SQLiteManager)
    (queries : List Submission) :
    ∃ s rejected,
      (Simulator.startUp config db).run config queries = some s ∧
      PinnedBuffer.manager.countRequests PinnedBuffer.blocked
        (PinnedBuffer.new config.bufferSize)
        (queries.flatMap (Submission.pages config db)) = some rejected ∧
      Accounts (totalPages config db queries) 0 s.lru.resident
        s.lru.metrics ∧
      Accounts (totalPages config db queries) 0 s.mru.resident
        s.mru.metrics ∧
      Accounts (totalPages config db queries) 0 s.clock.resident
        s.clock.metrics ∧
      Accounts (totalPages config db queries) rejected s.pinned.resident
        s.pinned.metrics := by
  obtain ⟨s, hrun, hfed, -, -⟩ := Simulator.run_startUp config db queries
  have hC := config.bufferSize_pos
  set pages := queries.flatMap (Submission.pages config db) with hpages
  have hlength : pages.length = totalPages config db queries :=
    length_flatMap_pages config db queries
  obtain ⟨l, hl, hlru, -⟩ := LRUBuffer.accounts hC pages
  obtain ⟨m, hm, hmru, -⟩ := MRUBuffer.accounts hC pages
  obtain ⟨c, hc, hclock, -⟩ := ClockBuffer.accounts hC pages
  obtain ⟨p, rejected, hp, hblocked, hpinned, -⟩ :=
    PinnedBuffer.accounts config.bufferSize pages
  obtain rfl : l = s.lru := Option.some.inj (hl.symm.trans hfed.lru)
  obtain rfl : m = s.mru := Option.some.inj (hm.symm.trans hfed.mru)
  obtain rfl : c = s.clock := Option.some.inj (hc.symm.trans hfed.clock)
  obtain rfl : p = s.pinned := Option.some.inj (hp.symm.trans hfed.pinned)
  rw [hlength] at hlru hmru hclock hpinned
  exact ⟨s, rejected, hrun, hblocked, hlru, hmru, hclock, hpinned⟩

end BufferSim

import BufferSim.Buffer.ListBuffer
import BufferSim.Buffer.ClockBuffer
import BufferSim.Paging.Scan

/-!
# Repeated table scans

A query on a whole table requests consecutive pages.  Repeating such a scan of
more pages than the buffer has frames is a cyclic sequence of requests, so LRU
and CLOCK never hit, and MRU hits in laps that are one request shorter than the
scan.
-/

namespace BufferSim

open Paging

namespace BufferManager

variable {σ τ : Type}

/-- For each request, whether it raised `bufferHits`. -/
def hitLog (M : BufferManager σ) : σ → List Int → Option (List Bool)
  | _, [] => some []
  | b, p :: pages => do
      let b' ← M.accessPage b p
      let rest ← hitLog M b' pages
      return ((M.getMetrics b).bufferHits < (M.getMetrics b').bufferHits) ::
        rest

variable {M : BufferManager σ} {P : Policy Int τ} {rel : σ → τ → Prop}

theorem Refines.hitLog (h : M.Refines P rel) {b : σ} {s : τ} (hrel : rel b s)
    (pages : List Int) : M.hitLog b pages = some (P.hitLog s pages) := by
  induction pages generalizing b s with
  | nil => rfl
  | cons p pages ih =>
      obtain ⟨b', haccess, hrel', hmetrics⟩ := h.step b s p hrel
      have hcount : decide ((M.getMetrics b).bufferHits <
          (M.getMetrics b').bufferHits) = (P.outcome s p).isHit := by
        rw [hmetrics, Metrics.record_bufferHits]
        cases (P.outcome s p).isHit <;> simp
      have hrest := ih hrel'
      simp only [Policy.hitLog] at hrest
      simp [BufferManager.hitLog, haccess, hrest, Policy.hitLog,
        Policy.outcomes, ← hcount]

end BufferManager

/-- A scan of `N` consecutive pages from `base` on. -/
def tableScan (base : Int) (N : ℕ) : List Int :=
  (List.range N).map (fun i : ℕ => base + i)

/-- The page that request number `t` of the repeated scan asks for. -/
def scanPage (base : Int) (N t : ℕ) : Int :=
  base + (t % N : ℕ)

theorem flatten_replicate_tableScan (base : Int) (N n : ℕ) :
    (List.replicate n (tableScan base N)).flatten =
      trace (scanPage base N) (n * N) := by
  induction n with
  | zero => simp [trace]
  | succ n ih =>
      have hlast : (List.range N).map (fun i => scanPage base N (n * N + i)) =
          tableScan base N := by
        apply List.map_congr_left
        intro i hi
        have hmod : (n * N + i) % N = i := by
          exact Nat.mul_add_mod_of_lt (List.mem_range.mp hi)
        simp [scanPage, hmod]
      simp only [trace] at ih
      simp only [List.replicate_succ', List.flatten_append,
        List.flatten_singleton, ih, trace, Nat.succ_mul, List.range_add,
        List.map_append, List.map_map, Function.comp_def, hlast]

theorem cyclic_scanPage (base : Int) (N : ℕ) : Cyclic N (scanPage base N) where
  period t := by simp [scanPage]
  distinct i j hij hj heq := by
    have hmod : i % N = j % N := by
      simp only [scanPage] at heq
      omega
    have hzero := Nat.sub_mod_eq_zero_of_mod_eq hmod.symm
    rw [Nat.mod_eq_of_lt (by omega)] at hzero
    omega

/-- A scan of more pages than frames, repeated any number of times: LRU and
CLOCK never hit, and MRU hits exactly at the end of each of its laps. -/
theorem repeated_scan {C N : ℕ} (hC : 1 ≤ C) (hN : C < N) (base : Int)
    (n : ℕ) :
    LRUBuffer.manager.hitLog (LRUBuffer.new C)
        (List.replicate n (tableScan base N)).flatten =
      some (List.replicate (n * N) false) ∧
    ClockBuffer.manager.hitLog (ClockBuffer.new C)
        (List.replicate n (tableScan base N)).flatten =
      some (List.replicate (n * N) false) ∧
    MRUBuffer.manager.hitLog (MRUBuffer.new C)
        (List.replicate n (tableScan base N)).flatten =
      some ((List.range (n * N)).map
        (fun t => decide (C ≤ t ∧ N - C ≤ (t - C) % (N - 1)))) := by
  have hcyclic := cyclic_scanPage base N
  have hspaced := hcyclic.spaced hN
  have hlru := (LRUBuffer.refines hC).hitLog
    (ListBuffer.represents_new "LRU" C) (trace (scanPage base N) (n * N))
  have hclock := (ClockBuffer.refines hC).hitLog
    (ClockBuffer.represents_new hC) (trace (scanPage base N) (n * N))
  have hmru := (MRUBuffer.refines hC).hitLog
    (ListBuffer.represents_new "MRU" C) (trace (scanPage base N) (n * N))
  rw [flatten_replicate_tableScan]
  refine ⟨hlru.trans (congrArg some ?_), hclock.trans (congrArg some ?_),
    hmru.trans (congrArg some ?_)⟩
  · exact Policy.hitLog_trace_of_misses _ (hspaced.lru_misses hC) _
  · exact Policy.hitLog_trace_of_misses _ (hspaced.secondChance_misses hC) _
  · refine (Policy.hitLog_trace _ _ _).trans (List.map_congr_left ?_)
    intro t _
    exact decide_eq_decide.mpr (hcyclic.mru_hit_iff hC hN t)

/-- Two scans of five pages with three frames. -/
theorem repeated_scan_five :
    MRUBuffer.manager.hitLog (MRUBuffer.new 3)
        (List.replicate 2 (tableScan 20 5)).flatten =
      some [false, false, false, false, false, true, true, false, false,
        true] :=
  (repeated_scan (by decide : 1 ≤ 3) (by decide : 3 < 5) 20 2).2.2.trans
    (by decide)

end BufferSim

import BufferSim.Paging.Policy

/-!
# Metrics and buffer managers

`Metrics` and `BufferManager` follow `models/Metrics.hpp` and
`buffer/BufferManager.hpp`.  The counters are natural numbers: they agree with
the `int` counters as long as none of them overflows.  `accessPage` returns
`none` where the C++ code has undefined behaviour.

`Refines` connects a manager to a replacement policy.  Its rules carry the
simulation over whole runs and read the counters of a run off the outcomes of
the policy.
-/

namespace BufferSim

open Paging

/-- The counters of one buffer manager. -/
structure Metrics where
  strategyName : String
  totalRequests : ℕ := 0
  bufferHits : ℕ := 0
  bufferMisses : ℕ := 0
  diskReads : ℕ := 0
  evictions : ℕ := 0
  deriving DecidableEq, Repr

namespace Metrics

def countRequest (m : Metrics) : Metrics :=
  { m with totalRequests := m.totalRequests + 1 }

def countHit (m : Metrics) : Metrics :=
  { m with bufferHits := m.bufferHits + 1 }

def countMiss (m : Metrics) : Metrics :=
  { m with
    bufferMisses := m.bufferMisses + 1
    diskReads := m.diskReads + 1 }

def countEviction (m : Metrics) : Metrics :=
  { m with evictions := m.evictions + 1 }

/-- The counters after a request with the given outcome. -/
def record (m : Metrics) : Outcome Int → Metrics
  | .hit => m.countRequest.countHit
  | .load => m.countRequest.countMiss
  | .replace _ => m.countRequest.countMiss.countEviction
  | .reject => m.countRequest.countMiss

theorem record_totalRequests (m : Metrics) (o : Outcome Int) :
    (m.record o).totalRequests = m.totalRequests + 1 := by
  cases o <;> rfl

theorem record_bufferHits (m : Metrics) (o : Outcome Int) :
    (m.record o).bufferHits = m.bufferHits + if o.isHit then 1 else 0 := by
  cases o <;> rfl

theorem record_bufferMisses (m : Metrics) (o : Outcome Int) :
    (m.record o).bufferMisses = m.bufferMisses + if !o.isHit then 1 else 0 := by
  cases o <;> rfl

theorem record_diskReads (m : Metrics) (o : Outcome Int) :
    (m.record o).diskReads = m.diskReads + if !o.isHit then 1 else 0 := by
  cases o <;> rfl

theorem record_evictions (m : Metrics) (o : Outcome Int) :
    (m.record o).evictions = m.evictions + if o.isReplace then 1 else 0 := by
  cases o <;> rfl

theorem record_bufferHits_iff (m : Metrics) (o : Outcome Int) :
    (m.record o).bufferHits = m.bufferHits + 1 ↔ o.isHit = true := by
  cases o <;> simp [record_bufferHits, Outcome.isHit]

theorem record_bufferMisses_iff (m : Metrics) (o : Outcome Int) :
    (m.record o).bufferMisses = m.bufferMisses + 1 ↔ ¬o.isHit = true := by
  cases o <;> simp [record_bufferMisses, Outcome.isHit]

theorem record_evictions_iff (m : Metrics) (o : Outcome Int) :
    (m.record o).evictions = m.evictions + 1 ↔ ∃ v, o = .replace v := by
  cases o <;> simp [record_evictions, Outcome.isReplace]

/-- The counters after a list of outcomes. -/
def recordAll (m : Metrics) (os : List (Outcome Int)) : Metrics :=
  os.foldl record m

/-- Each counter grows by the number of outcomes that it counts. -/
theorem recordAll_eq (m : Metrics) (os : List (Outcome Int)) :
    m.recordAll os =
      { strategyName := m.strategyName
        totalRequests := m.totalRequests + os.length
        bufferHits := m.bufferHits + os.countP Outcome.isHit
        bufferMisses := m.bufferMisses + os.countP (fun o => !o.isHit)
        diskReads := m.diskReads + os.countP (fun o => !o.isHit)
        evictions := m.evictions + os.countP Outcome.isReplace } := by
  induction os generalizing m with
  | nil => rfl
  | cons o os ih =>
      have hname : (m.record o).strategyName = m.strategyName := by
        cases o <;> rfl
      have hcons : m.recordAll (o :: os) = (m.record o).recordAll os := rfl
      simp only [hcons, ih, hname, record_totalRequests, record_bufferHits,
        record_bufferMisses, record_diskReads, record_evictions,
        List.length_cons, List.countP_cons, Metrics.mk.injEq, true_and]
      omega

end Metrics

/-- The interface that all managers implement. -/
structure BufferManager (σ : Type) where
  accessPage : σ → Int → Option σ
  getMetrics : σ → Metrics

namespace BufferManager

variable {σ τ : Type} (M : BufferManager σ)

/-- Feed a page sequence to a manager. -/
def run (b : σ) (pages : List Int) : Option σ :=
  pages.foldlM M.accessPage b

/-- The requested pages that raised `bufferMisses`, in order. -/
def missedPages : σ → List Int → Option (List Int)
  | _, [] => some []
  | b, p :: pages => do
      let b' ← M.accessPage b p
      let rest ← missedPages b' pages
      return if (M.getMetrics b).bufferMisses < (M.getMetrics b').bufferMisses
        then p :: rest else rest

@[simp] theorem run_nil (b : σ) : M.run b [] = some b := rfl

theorem run_cons (b : σ) (p : Int) (pages : List Int) :
    M.run b (p :: pages) = (M.accessPage b p).bind (M.run · pages) := rfl

theorem run_append (b : σ) (xs ys : List Int) :
    M.run b (xs ++ ys) = (M.run b xs).bind (M.run · ys) := by
  rw [run, List.foldlM_append]
  rfl

theorem run_snoc (b : σ) (pages : List Int) (p : Int) :
    M.run b (pages ++ [p]) = (M.run b pages).bind (M.accessPage · p) := by
  rw [run_append]
  congr 1
  funext b'
  rw [run_cons]
  cases M.accessPage b' p <;> rfl

/-- The manager simulates the policy step by step, and its counters record the
outcomes of the policy. -/
structure Refines (P : Policy Int τ) (rel : σ → τ → Prop) : Prop where
  step : ∀ b s p, rel b s →
    ∃ b', M.accessPage b p = some b' ∧ rel b' (P.next s p) ∧
      M.getMetrics b' = (M.getMetrics b).record (P.outcome s p)

namespace Refines

variable {M} {P : Policy Int τ} {rel : σ → τ → Prop}

/-- A run of the manager simulates the run of the policy. -/
theorem run (h : M.Refines P rel) {b : σ} {s : τ} (hrel : rel b s)
    (pages : List Int) :
    ∃ b', M.run b pages = some b' ∧ rel b' (P.runFrom s pages) ∧
      M.getMetrics b' = (M.getMetrics b).recordAll (P.outcomes s pages) := by
  induction pages generalizing b s with
  | nil => exact ⟨b, rfl, hrel, rfl⟩
  | cons p pages ih =>
      obtain ⟨b₁, haccess, hrel₁, hmetrics₁⟩ := h.step b s p hrel
      obtain ⟨b₂, hrun, hrel₂, hmetrics₂⟩ := ih hrel₁
      refine ⟨b₂, ?_, hrel₂, ?_⟩
      · rw [run_cons, haccess]
        exact hrun
      · rw [hmetrics₂, hmetrics₁]
        rfl

theorem missedPages (h : M.Refines P rel) {b : σ} {s : τ} (hrel : rel b s)
    (pages : List Int) :
    M.missedPages b pages = some (P.missLog s pages) := by
  induction pages generalizing b s with
  | nil => rfl
  | cons p pages ih =>
      obtain ⟨b', haccess, hrel', hmetrics⟩ := h.step b s p hrel
      have hcount : (M.getMetrics b').bufferMisses =
          (M.getMetrics b).bufferMisses +
            if p ∈ P.resident s then 0 else 1 := by
        rw [hmetrics, Metrics.record_bufferMisses]
        by_cases hp : p ∈ P.resident s
        · rw [if_pos hp, (P.hit_iff s p).mpr hp]
          rfl
        · have hmiss : (P.outcome s p).isHit = false := by
            rw [Bool.eq_false_iff, ne_eq, P.hit_iff]
            exact hp
          rw [if_neg hp, hmiss]
          rfl
      simp only [BufferManager.missedPages, haccess, Policy.missLog]
      by_cases hp : p ∈ P.resident s
      · rw [if_pos hp] at hcount ⊢
        simp [hcount, ih hrel']
      · rw [if_neg hp] at hcount ⊢
        simp [hcount, ih hrel']

/-- The metrics of a run that starts with all counters at zero. -/
theorem totals (h : M.Refines P rel) {b : σ} (hrel : rel b P.start)
    {name : String} (hzero : M.getMetrics b = { strategyName := name })
    (pages : List Int) :
    ∃ b', M.run b pages = some b' ∧ rel b' (P.run pages) ∧
      M.getMetrics b' =
        { strategyName := name
          totalRequests := pages.length
          bufferHits := P.hits pages
          bufferMisses := P.misses pages
          diskReads := P.misses pages
          evictions := P.evictions pages } := by
  obtain ⟨b', hrun, hrel', hmetrics⟩ := h.run hrel pages
  refine ⟨b', hrun, hrel', ?_⟩
  simp only [hmetrics, hzero, Metrics.recordAll_eq, Policy.length_outcomes,
    Policy.hits, Policy.misses, Policy.length_missLog, Policy.evictions,
    Nat.zero_add]

theorem counters (h : M.Refines P rel) {b : σ} (hrel : rel b P.start)
    {name : String} (hzero : M.getMetrics b = { strategyName := name })
    (pages : List Int) :
    ∃ b', M.run b pages = some b' ∧ rel b' (P.run pages) ∧
      (M.getMetrics b').bufferHits = P.hits pages ∧
      (M.getMetrics b').bufferMisses = P.misses pages := by
  obtain ⟨b', hrun, hrel', hmetrics⟩ := h.totals hrel hzero pages
  exact ⟨b', hrun, hrel', by rw [hmetrics], by rw [hmetrics]⟩

end Refines
end BufferManager
end BufferSim

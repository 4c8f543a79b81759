import BufferSim.Paging.Competitive
import BufferSim.Buffer.PinnedBuffer
import BufferSim.Buffer.ClockBuffer

/-!
# Miss bounds of the managers

Three kinds of bounds are transferred from the policies to the miss counters
of the managers: on a window of few distinct pages, against an arbitrary
demand-paging schedule, and between two capacities of the same manager.
-/

namespace BufferSim

open Paging

/-! ## Windows -/

namespace BufferManager

variable {σ τ : Type}

/-- From every state that the manager reaches from `b`, a stretch of requests
with at most `C` distinct pages misses at most once on each of them. -/
def MissesOncePerPage (M : BufferManager σ) (b : σ) (C : ℕ) : Prop :=
  ∀ before segment : List Int, segment.toFinset.card ≤ C →
    ∃ b₁ b₂ missed, M.run b before = some b₁ ∧ M.run b₁ segment = some b₂ ∧
      M.missedPages b₁ segment = some missed ∧
      missed.Nodup ∧ missed ⊆ segment ∧
      (M.getMetrics b₂).bufferMisses =
        (M.getMetrics b₁).bufferMisses + missed.length

variable {M : BufferManager σ} {P : Policy Int τ} {rel : σ → τ → Prop}

/-- Conservativeness passes from a policy to a manager that refines it. -/
theorem Refines.missesOncePerPage (h : M.Refines P rel) {C : ℕ}
    (hP : P.Conservative C) {b : σ} (hrel : rel b P.start) :
    M.MissesOncePerPage b C := by
  intro before segment hcard
  obtain ⟨b₁, hrun₁, hrel₁, -⟩ := h.run hrel before
  obtain ⟨b₂, hrun₂, -, hmetrics⟩ := h.run hrel₁ segment
  refine ⟨b₁, b₂, P.missLog (P.run before) segment, hrun₁, hrun₂,
    h.missedPages hrel₁ segment, hP before segment hcard,
    (P.missLog_sublist _ _).subset, ?_⟩
  have hmetrics' : M.getMetrics b₂ = (M.getMetrics b₁).recordAll
    (P.outcomes (P.run before) segment) := hmetrics
  rw [hmetrics', Metrics.recordAll_eq, Policy.length_missLog]

theorem toFinset_flatten_replicate_subset (n : ℕ) (workload : List Int) :
    (List.replicate n workload).flatten.toFinset ⊆ workload.toFinset := by
  intro p hp
  rw [List.mem_toFinset, List.mem_flatten] at hp
  obtain ⟨round, hround, hp⟩ := hp
  rw [List.eq_of_mem_replicate hround] at hp
  exact List.mem_toFinset.mpr hp

/-- Any number of rounds of a workload that fits costs at most one miss for
each of its distinct pages. -/
theorem MissesOncePerPage.rounds {b : σ} {C : ℕ}
    (h : M.MissesOncePerPage b C) (before workload : List Int) (n : ℕ)
    (hfit : workload.toFinset.card ≤ C) :
    ∃ b₁ b₂, M.run b before = some b₁ ∧
      M.run b₁ (List.replicate n workload).flatten = some b₂ ∧
      (M.getMetrics b₂).bufferMisses ≤
        (M.getMetrics b₁).bufferMisses + workload.toFinset.card := by
  have hsub := toFinset_flatten_replicate_subset n workload
  obtain ⟨b₁, b₂, missed, hrun₁, hrun₂, -, hnodup, hmissed, hmisses⟩ :=
    h before (List.replicate n workload).flatten
      ((Finset.card_le_card hsub).trans hfit)
  refine ⟨b₁, b₂, hrun₁, hrun₂, ?_⟩
  rw [hmisses, ← List.toFinset_card_of_nodup hnodup]
  refine Nat.add_le_add_left (Finset.card_le_card ?_) _
  intro p hp
  exact hsub (List.mem_toFinset.mpr (hmissed (List.mem_toFinset.mp hp)))

end BufferManager

theorem LRUBuffer.missesOncePerPage {C : ℕ} (hC : 1 ≤ C) :
    LRUBuffer.manager.MissesOncePerPage (LRUBuffer.new C) C :=
  (LRUBuffer.refines hC).missesOncePerPage (lru_conservative C)
    (ListBuffer.represents_new "LRU" C)

theorem ClockBuffer.missesOncePerPage {C : ℕ} (hC : 1 ≤ C) :
    ClockBuffer.manager.MissesOncePerPage (ClockBuffer.new C) C :=
  (ClockBuffer.refines hC).missesOncePerPage (secondChance_conservative C)
    (ClockBuffer.represents_new hC)

/-- LRU and CLOCK miss at most once on each page of a window that fits in the
buffer, so rerunning a workload that fits is cheap for both. -/
theorem lru_clock_miss_once_per_window {C : ℕ} (hC : 1 ≤ C) :
    LRUBuffer.manager.MissesOncePerPage (LRUBuffer.new C) C ∧
    ClockBuffer.manager.MissesOncePerPage (ClockBuffer.new C) C ∧
    ∀ (before workload : List Int) (n : ℕ), workload.toFinset.card ≤ C →
      (∃ l₁ l₂, LRUBuffer.manager.run (LRUBuffer.new C) before = some l₁ ∧
        LRUBuffer.manager.run l₁ (List.replicate n workload).flatten =
          some l₂ ∧
        l₂.metrics.bufferMisses ≤
          l₁.metrics.bufferMisses + workload.toFinset.card) ∧
      ∃ c₁ c₂, ClockBuffer.manager.run (ClockBuffer.new C) before = some c₁ ∧
        ClockBuffer.manager.run c₁ (List.replicate n workload).flatten =
          some c₂ ∧
        c₂.metrics.bufferMisses ≤
          c₁.metrics.bufferMisses + workload.toFinset.card := by
  have hlru := LRUBuffer.missesOncePerPage hC
  have hclock := ClockBuffer.missesOncePerPage hC
  refine ⟨hlru, hclock, ?_⟩
  intro before workload n hfit
  exact ⟨hlru.rounds before workload n hfit,
    hclock.rounds before workload n hfit⟩

theorem lru_clock_miss_once_per_window_three :
    ∃ c₁ c₂, ClockBuffer.manager.run (ClockBuffer.new 3) [1, 9, 2, 4] =
        some c₁ ∧
      ClockBuffer.manager.run c₁ (List.replicate 100 [1, 2, 3]).flatten =
        some c₂ ∧
      c₂.metrics.bufferMisses ≤ c₁.metrics.bufferMisses + 3 :=
  ((lru_clock_miss_once_per_window (by decide : 1 ≤ 3)).2.2 [1, 9, 2, 4]
    [1, 2, 3] 100 (by decide)).2

/-! ## Arbitrary schedules -/

/-- LRU and CLOCK with `C` frames against every demand-paging schedule with
`h` frames, and in particular against MRU with the same `C` frames. -/
theorem lru_clock_competitive {C h : ℕ} (h1 : 1 ≤ h) (hle : h ≤ C)
    (requests : List Int) :
    ∃ l c m, LRUBuffer.manager.run (LRUBuffer.new C) requests = some l ∧
      ClockBuffer.manager.run (ClockBuffer.new C) requests = some c ∧
      MRUBuffer.manager.run (MRUBuffer.new C) requests = some m ∧
      (∀ S : Schedule h requests,
        (C - h + 1) * l.metrics.bufferMisses ≤ C * S.misses ∧
        (C - h + 1) * c.metrics.bufferMisses ≤ C * S.misses) ∧
      l.metrics.bufferMisses ≤ C * m.metrics.bufferMisses ∧
      c.metrics.bufferMisses ≤ C * m.metrics.bufferMisses := by
  have hC : 1 ≤ C := h1.trans hle
  obtain ⟨l, hl, -, -, hlMisses⟩ := LRUBuffer.run_new hC requests
  obtain ⟨c, hc, -, -, hcMisses⟩ := ClockBuffer.run_new hC requests
  obtain ⟨m, hm, -, -, hmMisses⟩ := MRUBuffer.run_new hC requests
  obtain ⟨mru, hmru⟩ := mru_exists_schedule hC requests
  -- against the schedule of MRU the factor on the left is one
  have hlru := (lru_conservative C).competitive hC (Nat.le_refl C) mru
  have hclock :=
    (secondChance_conservative C).competitive hC (Nat.le_refl C) mru
  rw [Nat.sub_self, Nat.zero_add, Nat.one_mul, hmru, ← hmMisses] at hlru hclock
  rw [← hlMisses] at hlru
  rw [← hcMisses] at hclock
  refine ⟨l, c, m, hl, hc, hm, ?_, hlru, hclock⟩
  intro S
  rw [hlMisses, hcMisses]
  exact ⟨(lru_conservative C).competitive h1 hle S,
    (secondChance_conservative C).competitive h1 hle S⟩

theorem lru_clock_competitive_three :
    ∃ l m, LRUBuffer.manager.run (LRUBuffer.new 3) [1, 2, 3, 4, 1, 2] =
        some l ∧
      MRUBuffer.manager.run (MRUBuffer.new 3) [1, 2, 3, 4, 1, 2] = some m ∧
      l.metrics.bufferMisses ≤ 3 * m.metrics.bufferMisses := by
  obtain ⟨l, -, m, hl, -, hm, -, hle, -⟩ :=
    lru_clock_competitive (by decide : 1 ≤ 2) (by decide : 2 ≤ 3)
      [1, 2, 3, 4, 1, 2]
  exact ⟨l, m, hl, hm, hle⟩

/-! ## Capacities -/

namespace BufferManager

variable {σ τ υ : Type}

/-- After every sequence of requests the state reached from `large` holds at
least the pages of the one reached from `small`, with at least as many hits and
at most as many misses. -/
def NeverHurts (M : BufferManager σ) (resident : σ → Finset Int)
    (small large : σ) : Prop :=
  ∀ requests : List Int, ∃ b b', M.run small requests = some b ∧
    M.run large requests = some b' ∧ resident b ⊆ resident b' ∧
    (M.getMetrics b).bufferHits ≤ (M.getMetrics b').bufferHits ∧
    (M.getMetrics b').bufferMisses ≤ (M.getMetrics b).bufferMisses

variable {M : BufferManager σ} {P : Policy Int τ} {Q : Policy Int υ}
  {relP : σ → τ → Prop} {relQ : σ → υ → Prop} {resident : σ → Finset Int}

/-- Inclusion of the resident sets passes from two policies to a manager that
refines both, each from its own initial state. -/
theorem Refines.neverHurts (hP : M.Refines P relP) (hQ : M.Refines Q relQ)
    (hresP : ∀ b s, relP b s → resident b = P.resident s)
    (hresQ : ∀ b s, relQ b s → resident b = Q.resident s)
    (hsub : ∀ requests,
      P.resident (P.run requests) ⊆ Q.resident (Q.run requests))
    {small large : σ} {name : String}
    (hsmall : relP small P.start)
    (hsmallZero : M.getMetrics small = { strategyName := name })
    (hlarge : relQ large Q.start)
    (hlargeZero : M.getMetrics large = { strategyName := name }) :
    M.NeverHurts resident small large := by
  intro requests
  obtain ⟨b, hrun, hrel, hhits, hmisses⟩ :=
    hP.counters hsmall hsmallZero requests
  obtain ⟨b', hrun', hrel', hhits', hmisses'⟩ :=
    hQ.counters hlarge hlargeZero requests
  refine ⟨b, b', hrun, hrun', ?_, ?_, ?_⟩
  · rw [hresP b _ hrel, hresQ b' _ hrel']
    exact hsub requests
  · rw [hhits, hhits']
    exact P.hits_le_of_resident_subset Q hsub requests
  · rw [hmisses, hmisses']
    exact P.misses_le_of_resident_subset Q hsub requests

end BufferManager

/-- There is no Belady anomaly for LRU, MRU and PINNED. -/
theorem larger_buffer_never_hurts {C C' : ℕ} (hC : 1 ≤ C) (hle : C ≤ C') :
    LRUBuffer.manager.NeverHurts ListBuffer.resident
      (LRUBuffer.new C) (LRUBuffer.new C') ∧
    MRUBuffer.manager.NeverHurts ListBuffer.resident
      (MRUBuffer.new C) (MRUBuffer.new C') ∧
    PinnedBuffer.manager.NeverHurts (fun b => b.resident)
      (PinnedBuffer.new C) (PinnedBuffer.new C') := by
  have hC' : 1 ≤ C' := hC.trans hle
  have hlist : ∀ (D : ℕ) (b : ListBuffer) (s : FrameList Int D),
      ListBuffer.Represents D b s → b.resident = s.elems.toFinset :=
    fun D b s h => h.resident_eq
  refine ⟨?_, ?_, ?_⟩
  · exact (LRUBuffer.refines hC).neverHurts (LRUBuffer.refines hC')
      (hlist C) (hlist C') (lru_resident_subset hle)
      (ListBuffer.represents_new "LRU" C) rfl
      (ListBuffer.represents_new "LRU" C') rfl
  · exact (MRUBuffer.refines hC).neverHurts (MRUBuffer.refines hC')
      (hlist C) (hlist C') (mru_resident_subset hC hle)
      (ListBuffer.represents_new "MRU" C) rfl
      (ListBuffer.represents_new "MRU" C') rfl
  · exact (PinnedBuffer.refines C).neverHurts (PinnedBuffer.refines C')
      (fun b s h => hlist C _ s h.list) (fun b s h => hlist C' _ s h.list)
      (pinned_resident_subset hle)
      (PinnedBuffer.represents_new C) rfl
      (PinnedBuffer.represents_new C') rfl

theorem larger_buffer_never_hurts_two_three :
    ∃ b b', MRUBuffer.manager.run (MRUBuffer.new 2) [1, 2, 3, 1, 2] =
        some b ∧
      MRUBuffer.manager.run (MRUBuffer.new 3) [1, 2, 3, 1, 2] = some b' ∧
      b.resident ⊆ b'.resident := by
  obtain ⟨b, b', hrun, hrun', hsub, -, -⟩ :=
    (larger_buffer_never_hurts (by decide : 1 ≤ 2)
      (by decide : 2 ≤ 3)).2.1 [1, 2, 3, 1, 2]
  exact ⟨b, b', hrun, hrun', hsub⟩

end BufferSim

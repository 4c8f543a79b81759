import BufferSim.Paging.LowerBounds
import BufferSim.Buffer.MissBounds

/-!
# Lower bounds on the misses of the managers

The factor `C` in the comparison of LRU and CLOCK with arbitrary schedules is
the best possible one, and no other manager has a smaller factor.  MRU and
PINNED have no such factor at all.
-/

namespace BufferSim

open Paging

namespace BufferManager

variable {σ τ : Type}

/-- For every length there is a trace without a hit on which some schedule with
`C` frames misses only about every `C`-th request. -/
def HasWorstTraces (M : BufferManager σ) (b : σ) (C : ℕ) : Prop :=
  ∀ n, ∃ requests b', requests.length = n ∧ M.run b requests = some b' ∧
    (M.getMetrics b').bufferHits = 0 ∧ (M.getMetrics b').bufferMisses = n ∧
    ∃ S : Schedule C requests, C * S.misses ≤ n + C * (C + 1)

/-- The misses from `b` on are at most `a / d` times those of any schedule with
`C` frames, up to a constant. -/
def HasRatio (M : BufferManager σ) (b : σ) (C a d : ℕ) : Prop :=
  ∃ c, ∀ (requests : List Int) (S : Schedule C requests),
    ∃ b', M.run b requests = some b' ∧
      d * (M.getMetrics b').bufferMisses ≤ a * S.misses + c

variable {M : BufferManager σ} {P : Policy Int τ} {rel : σ → τ → Prop}
  {C a d : ℕ} {b : σ}

theorem Refines.hasWorstTraces (h : M.Refines P rel) (hC : 1 ≤ C)
    (hframes : ∀ s, (P.resident s).card ≤ C) (hrel : rel b P.start)
    {name : String} (hzero : M.getMetrics b = { strategyName := name }) :
    M.HasWorstTraces b C := by
  intro n
  have hcard : ((List.range (C + 1)).map Int.ofNat).toFinset.card = C + 1 := by
    rw [List.toFinset_card_of_nodup, List.length_map, List.length_range]
    exact List.nodup_range.map (fun _ _ => Int.ofNat.inj)
  obtain ⟨requests, hlength, hmisses, S, hS⟩ :=
    P.exists_worst_trace hC hframes hcard n
  obtain ⟨b', hrun, -, hhits', hmisses'⟩ := h.counters hrel hzero requests
  refine ⟨requests, b', hlength, hrun, ?_, hmisses'.trans hmisses, S, hS⟩
  have hbalance := P.hits_add_misses requests
  rw [hmisses, hlength, Nat.add_eq_right] at hbalance
  exact hhits'.trans hbalance

/-- The multiples of a positive number are not bounded. -/
theorem eq_zero_of_forall_mul_le {k c : ℕ} (h : ∀ n, k * n ≤ c) : k = 0 := by
  by_contra hk
  have hle := h (c + 1)
  exact absurd ((Nat.le_mul_of_pos_left _ (Nat.pos_of_ne_zero hk)).trans hle)
    (Nat.not_succ_le_self c)

/-- Worst traces leave no ratio below `C`. -/
theorem HasWorstTraces.le_of_hasRatio (h : M.HasWorstTraces b C)
    (hratio : M.HasRatio b C a d) : d * C ≤ a := by
  obtain ⟨c, hc⟩ := hratio
  refine Nat.le_of_sub_eq_zero (eq_zero_of_forall_mul_le
    (c := a * (C * (C + 1)) + C * c) (fun n => ?_))
  obtain ⟨requests, b', -, hrun, -, hmisses, S, hS⟩ := h n
  obtain ⟨b'', hrun', hle⟩ := hc requests S
  obtain rfl : b' = b'' := Option.some.inj (hrun.symm.trans hrun')
  rw [hmisses] at hle
  have hmany : d * C * n ≤ a * n + (a * (C * (C + 1)) + C * c) := by
    calc d * C * n = C * (d * n) := by ring
      _ ≤ C * (a * S.misses + c) := Nat.mul_le_mul_left C hle
      _ = a * (C * S.misses) + C * c := by ring
      _ ≤ a * (n + C * (C + 1)) + C * c :=
          Nat.add_le_add_right (Nat.mul_le_mul_left a hS) _
      _ = a * n + (a * (C * (C + 1)) + C * c) := by ring
  rw [Nat.sub_mul]
  exact Nat.sub_le_of_le_add ((Nat.add_comm _ _).le.trans' hmany)

/-- A conservative policy with `C` frames has the ratio `C`. -/
theorem Refines.hasRatio (h : M.Refines P rel) (hP : P.Conservative C)
    (hC : 1 ≤ C) (hrel : rel b P.start) {name : String}
    (hzero : M.getMetrics b = { strategyName := name }) (hle : d * C ≤ a) :
    M.HasRatio b C a d := by
  refine ⟨0, fun requests S => ?_⟩
  obtain ⟨b', hrun, -, -, hmisses⟩ := h.counters hrel hzero requests
  have hbound := hP.competitive hC (Nat.le_refl C) S
  rw [Nat.sub_self, Nat.zero_add, Nat.one_mul] at hbound
  refine ⟨b', hrun, ?_⟩
  rw [hmisses]
  calc d * P.misses requests
      ≤ d * (C * S.misses) := Nat.mul_le_mul_left d hbound
    _ = d * C * S.misses := (Nat.mul_assoc _ _ _).symm
    _ ≤ a * S.misses + 0 := Nat.mul_le_mul_right _ hle

/-- Traces of any number of misses on which schedules with `C` frames miss a
bounded number of times leave no ratio at all. -/
theorem not_hasRatio_of_traces {bound : ℕ}
    (h : ∀ n, ∃ requests b', M.run b requests = some b' ∧
      n ≤ (M.getMetrics b').bufferMisses ∧
      ∃ S : Schedule C requests, S.misses ≤ bound)
    (hd : 1 ≤ d) : ¬M.HasRatio b C a d := by
  rintro ⟨c, hc⟩
  have hzero := eq_zero_of_forall_mul_le
    (k := d) (c := a * bound + c) (fun n => ?_)
  · exact absurd hzero (Nat.one_le_iff_ne_zero.mp hd)
  · obtain ⟨requests, b', hrun, hmany, S, hS⟩ := h n
    obtain ⟨b'', hrun', hle⟩ := hc requests S
    obtain rfl : b' = b'' := Option.some.inj (hrun.symm.trans hrun')
    calc d * n ≤ d * (M.getMetrics b').bufferMisses :=
          Nat.mul_le_mul_left d hmany
      _ ≤ a * S.misses + c := hle
      _ ≤ a * bound + c :=
          Nat.add_le_add_right (Nat.mul_le_mul_left a hS) c

end BufferManager

variable {C : ℕ}

/-! ## LRU and CLOCK -/

/-- Each manager can be made to miss every request where a schedule with as
many frames misses about every `C`-th one.  So `C` is exactly the ratio of LRU
and of CLOCK, and neither MRU nor PINNED has a smaller one. -/
theorem no_manager_beats_ratio (hC : 1 ≤ C) :
    (LRUBuffer.manager.HasWorstTraces (LRUBuffer.new C) C ∧
      ClockBuffer.manager.HasWorstTraces (ClockBuffer.new C) C ∧
      MRUBuffer.manager.HasWorstTraces (MRUBuffer.new C) C ∧
      PinnedBuffer.manager.HasWorstTraces (PinnedBuffer.new C) C) ∧
    ∀ a d,
      (LRUBuffer.manager.HasRatio (LRUBuffer.new C) C a d ↔ d * C ≤ a) ∧
      (ClockBuffer.manager.HasRatio (ClockBuffer.new C) C a d ↔ d * C ≤ a) ∧
      (MRUBuffer.manager.HasRatio (MRUBuffer.new C) C a d → d * C ≤ a) ∧
      (PinnedBuffer.manager.HasRatio (PinnedBuffer.new C) C a d →
        d * C ≤ a) := by
  have hlru := (LRUBuffer.refines hC).hasWorstTraces hC
    ((lruRule Int).fillsFirst C).card_le (ListBuffer.represents_new "LRU" C) rfl
  have hclock := (ClockBuffer.refines hC).hasWorstTraces hC
    (secondChance_fillsFirst C).card_le (ClockBuffer.represents_new hC) rfl
  have hmru := (MRUBuffer.refines hC).hasWorstTraces hC
    ((mruRule Int).fillsFirst C).card_le (ListBuffer.represents_new "MRU" C) rfl
  have hpinned := (PinnedBuffer.refines C).hasWorstTraces hC
    ((pinnedRule PinnedBuffer.shouldPin).fillsFirst C).card_le
    (PinnedBuffer.represents_new C) rfl
  refine ⟨⟨hlru, hclock, hmru, hpinned⟩, fun a d => ⟨?_, ?_, ?_, ?_⟩⟩
  · refine ⟨hlru.le_of_hasRatio, ?_⟩
    exact (LRUBuffer.refines hC).hasRatio (lru_conservative C) hC
      (ListBuffer.represents_new "LRU" C) rfl
  · refine ⟨hclock.le_of_hasRatio, ?_⟩
    exact (ClockBuffer.refines hC).hasRatio (secondChance_conservative C) hC
      (ClockBuffer.represents_new hC) rfl
  · exact hmru.le_of_hasRatio
  · exact hpinned.le_of_hasRatio

theorem no_manager_beats_ratio_three :
    ∃ requests c, requests.length = 7 ∧
      ClockBuffer.manager.run (ClockBuffer.new 3) requests = some c ∧
      c.metrics.bufferMisses = 7 := by
  obtain ⟨requests, c, hlength, hrun, -, hmisses, -⟩ :=
    (no_manager_beats_ratio (by decide : 1 ≤ 3)).1.2.1 7
  exact ⟨requests, c, hlength, hrun, hmisses⟩

/-! ## MRU and PINNED -/

/-- A trace on which LRU and CLOCK miss at most `bound` times, and a schedule
with as many frames as well. -/
def FewMisses (C : ℕ) (requests : List Int) (bound : ℕ) : Prop :=
  (∃ l, LRUBuffer.manager.run (LRUBuffer.new C) requests = some l ∧
    l.metrics.bufferMisses ≤ bound) ∧
  (∃ c, ClockBuffer.manager.run (ClockBuffer.new C) requests = some c ∧
    c.metrics.bufferMisses ≤ bound) ∧
  ∃ S : Schedule C requests, S.misses ≤ bound

theorem fewMisses_rounds (hC : 1 ≤ C) {first round : List Int}
    (hfirst : first.toFinset.card = C) (hround : round.toFinset.card ≤ C)
    (n : ℕ) :
    FewMisses C (first ++ (List.replicate n round).flatten)
      (C + round.toFinset.card) := by
  set requests := first ++ (List.replicate n round).flatten
  have hlru := (lru_conservative C).misses_rounds_le hfirst.le hround n
  have hclock :=
    (secondChance_conservative C).misses_rounds_le hfirst.le hround n
  rw [hfirst] at hlru hclock
  obtain ⟨l, hl, -, -, hlMisses⟩ := LRUBuffer.run_new hC requests
  obtain ⟨c, hc, -, -, hcMisses⟩ := ClockBuffer.run_new hC requests
  obtain ⟨S, hS⟩ := ((lruRule Int).policy C).exists_schedule
    (fun s p => lru_outcome_ne_reject hC s.elems p)
    ((lruRule Int).fillsFirst C).card_le requests
  exact ⟨⟨l, hl, hlMisses.trans_le hlru⟩, ⟨c, hc, hcMisses.trans_le hclock⟩,
    S, hS.trans_le hlru⟩

/-- After `C` multiples of seven, PINNED misses on every request for another
page. -/
theorem PinnedBuffer.exists_blocked_trace (hC : 1 ≤ C) (n : ℕ) :
    ∃ requests b, PinnedBuffer.manager.run (PinnedBuffer.new C) requests =
        some b ∧
      b.metrics.bufferMisses = C + n ∧ FewMisses C requests (C + 1) := by
  set first := (List.range C).map (fun i : ℕ => 7 * (i : Int))
  have hfirst : first.toFinset.card = C := by
    rw [List.toFinset_card_of_nodup, List.length_map, List.length_range]
    refine List.nodup_range.map (fun i j hij => ?_)
    exact Int.ofNat.inj (mul_left_cancel₀ (by decide : (7 : Int) ≠ 0) hij)
  have hpins : ∀ q ∈ first, shouldPin q = true := by
    intro q hq
    obtain ⟨i, -, rfl⟩ := List.mem_map.mp hq
    rw [shouldPin_iff]
    exact Dvd.intro _ rfl
  have hmisses := pinned_misses_blocked hfirst hpins
    (by decide : shouldPin 1 = false) n
  obtain ⟨b, hb, -, -, hbMisses⟩ := PinnedBuffer.run_new C
    (first ++ (List.replicate n [1]).flatten)
  have hround : [(1 : Int)].toFinset.card = 1 := rfl
  exact ⟨_, b, hb, hbMisses.trans hmisses,
    fewMisses_rounds hC hfirst (hround.trans_le hC) n⟩

/-- After the pages below `C`, MRU misses on every one of the pages `C` and
`C + 1` in turn. -/
theorem MRUBuffer.exists_alternating_trace (hC : 2 ≤ C) (n : ℕ) :
    ∃ requests b, MRUBuffer.manager.run (MRUBuffer.new C) requests = some b ∧
      b.metrics.bufferMisses = C + 2 * n ∧ FewMisses C requests (C + 2) := by
  have hC' : 1 ≤ C := Nat.le_of_succ_le hC
  set first := (List.range C).map (fun i : ℕ => (i : Int))
  have hfirst : first.toFinset.card = C := by
    rw [List.toFinset_card_of_nodup, List.length_map, List.length_range]
    exact List.nodup_range.map (fun i j hij => Int.ofNat.inj hij)
  have habsent : ∀ k : ℕ, C ≤ k → (k : Int) ∉ first := by
    intro k hk hmem
    obtain ⟨i, hi, heq⟩ := List.mem_map.mp hmem
    rw [Int.ofNat.inj heq] at hi
    exact absurd (List.mem_range.mp hi) (Nat.not_lt.mpr hk)
  have hne : (C : Int) ≠ ((C + 1 : ℕ) : Int) := fun heq =>
    absurd (Int.ofNat.inj heq) (Nat.lt_succ_self C).ne
  have hround : [(C : Int), ((C + 1 : ℕ) : Int)].toFinset.card = 2 :=
    List.toFinset_card_of_nodup (by simp)
  have hmisses := mru_misses_alternating hC' hfirst
    (habsent C (Nat.le_refl C)) (habsent (C + 1) (Nat.le_succ C)) hne n
  obtain ⟨b, hb, -, -, hbMisses⟩ := MRUBuffer.run_new hC'
    (first ++ (List.replicate n [(C : Int), ((C + 1 : ℕ) : Int)]).flatten)
  refine ⟨_, b, hb, hbMisses.trans hmisses, ?_⟩
  have hfew := fewMisses_rounds hC' hfirst (hround.trans_le hC) n
  rwa [hround] at hfew

/-- PINNED, and MRU with at least two frames, miss without bound on traces that
cost LRU and CLOCK one miss for each distinct page, so they have no ratio. -/
theorem mru_pinned_no_ratio (hC : 1 ≤ C) :
    (∀ n, ∃ requests b, PinnedBuffer.manager.run (PinnedBuffer.new C) requests =
        some b ∧
      b.metrics.bufferMisses = C + n ∧ FewMisses C requests (C + 1)) ∧
    (2 ≤ C → ∀ n, ∃ requests b, MRUBuffer.manager.run (MRUBuffer.new C)
        requests = some b ∧
      b.metrics.bufferMisses = C + 2 * n ∧ FewMisses C requests (C + 2)) ∧
    ∀ a d, 1 ≤ d →
      ¬PinnedBuffer.manager.HasRatio (PinnedBuffer.new C) C a d ∧
      (2 ≤ C → ¬MRUBuffer.manager.HasRatio (MRUBuffer.new C) C a d) := by
  refine ⟨PinnedBuffer.exists_blocked_trace hC,
    MRUBuffer.exists_alternating_trace, fun a d hd => ⟨?_, fun hC' => ?_⟩⟩
  · have htraces : ∀ n, ∃ requests b, PinnedBuffer.manager.run
          (PinnedBuffer.new C) requests = some b ∧
        n ≤ (PinnedBuffer.manager.getMetrics b).bufferMisses ∧
        ∃ S : Schedule C requests, S.misses ≤ C + 1 := by
      intro n
      obtain ⟨requests, b, hb, hmisses, -, -, hS⟩ :=
        PinnedBuffer.exists_blocked_trace hC n
      exact ⟨requests, b, hb, (Nat.le_add_left n C).trans_eq hmisses.symm, hS⟩
    exact BufferManager.not_hasRatio_of_traces htraces hd
  · have htraces : ∀ n, ∃ requests b, MRUBuffer.manager.run
          (MRUBuffer.new C) requests = some b ∧
        n ≤ (MRUBuffer.manager.getMetrics b).bufferMisses ∧
        ∃ S : Schedule C requests, S.misses ≤ C + 2 := by
      intro n
      obtain ⟨requests, b, hb, hmisses, -, -, hS⟩ :=
        MRUBuffer.exists_alternating_trace hC' n
      have hmany : n ≤ C + 2 * n :=
        Nat.le_add_left_of_le (Nat.le_mul_of_pos_left n Nat.two_pos)
      exact ⟨requests, b, hb, hmany.trans_eq hmisses.symm, hS⟩
    exact BufferManager.not_hasRatio_of_traces htraces hd

theorem mru_pinned_no_ratio_four :
    ∃ requests b, MRUBuffer.manager.run (MRUBuffer.new 4) requests = some b ∧
      b.metrics.bufferMisses = 204 ∧ FewMisses 4 requests 6 :=
  (mru_pinned_no_ratio (by decide : 1 ≤ 4)).2.1 (by decide) 100

end BufferSim

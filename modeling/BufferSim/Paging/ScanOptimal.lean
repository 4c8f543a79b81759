import BufferSim.Paging.Scan
import BufferSim.Paging.LowerBounds
import Mathlib.Data.Nat.Count
import Mathlib.Order.Interval.Finset.Nat

/-!
# MRU on cyclic sequences is optimal

On a cyclic sequence of `N` elements no demand-paging schedule with `C < N`
frames misses less often than MRU.

The first lap misses `N` times under every schedule.  From there on `N - 1`
requests in a row are for distinct elements other than the preceding request,
which is held, so that every schedule misses at least `N - C` of them.  MRU
misses exactly that many.
-/

namespace Paging

variable {α : Type*} [DecidableEq α]

variable {r : ℕ → α} {C N : ℕ}

/-! ## Parts of a trace -/

omit [DecidableEq α] in
theorem getElem?_trace {T t : ℕ} (ht : t < T) :
    (trace r T)[t]? = some (r t) := by
  simp [trace, ht]

theorem mem_window_trace {T i j : ℕ} (hj : i + j ≤ T) {q : α} :
    q ∈ window (trace r T) i j ↔ ∃ t, i ≤ t ∧ t < i + j ∧ r t = q := by
  have htake : ((trace r T).drop i).take j = (List.range' i j).map r := by
    apply List.ext_getElem
    · simp only [List.length_take, List.length_drop, length_trace,
        List.length_map, List.length_range']
      exact Nat.min_eq_left (Nat.le_sub_of_add_le' hj)
    · intro k _ _
      simp [trace]
  rw [window, htake, List.mem_toFinset, List.mem_map]
  simp only [List.mem_range'_1]
  constructor
  · rintro ⟨t, ⟨hi, ht⟩, hr⟩
    exact ⟨t, hi, ht, hr⟩
  · rintro ⟨t, hi, ht, hr⟩
    exact ⟨t, ⟨hi, ht⟩, hr⟩

/-- Further requests take no misses back. -/
theorem Policy.misses_trace_mono {σ : Type*} (P : Policy α σ) (r : ℕ → α)
    {s t : ℕ} (hst : s ≤ t) : P.misses (trace r s) ≤ P.misses (trace r t) := by
  induction t, hst using Nat.le_induction with
  | base => exact Nat.le_refl _
  | succ t hst ih =>
      rw [trace_succ, P.misses_snoc]
      exact ih.trans (Nat.le_add_right _ _)

/-! ## Counting along a period -/

/-- In a period of `L` exactly `m` remainders are below `m`. -/
theorem count_mod_lt_period {L m : ℕ} (hm : m ≤ L) :
    Nat.count (fun j => j % L < m) L = m := by
  have hfilter : (Finset.range L).filter (fun j => j % L < m) =
      Finset.range m := by
    ext j
    simp only [Finset.mem_filter, Finset.mem_range]
    constructor
    · rintro ⟨hj, hlt⟩
      rwa [Nat.mod_eq_of_lt hj] at hlt
    · intro hj
      have hjL := hj.trans_le hm
      exact ⟨hjL, by rwa [Nat.mod_eq_of_lt hjL]⟩
  rw [Nat.count_eq_card_filter_range, hfilter, Finset.card_range]

theorem count_mod_lt_add_period {L m : ℕ} (hm : m ≤ L) (j : ℕ) :
    Nat.count (fun j => j % L < m) (j + L) =
      Nat.count (fun j => j % L < m) j + m := by
  rw [Nat.count_add', count_mod_lt_period hm]
  simp only [Nat.add_mod_right]

namespace Cyclic

/-! ## The misses of MRU -/

/-- The first misses fill the frames, and then `N - C` of each `N - 1`
requests miss. -/
theorem mru_misses_eq (h : Cyclic N r) (hC : 1 ≤ C) (hN : C < N) (j : ℕ) :
    ((mruRule α).policy C).misses (trace r (C + j)) =
      C + Nat.count (fun j => j % (N - 1) < N - C) j := by
  induction j with
  | zero =>
      have hcard : (trace r C).toFinset.card = C := by
        rw [List.toFinset_card_of_nodup (h.nodup_trace hN.le), length_trace]
      rw [Nat.add_zero, Nat.count_zero,
        ((mruRule α).fillsFirst C).misses_eq hcard.le, hcard, Nat.add_zero]
  | succ j ih =>
      have hhit := h.mru_hit_iff hC hN (C + j)
      rw [Nat.add_sub_cancel_left] at hhit
      rw [← Nat.add_assoc, trace_succ, Policy.misses_snoc, ih, Nat.count_succ,
        Nat.add_assoc]
      congr 2
      by_cases hlap : j % (N - 1) < N - C
      · rw [if_neg, if_pos hlap]
        exact fun hmem => absurd (hhit.mp hmem).2 (Nat.not_le.mpr hlap)
      · rw [if_pos, if_neg hlap]
        exact hhit.mpr ⟨Nat.le_add_right C j, Nat.not_lt.mp hlap⟩

/-- The misses of a lap. -/
theorem mru_misses_add_lap (h : Cyclic N r) (hC : 1 ≤ C) (hN : C < N) {t : ℕ}
    (ht : C ≤ t) :
    ((mruRule α).policy C).misses (trace r (t + (N - 1))) =
      ((mruRule α).policy C).misses (trace r t) + (N - C) := by
  obtain ⟨j, rfl⟩ := Nat.exists_eq_add_of_le ht
  rw [Nat.add_assoc, h.mru_misses_eq hC hN (j + (N - 1)),
    h.mru_misses_eq hC hN j,
    count_mod_lt_add_period (Nat.sub_le_sub_left hC N), Nat.add_assoc]

/-- Until the second lap MRU misses on the `N` elements only once each. -/
theorem mru_misses_first (h : Cyclic N r) (hC : 1 ≤ C) (hN : C < N) {t : ℕ}
    (ht : t ≤ C + (N - 1)) :
    ((mruRule α).policy C).misses (trace r t) ≤ N := by
  refine (Policy.misses_trace_mono _ r ht).trans ?_
  rw [h.mru_misses_eq hC hN, count_mod_lt_period (Nat.sub_le_sub_left hC N),
    Nat.add_sub_cancel' hN.le]

/-! ## The misses of a schedule -/

/-- The requests of a window of at most one period are distinct. -/
theorem card_window (h : Cyclic N r) {T i j : ℕ} (hjT : i + j ≤ T)
    (hj : j ≤ N) : (window (trace r T) i j).card = j := by
  have himage : window (trace r T) i j =
      (Finset.Ico i (i + j)).image r := by
    ext q
    rw [mem_window_trace hjT, Finset.mem_image]
    simp only [Finset.mem_Ico, and_assoc]
  rw [himage, Finset.card_image_of_injOn, Nat.card_Ico, Nat.add_sub_cancel_left]
  intro s hs t ht heq
  simp only [Finset.coe_Ico, Set.mem_Ico] at hs ht
  by_contra hne
  rcases Nat.lt_or_gt_of_ne hne with hlt | hlt
  · exact h.distinct s t hlt (by omega) heq
  · exact h.distinct t s hlt (by omega) heq.symm

/-- A schedule misses each of the first `N` requests. -/
theorem le_missesBefore_first (h : Cyclic N r) {T t : ℕ}
    (S : Schedule C (trace r T)) (ht : t ≤ T) (htN : t ≤ N) :
    t ≤ S.missesBefore t := by
  have hmisses := S.misses_window 0 (j := t) (by simpa using ht)
  rw [S.resident_zero, Finset.sdiff_empty, h.card_window (by simpa using ht)
    htN, Nat.zero_add] at hmisses
  exact (Nat.le_add_left _ _).trans hmisses

/-- A schedule misses at least `N - C` of any `N - 1` requests in a row. -/
theorem missesBefore_add_lap (h : Cyclic N r) {T t : ℕ} (ht : 1 ≤ t)
    (S : Schedule C (trace r T)) (htT : t + (N - 1) ≤ T) :
    S.missesBefore t + (N - C) ≤ S.missesBefore (t + (N - 1)) := by
  have hlength : t + (N - 1) ≤ (trace r T).length := by
    rwa [length_trace]
  refine (Nat.add_le_add_left ?_ _).trans (S.misses_window t hlength)
  -- the preceding request is held and is none of the window
  obtain ⟨k, rfl⟩ := Nat.exists_eq_add_of_le' ht
  have hheld : r k ∈ S.resident (k + 1) :=
    S.serves k _ (getElem?_trace (by omega))
  have hout : r k ∉ window (trace r T) (k + 1) (N - 1) := by
    rw [mem_window_trace htT]
    rintro ⟨s, hs, hs', heq⟩
    exact h.distinct k s hs (by omega) heq.symm
  have hsub : window (trace r T) (k + 1) (N - 1) \ S.resident (k + 1) =
      window (trace r T) (k + 1) (N - 1) \ (S.resident (k + 1)).erase (r k) := by
    ext q
    simp only [Finset.mem_sdiff, Finset.mem_erase, not_and]
    refine and_congr_right (fun hq => ?_)
    have hne : q ≠ r k := fun heq => hout (heq ▸ hq)
    exact ⟨fun hnot _ => hnot, fun himp => himp hne⟩
  have hframes := S.card_le (k + 1)
  have hcard := Finset.le_card_sdiff ((S.resident (k + 1)).erase (r k))
    (window (trace r T) (k + 1) (N - 1))
  rw [h.card_window htT (Nat.sub_le N 1), Finset.card_erase_of_mem hheld,
    ← hsub] at hcard
  have hpos := Finset.card_pos.mpr ⟨_, hheld⟩
  omega

/-- No demand-paging schedule misses less often than MRU on any number of
requests of a cyclic sequence. -/
theorem mru_misses_le_schedule (h : Cyclic N r) (hC : 1 ≤ C) (hN : C < N)
    (T : ℕ) (S : Schedule C (trace r T)) :
    ((mruRule α).policy C).misses (trace r T) ≤ S.misses := by
  have hprefix : ∀ t, t ≤ T →
      ((mruRule α).policy C).misses (trace r t) ≤ S.missesBefore t := by
    intro t
    induction t using Nat.strong_induction_on with
    | _ t ih =>
        intro htT
        rcases Nat.lt_or_ge (C + (N - 1)) t with hlate | hearly
        · -- one lap before
          obtain ⟨s, hs⟩ := Nat.exists_eq_add_of_le'
            ((Nat.le_add_left (N - 1) C).trans hlate.le)
          subst hs
          have hCs : C ≤ s := by omega
          have hbefore := ih s (by omega) (by omega)
          rw [h.mru_misses_add_lap hC hN hCs]
          exact (Nat.add_le_add_right hbefore _).trans
            (h.missesBefore_add_lap (hC.trans hCs) S htT)
        · rcases Nat.lt_or_ge N t with hpast | hfirst
          · have hN' := h.le_missesBefore_first S (hpast.le.trans htT)
              (Nat.le_refl N)
            have hlater := S.misses_window N (j := t - N) (by
              rwa [Nat.add_sub_cancel' hpast.le, length_trace])
            rw [Nat.add_sub_cancel' hpast.le] at hlater
            exact (h.mru_misses_first hC hN hearly).trans
              (hN'.trans ((Nat.le_add_right _ _).trans hlater))
          · refine le_trans ?_ (h.le_missesBefore_first S htT hfirst)
            rw [Policy.misses]
            exact (Policy.missLog_sublist _ _ _).length_le.trans
              (length_trace r t).le
  have hall := hprefix T (Nat.le_refl T)
  rwa [Schedule.misses, length_trace]

end Cyclic
end Paging

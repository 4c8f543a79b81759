import BufferSim.Paging.Filling
import BufferSim.Paging.Lru
import BufferSim.Paging.Mru

/-!
# Long scans

Requests that come from an infinite sequence.  If no element is requested again
within `C` requests, LRU and the second-chance policy with `C` frames both hold
the last `C` requests, so neither of them ever hits.

A cyclic sequence repeats `N` distinct elements.  With fewer than `N` frames the
MRU policy goes through laps of `N - 1` requests: it replaces the preceding
request `N - C` times, and then hits the `C - 1` elements that it kept from the
start of the lap.
-/

namespace Paging

variable {α σ : Type*}

/-- The first `n` requests of a sequence. -/
def trace (r : ℕ → α) (n : ℕ) : List α :=
  (List.range n).map r

/-- The last `C` of the first `n` requests. -/
def recentRequests (r : ℕ → α) (C n : ℕ) : List α :=
  (trace r n).drop (n - C)

/-- No element is requested again within `C` requests. -/
def Spaced (C : ℕ) (r : ℕ → α) : Prop :=
  ∀ i j, i < j → j ≤ i + C → r i ≠ r j

/-- The sequence repeats `N` distinct elements. -/
structure Cyclic (N : ℕ) (r : ℕ → α) : Prop where
  period : ∀ i, r (i + N) = r i
  distinct : ∀ i j, i < j → j < i + N → r i ≠ r j

variable {r : ℕ → α} {C N n : ℕ}

theorem Cyclic.spaced (h : Cyclic N r) (hN : C < N) : Spaced C r :=
  fun i j hij hj => h.distinct i j hij (hj.trans_lt (Nat.add_lt_add_left hN i))

/-- An element was requested one period ago. -/
theorem Cyclic.period_sub (h : Cyclic N r) {i : ℕ} (hi : N ≤ i) :
    r (i - N) = r i := by
  rw [← h.period (i - N), Nat.sub_add_cancel hi]

/-! ## Traces -/

@[simp] theorem length_trace (r : ℕ → α) (n : ℕ) :
    (trace r n).length = n := by
  simp [trace]

theorem trace_succ (r : ℕ → α) (n : ℕ) :
    trace r (n + 1) = trace r n ++ [r n] := by
  simp [trace, List.range_succ]

theorem mem_trace {q : α} : q ∈ trace r n ↔ ∃ i, i < n ∧ r i = q := by
  simp [trace]

theorem length_recentRequests (r : ℕ → α) (C n : ℕ) :
    (recentRequests r C n).length = min C n := by
  rw [recentRequests, List.length_drop, length_trace, Nat.sub_sub_eq_min,
    Nat.min_comm]

theorem mem_recentRequests {q : α} (hq : q ∈ recentRequests r C n) :
    ∃ i, i < n ∧ n ≤ i + C ∧ r i = q := by
  obtain ⟨i, hi, hget⟩ := List.mem_iff_getElem.mp hq
  simp only [recentRequests, List.length_drop, length_trace] at hi
  refine ⟨n - C + i, by omega, by omega, ?_⟩
  simpa [recentRequests, trace] using hget

theorem recentRequests_succ_of_lt (hn : n < C) :
    recentRequests r C (n + 1) = recentRequests r C n ++ [r n] := by
  have hall : n + 1 - C = 0 := Nat.sub_eq_zero_of_le hn
  have hall' : n - C = 0 := Nat.sub_eq_zero_of_le hn.le
  simp [recentRequests, hall, hall', trace_succ]

/-- A further request pushes the oldest one out. -/
theorem recentRequests_succ_of_le (hC : 1 ≤ C) (hn : C ≤ n) :
    recentRequests r C (n + 1) = (recentRequests r C n).tail ++ [r n] := by
  have hshift : n + 1 - C = n - C + 1 := Nat.succ_sub hn
  have hle : n - C + 1 ≤ (trace r n).length := by
    rw [length_trace]
    exact Nat.sub_lt (hC.trans hn) hC
  simp only [recentRequests, List.tail_drop, trace_succ, hshift,
    List.drop_append_of_le_length hle]

theorem Spaced.not_mem_recentRequests (h : Spaced C r) (n : ℕ) :
    r n ∉ recentRequests r C n := by
  intro hmem
  obtain ⟨i, hi, hle, heq⟩ := mem_recentRequests hmem
  exact h i n hi hle heq

/-! ## Hits -/

variable [DecidableEq α]

namespace Policy

/-- Which of the requests hit, when they are served from `s`. -/
def hitLog (P : Policy α σ) (s : σ) (requests : List α) : List Bool :=
  (P.outcomes s requests).map Outcome.isHit

theorem hitLog_trace (P : Policy α σ) (r : ℕ → α) (n : ℕ) :
    P.hitLog P.start (trace r n) =
      (List.range n).map
        (fun t => decide (r t ∈ P.resident (P.run (trace r t)))) := by
  induction n with
  | zero => rfl
  | succ n ih =>
      have hlast : (P.outcome (P.run (trace r n)) (r n)).isHit =
          decide (r n ∈ P.resident (P.run (trace r n))) := by
        rw [Bool.eq_iff_iff, P.hit_iff, decide_eq_true_eq]
      simp only [hitLog] at ih
      simp only [hitLog, trace_succ, outcomes_snoc, List.map_append, ih,
        List.range_succ, List.map_cons, List.map_nil, hlast]

theorem hitLog_trace_of_misses (P : Policy α σ)
    (hmiss : ∀ t, r t ∉ P.resident (P.run (trace r t))) (n : ℕ) :
    P.hitLog P.start (trace r n) = List.replicate n false := by
  simp [hitLog_trace, hmiss]

end Policy

/-! ## LRU and second chance on a spaced sequence -/

theorem Spaced.lru_elems (h : Spaced C r) (hC : 1 ≤ C) (n : ℕ) :
    (((lruRule α).policy C).run (trace r n)).elems =
      (recentRequests r C n).reverse := by
  induction n with
  | zero => simp [trace, recentRequests]
  | succ n ih =>
      set s := ((lruRule α).policy C).run (trace r n)
      have hfresh : r n ∉ (recentRequests r C n).reverse := by
        simpa using h.not_mem_recentRequests n
      have hlen := length_recentRequests r C n
      rw [trace_succ, Policy.run_snoc, EvictionRule.policy_next_elems,
        lru_reorder_eq_take s.nodup s.length_le, ih,
        List.erase_of_not_mem hfresh]
      rcases Nat.lt_or_ge n C with hn | hn
      · rw [recentRequests_succ_of_lt hn, List.reverse_append,
          List.take_of_length_le]
        · rfl
        · rw [List.length_cons, List.length_reverse, hlen,
            Nat.min_eq_right hn.le]
          exact hn
      · obtain ⟨k, rfl⟩ := Nat.exists_eq_add_of_le' hC
        rw [recentRequests_succ_of_le hC hn, List.reverse_append,
          List.take_succ_cons, ← List.dropLast_reverse,
          List.dropLast_eq_take, List.length_reverse, hlen,
          Nat.min_eq_left hn]
        rfl

theorem Spaced.lru_misses (h : Spaced C r) (hC : 1 ≤ C) (t : ℕ) :
    r t ∉ ((lruRule α).policy C).resident
      (((lruRule α).policy C).run (trace r t)) := by
  simpa [h.lru_elems hC t] using h.not_mem_recentRequests t

omit [DecidableEq α] in
/-- A sweep over set bits in front of clear ones gives up the first element
whose bit was clear from the start. -/
theorem sweep_set_clear (marked : List α) (v : α) (clear : List α) :
    sweep (marked.map (·, true) ++ (v :: clear).map (·, false)) =
      some (v, (clear ++ marked).map (·, false)) := by
  induction marked generalizing clear with
  | nil => simp
  | cons p marked ih =>
      have hturn := ih (clear ++ [p])
      simp only [List.cons_append, List.append_assoc, List.nil_append]
        at hturn
      rw [List.map_cons, List.cons_append, sweep_cons_true, ← hturn]
      simp

/-- As long as nothing hits, the queue is in the order of the requests, with the
clear bits in front. -/
def InOrder (queue : List (α × Bool)) (l : List α) : Prop :=
  ∃ clear marked : List α, l = clear ++ marked ∧
    queue = clear.map (·, false) ++ marked.map (·, true)

omit [DecidableEq α] in
theorem InOrder.map_fst {queue : List (α × Bool)} {l : List α}
    (h : InOrder queue l) : queue.map Prod.fst = l := by
  obtain ⟨clear, marked, rfl, rfl⟩ := h
  simp [Function.comp_def]

omit [DecidableEq α] in
theorem InOrder.append {queue : List (α × Bool)} {l : List α}
    (h : InOrder queue l) (p : α) :
    InOrder (queue ++ [(p, true)]) (l ++ [p]) := by
  obtain ⟨clear, marked, rfl, rfl⟩ := h
  exact ⟨clear, marked ++ [p], by simp, by simp⟩

omit [DecidableEq α] in
/-- A sweep gives up the oldest element, like a plain queue. -/
theorem InOrder.sweep {queue rest : List (α × Bool)} {l : List α} {v : α}
    (h : InOrder queue l) (hs : sweep queue = some (v, rest)) :
    InOrder rest l.tail := by
  obtain ⟨clear, marked, rfl, rfl⟩ := h
  cases clear with
  | cons w clear =>
      simp only [List.map_cons, List.cons_append, sweep_cons_false,
        Option.some.injEq, Prod.mk.injEq] at hs
      exact ⟨clear, marked, rfl, hs.2.symm⟩
  | nil =>
      -- all bits are set: the sweep clears them and comes back to the head
      cases marked with
      | nil => simp at hs
      | cons w marked =>
          have hturn := sweep_set_clear marked w []
          simp only [List.map_nil, List.nil_append, List.map_cons,
            sweep_cons_true] at hs hturn
          rw [hturn, Option.some.injEq, Prod.mk.injEq] at hs
          exact ⟨marked, [], by simp, by simp [← hs.2]⟩

theorem Spaced.secondChance_inOrder (h : Spaced C r) (hC : 1 ≤ C) (n : ℕ) :
    InOrder ((secondChance α C).run (trace r n)).entries
      (recentRequests r C n) := by
  induction n with
  | zero => exact ⟨[], [], by simp [recentRequests, trace], rfl⟩
  | succ n ih =>
      have hfresh := h.not_mem_recentRequests n
      have hlen := length_recentRequests r C n
      have hentries := congrArg List.length ih.map_fst
      rw [← ih.map_fst] at hfresh
      rw [List.length_map, hlen] at hentries
      rw [trace_succ, Policy.run_snoc, secondChance_next_entries]
      rcases ChanceQueue.serve_cases_of_pos hC
          ((secondChance α C).run (trace r n)).entries (r n) with
        ⟨hp, -⟩ | ⟨-, hroom, hserve⟩ | ⟨v, rest, -, hfull, hs, hserve⟩
      · exact absurd hp hfresh
      · rw [hserve, recentRequests_succ_of_lt (by omega)]
        exact ih.append (r n)
      · rw [hserve, recentRequests_succ_of_le hC (by omega)]
        exact (ih.sweep hs).append (r n)

theorem Spaced.secondChance_misses (h : Spaced C r) (hC : 1 ≤ C) (t : ℕ) :
    r t ∉ (secondChance α C).resident
      ((secondChance α C).run (trace r t)) := by
  simpa only [secondChance_resident, (h.secondChance_inOrder hC t).map_fst,
    List.mem_toFinset] using h.not_mem_recentRequests t

/-! ## MRU on a cyclic sequence -/

namespace Cyclic

variable {t : ℕ}

omit [DecidableEq α] in
theorem nodup_trace (h : Cyclic N r) (hn : n ≤ N) : (trace r n).Nodup := by
  refine List.Nodup.map_on ?_ List.nodup_range
  intro i hi j hj heq
  simp only [List.mem_range] at hi hj
  by_contra hne
  rcases Nat.lt_or_gt_of_ne hne with hij | hij
  · exact h.distinct i j hij (Nat.lt_add_left i (hj.trans_le hn)) heq
  · exact h.distinct j i hij (Nat.lt_add_left j (hi.trans_le hn)) heq.symm

/-- From `C` requests on all frames are in use. -/
theorem mru_length (h : Cyclic N r) (hN : C < N) (ht : C ≤ t) :
    (((mruRule α).policy C).run (trace r t)).elems.length = C := by
  have hcard := ((mruRule α).fillsFirst C).card_resident (trace r t)
  have hsub : (trace r C).toFinset ⊆ (trace r t).toFinset := by
    intro q hq
    simp only [List.mem_toFinset, mem_trace] at hq ⊢
    obtain ⟨i, hi, rfl⟩ := hq
    exact ⟨i, hi.trans_le ht, rfl⟩
  have hmany := Finset.card_le_card hsub
  rw [List.toFinset_card_of_nodup (h.nodup_trace hN.le), length_trace]
    at hmany
  rw [EvictionRule.policy_resident, List.toFinset_card_of_nodup
    (((mruRule α).policy C).run (trace r t)).nodup] at hcard
  omega

end Cyclic

/-- In the lap of MRU that starts after `start` requests, `elems` is resident
after `j` more: the `C - 1` requests before the last one of the preceding lap,
and the latest request that was loaded. -/
def InLap (N C : ℕ) (r : ℕ → α) (start j : ℕ) (elems : List α) : Prop :=
  ∀ q, q ∈ elems ↔
    (∃ i, start ≤ i + C ∧ i + 2 ≤ start ∧ r i = q) ∨
      r (start + min j (N - C) - 1) = q

/-- The first lap starts when the frames are full. -/
theorem inLap_first (r : ℕ → α) (N : ℕ) (hC : 1 ≤ C) :
    InLap N C r C 0 (((mruRule α).policy C).run (trace r C)).elems := by
  have hcard : (trace r C).toFinset.card ≤ C := by
    simpa using List.toFinset_card_le (trace r C)
  have hresident := ((mruRule α).fillsFirst C).resident_eq hcard
  intro q
  rw [← List.mem_toFinset, ← EvictionRule.policy_resident, hresident,
    List.mem_toFinset, mem_trace]
  constructor
  · rintro ⟨i, hi, rfl⟩
    by_cases hlast : i + 1 = C
    · exact Or.inr (congrArg r (by omega))
    · exact Or.inl ⟨i, by omega, by omega, rfl⟩
  · rintro (⟨i, -, hi, rfl⟩ | rfl)
    · exact ⟨i, by omega, rfl⟩
    · exact ⟨_, by omega, rfl⟩

namespace Cyclic

variable {start j : ℕ}

omit [DecidableEq α] in
/-- A request of a lap hits exactly when it is one of the last `C - 1`. -/
theorem mem_iff_of_inLap (h : Cyclic N r) (hC : 1 ≤ C) (hN : C < N)
    {elems : List α} (hlap : InLap N C r start j elems) (hstart : C ≤ start)
    (hj : j < N - 1) : r (start + j) ∈ elems ↔ N - C ≤ j := by
  rw [hlap]
  constructor
  · rintro (⟨i, hi, hi', heq⟩ | heq)
    · by_contra hlt
      exact h.distinct i (start + j) (by omega) (by omega) heq
    · by_contra hlt
      exact h.distinct _ (start + j) (by omega) (by omega) heq
  · intro hle
    exact Or.inl ⟨start + j - N, by omega, by omega,
      h.period_sub (by omega)⟩

/-- One request inside a lap. -/
theorem inLap_succ (h : Cyclic N r) (hC : 1 ≤ C) (hN : C < N)
    (hstart : C ≤ start) (hj : j < N - 1)
    (hlap : InLap N C r start j
      (((mruRule α).policy C).run (trace r (start + j))).elems) :
    InLap N C r start (j + 1)
      (((mruRule α).policy C).run (trace r (start + (j + 1)))).elems := by
  have hhit := h.mem_iff_of_inLap hC hN hlap hstart hj
  have hlen := h.mru_length (t := start + j) hN (by omega)
  have hlast : (trace r (start + j)).getLast? = some (r (start + j - 1)) := by
    obtain ⟨k, hk⟩ : ∃ k, start + j = k + 1 := ⟨start + j - 1, by omega⟩
    simp [hk, trace_succ]
  intro q
  rw [← Nat.add_assoc, trace_succ, mem_mru_next_iff hC, hlast, hhit, hlen,
    hlap]
  by_cases hle : N - C ≤ j
  · -- a hit: the request is one of the elements that were kept
    have hmem := (hlap (r (start + j))).mp (hhit.mpr hle)
    have hmin : min (j + 1) (N - C) = min j (N - C) := by
      rw [Nat.min_eq_right hle, Nat.min_eq_right (Nat.le_succ_of_le hle)]
    simp only [hle, not_true_eq_false, false_and, not_false_eq_true, and_true,
      hmin]
    constructor
    · rintro (rfl | hq)
      · exact hmem
      · exact hq
    · exact Or.inr
  · -- a miss: the preceding request is replaced
    have hmin : min (j + 1) (N - C) = j + 1 :=
      Nat.min_eq_left (Nat.lt_of_not_le hle)
    have hmin' : min j (N - C) = j := Nat.min_eq_left (Nat.le_of_not_le hle)
    simp only [hle, not_false_eq_true, true_and, Option.some.injEq, hmin,
      hmin', Nat.le_refl, Nat.add_sub_cancel, ← Nat.add_assoc]
    constructor
    · rintro (rfl | ⟨hq | hq, hne⟩)
      · exact Or.inr rfl
      · exact Or.inl hq
      · exact absurd hq hne
    · rintro (⟨i, hi, hi', rfl⟩ | rfl)
      · refine Or.inr ⟨Or.inl ⟨i, hi, hi', rfl⟩, ?_⟩
        exact fun heq => h.distinct i (start + j - 1) (by omega) (by omega)
          heq.symm
      · exact Or.inl rfl

omit [DecidableEq α] in
/-- The end of a lap is the start of the next one. -/
theorem inLap_next (h : Cyclic N r) (hC : 1 ≤ C) (hN : C < N)
    (hstart : C ≤ start) {elems : List α}
    (hlap : InLap N C r start (N - 1) elems) :
    InLap N C r (start + (N - 1)) 0 elems := by
  intro q
  rw [hlap]
  have hmin : min (N - 1) (N - C) = N - C :=
    Nat.min_eq_right (Nat.sub_le_sub_left hC N)
  simp only [hmin, Nat.zero_min, Nat.add_zero]
  constructor
  · rintro (⟨i, hi, hi', rfl⟩ | rfl)
    · by_cases hlast : i + 2 = start
      · exact Or.inr ((congrArg r (by omega)).trans (h.period i))
      · exact Or.inl ⟨i + N, by omega, by omega, h.period i⟩
    · by_cases hone : C = 1
      · exact Or.inr (congrArg r (by omega))
      · exact Or.inl ⟨_, by omega, by omega, rfl⟩
  · rintro (⟨i, hi, hi', rfl⟩ | rfl)
    · by_cases hfirst : i + 1 + C = start + N
      · exact Or.inr (congrArg r (by omega))
      · exact Or.inl ⟨i - N, by omega, by omega, h.period_sub (by omega)⟩
    · by_cases hone : C = 1
      · exact Or.inr (congrArg r (by omega))
      · refine Or.inl ⟨start - 2, by omega, by omega, ?_⟩
        have hperiod := h.period (start - 2)
        rw [← hperiod]
        exact congrArg r (by omega)

/-- The resident elements at every position of every lap. -/
theorem inLap (h : Cyclic N r) (hC : 1 ≤ C) (hN : C < N) (lap : ℕ) :
    ∀ j, j ≤ N - 1 → InLap N C r (C + lap * (N - 1)) j
      (((mruRule α).policy C).run
        (trace r (C + lap * (N - 1) + j))).elems := by
  have hwithin : ∀ start, C ≤ start →
      InLap N C r start 0
        (((mruRule α).policy C).run (trace r start)).elems →
      ∀ j, j ≤ N - 1 → InLap N C r start j
        (((mruRule α).policy C).run (trace r (start + j))).elems := by
    intro start hstart hzero j
    induction j with
    | zero => exact fun _ => hzero
    | succ j ih =>
        intro hj
        exact h.inLap_succ hC hN hstart hj (ih (Nat.le_of_succ_le hj))
  induction lap with
  | zero =>
      have hfirst := inLap_first r N hC
      rw [Nat.zero_mul, Nat.add_zero]
      exact hwithin C (Nat.le_refl C) hfirst
  | succ lap ih =>
      have hend := h.inLap_next hC hN (Nat.le_add_right C _)
        (ih (N - 1) (Nat.le_refl _))
      have hsucc : C + (lap + 1) * (N - 1) =
          C + lap * (N - 1) + (N - 1) := by
        rw [Nat.succ_mul, Nat.add_assoc]
      rw [hsucc]
      exact hwithin _ (by omega) hend

/-- When MRU hits on a cyclic sequence. -/
theorem mru_hit_iff (h : Cyclic N r) (hC : 1 ≤ C) (hN : C < N) (t : ℕ) :
    r t ∈ ((mruRule α).policy C).resident
        (((mruRule α).policy C).run (trace r t)) ↔
      C ≤ t ∧ N - C ≤ (t - C) % (N - 1) := by
  rw [EvictionRule.policy_resident, List.mem_toFinset]
  rcases Nat.lt_or_ge t C with ht | ht
  · have hnew : r t ∉ trace r t := by
      intro hmem
      obtain ⟨i, hi, heq⟩ := mem_trace.mp hmem
      have ht' : t < i + N := Nat.lt_add_left i (ht.trans hN)
      exact h.distinct i t hi ht' heq
    have hmiss : r t ∉ (((mruRule α).policy C).run (trace r t)).elems :=
      mt (mruRule α).mem_of_mem_elems hnew
    simp [hmiss, Nat.not_le.mpr ht]
  · have hpos : 0 < N - 1 := Nat.sub_pos_of_lt (hC.trans_lt hN)
    have hj := Nat.mod_lt (t - C) hpos
    have hsplit : t = C + (t - C) / (N - 1) * (N - 1) + (t - C) % (N - 1) := by
      have hdiv := Nat.div_add_mod' (t - C) (N - 1)
      omega
    have hlap := h.inLap hC hN ((t - C) / (N - 1)) _ hj.le
    have hhit := h.mem_iff_of_inLap hC hN hlap (Nat.le_add_right C _) hj
    rw [← hsplit] at hhit
    simp [hhit, ht]

end Cyclic
end Paging

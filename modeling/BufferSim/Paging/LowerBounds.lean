import BufferSim.Paging.Filling
import BufferSim.Paging.Lru
import BufferSim.Paging.Mru
import BufferSim.Paging.Pinned

/-!
# Lower bounds on misses

A demand-paging schedule misses every element of a window that it did not hold
when the window began.

A policy with `C` frames can be made to miss every request over `C + 1`
elements.  On the same requests a schedule that looks `C - 1` requests ahead
gives up an element which is not needed soon, so that it misses only every
`C`-th request.  No policy therefore has a better ratio than `C`.

MRU and pinning have no ratio at all: with full frames two elements in turn
replace each other under MRU, and frames full of pinned elements serve nothing
else, while a conservative policy loads such elements once.
-/

namespace Paging

variable {α σ : Type*} [DecidableEq α]

/-! ## Windows of a schedule -/

/-- The elements requested by the `j` requests after the first `i`. -/
def window (requests : List α) (i j : ℕ) : Finset α :=
  ((requests.drop i).take j).toFinset

@[simp] theorem window_zero (requests : List α) (i : ℕ) :
    window requests i 0 = ∅ := by
  simp [window]

theorem window_succ {requests : List α} {i j : ℕ} {p : α}
    (hp : requests[i + j]? = some p) :
    window requests i (j + 1) = insert p (window requests i j) := by
  have hget : (requests.drop i)[j]? = some p := by
    rw [List.getElem?_drop, hp]
  rw [window, take_succ_of_getElem?_eq_some hget, List.toFinset_append,
    List.toFinset_cons, List.toFinset_nil, insert_empty_eq,
    Finset.union_comm]
  rfl

namespace Schedule

variable {h : ℕ} {requests : List α}

/-- What a schedule holds was held when the window began or was requested in
it. -/
theorem resident_subset_window (S : Schedule h requests) (i : ℕ) {j : ℕ}
    (hj : i + j ≤ requests.length) :
    S.resident (i + j) ⊆ S.resident i ∪ window requests i j := by
  induction j with
  | zero => simp
  | succ j ih =>
      have hp : requests[i + j]? = some requests[i + j] :=
        List.getElem?_eq_getElem hj
      have hprev := ih (Nat.le_of_succ_le hj)
      rw [window_succ hp, Finset.union_insert]
      exact (S.demand (i + j) _ hp).trans (Finset.insert_subset_insert _ hprev)

/-- Every element of a window that was not held when the window began is
missed. -/
theorem misses_window (S : Schedule h requests) (i : ℕ) {j : ℕ}
    (hj : i + j ≤ requests.length) :
    S.missesBefore i + (window requests i j \ S.resident i).card ≤
      S.missesBefore (i + j) := by
  induction j with
  | zero => simp
  | succ j ih =>
      have hp : requests[i + j]? = some requests[i + j] :=
        List.getElem?_eq_getElem hj
      have hprev := ih (Nat.le_of_succ_le hj)
      have hheld := S.resident_subset_window i (Nat.le_of_succ_le hj)
      rw [window_succ hp, ← Nat.add_assoc, S.missesBefore_succ hp]
      by_cases hold : requests[i + j] ∈ S.resident i ∪ window requests i j
      · -- the element is no new one of the window
        have hsame : insert requests[i + j] (window requests i j) \
            S.resident i = window requests i j \ S.resident i := by
          ext q
          simp only [Finset.mem_union] at hold
          simp only [Finset.mem_sdiff, Finset.mem_insert]
          constructor
          · rintro ⟨rfl | hq, hnot⟩
            · exact ⟨hold.resolve_left hnot, hnot⟩
            · exact ⟨hq, hnot⟩
          · rintro ⟨hq, hnot⟩
            exact ⟨Or.inr hq, hnot⟩
        rw [hsame]
        exact hprev.trans (Nat.le_add_right _ _)
      · have hmiss : requests[i + j] ∉ S.resident (i + j) :=
          fun hmem => hold (hheld hmem)
        have hcard := Finset.card_insert_le requests[i + j]
          (window requests i j \ S.resident i)
        have hsub : insert requests[i + j] (window requests i j) \
            S.resident i ⊆
              insert requests[i + j] (window requests i j \ S.resident i) := by
          intro q hq
          simp only [Finset.mem_sdiff, Finset.mem_insert] at hq ⊢
          exact hq.1.imp_right (fun hw => ⟨hw, hq.2⟩)
        rw [if_neg hmiss]
        calc S.missesBefore i + (insert requests[i + j]
                (window requests i j) \ S.resident i).card
            ≤ S.missesBefore i +
                ((window requests i j \ S.resident i).card + 1) :=
              Nat.add_le_add_left ((Finset.card_le_card hsub).trans hcard) _
          _ ≤ S.missesBefore (i + j) + 1 := Nat.succ_le_succ hprev

end Schedule

/-! ## Requests that always miss -/

/-- Over more elements than frames some element is always missing, so every
request can be made to miss. -/
theorem Policy.exists_all_miss (P : Policy α σ) {C : ℕ}
    (hcard : ∀ s, (P.resident s).card ≤ C) {ground : Finset α}
    (hlarge : C < ground.card) (n : ℕ) :
    ∃ requests : List α, requests.length = n ∧
      (∀ p ∈ requests, p ∈ ground) ∧ P.misses requests = n := by
  induction n with
  | zero => exact ⟨[], rfl, by simp, rfl⟩
  | succ n ih =>
      obtain ⟨requests, hlength, hmem, hmisses⟩ := ih
      have hnot : ¬ ground ⊆ P.resident (P.run requests) := by
        intro hsub
        exact absurd (Finset.card_le_card hsub)
          (Nat.not_le.mpr ((hcard _).trans_lt hlarge))
      obtain ⟨p, hp, hmiss⟩ := Finset.not_subset.mp hnot
      refine ⟨requests ++ [p], by simp [hlength], ?_, ?_⟩
      · intro q hq
        rcases List.mem_append.mp hq with hold | hlast
        · exact hmem q hold
        · rw [List.mem_singleton.mp hlast]
          exact hp
      · rw [P.misses_snoc, if_neg hmiss, hmisses]

/-! ## Looking ahead -/

/-- The frames after a request for `p`, when the elements of `soon` are needed
next: full frames give up an element that is not among them. -/
noncomputable def lookaheadStep (C : ℕ) (soon : List α) (frames : Finset α)
    (p : α) : Finset α :=
  if p ∈ frames then frames
  else if frames.card < C then insert p frames
  else if h : (frames \ soon.toFinset).Nonempty then
    insert p (frames.erase h.choose)
  else {p}

/-- The frames after the first requests, looking `C - 1` requests ahead. -/
noncomputable def lookahead (C : ℕ) (requests : List α) : ℕ → Finset α
  | 0 => ∅
  | i + 1 =>
      match requests[i]? with
      | some p =>
          lookaheadStep C ((requests.drop (i + 1)).take (C - 1))
            (lookahead C requests i) p
      | none => lookahead C requests i

variable {C : ℕ} {requests : List α}

theorem lookahead_succ {i : ℕ} {p : α} (hp : requests[i]? = some p) :
    lookahead C requests (i + 1) =
      lookaheadStep C ((requests.drop (i + 1)).take (C - 1))
        (lookahead C requests i) p := by
  rw [lookahead, hp]

/-- One request: a hit, a free frame, or an element that is not needed soon. -/
theorem lookaheadStep_cases {soon : List α} (hsoon : soon.length < C)
    (frames : Finset α) (p : α) :
    (p ∈ frames ∧ lookaheadStep C soon frames p = frames) ∨
    (p ∉ frames ∧ frames.card < C ∧
      lookaheadStep C soon frames p = insert p frames) ∨
    (∃ v, p ∉ frames ∧ C ≤ frames.card ∧ v ∈ frames ∧ v ∉ soon ∧
      lookaheadStep C soon frames p = insert p (frames.erase v)) := by
  by_cases hp : p ∈ frames
  · exact Or.inl ⟨hp, if_pos hp⟩
  · by_cases hroom : frames.card < C
    · refine Or.inr (Or.inl ⟨hp, hroom, ?_⟩)
      rw [lookaheadStep, if_neg hp, if_pos hroom]
    · have hfull : C ≤ frames.card := Nat.not_lt.mp hroom
      have hspare : (frames \ soon.toFinset).Nonempty := by
        rw [Finset.sdiff_nonempty]
        intro hsub
        have hle := (Finset.card_le_card hsub).trans
          (List.toFinset_card_le soon)
        exact absurd hsoon (Nat.not_lt.mpr (hfull.trans hle))
      obtain ⟨hv, hnot⟩ := Finset.mem_sdiff.mp hspare.choose_spec
      refine Or.inr (Or.inr ⟨hspare.choose, hp, hfull, hv, ?_, ?_⟩)
      · rwa [List.mem_toFinset] at hnot
      · rw [lookaheadStep, if_neg hp, if_neg hroom, dif_pos hspare]

omit [DecidableEq α] in
theorem length_soon_lt (hC : 1 ≤ C) (requests : List α) (i : ℕ) :
    ((requests.drop (i + 1)).take (C - 1)).length < C :=
  (List.length_take_le _ _).trans_lt (Nat.sub_lt hC Nat.one_pos)

theorem card_lookaheadStep_le {soon : List α} (hsoon : soon.length < C)
    {frames : Finset α} (hcard : frames.card ≤ C) (p : α) :
    (lookaheadStep C soon frames p).card ≤ C := by
  rcases lookaheadStep_cases hsoon frames p with
    ⟨-, h⟩ | ⟨hp, hroom, h⟩ | ⟨v, hp, hfull, hv, -, h⟩
  · rw [h]
    exact hcard
  · rw [h, Finset.card_insert_of_notMem hp]
    exact hroom
  · have hfresh : p ∉ frames.erase v :=
      fun hmem => hp (Finset.mem_of_mem_erase hmem)
    rw [h, Finset.card_insert_of_notMem hfresh, Finset.card_erase_of_mem hv,
      Nat.sub_add_cancel (Finset.card_pos.mpr ⟨v, hv⟩)]
    exact hcard

theorem card_lookahead_le (hC : 1 ≤ C) (requests : List α) (i : ℕ) :
    (lookahead C requests i).card ≤ C := by
  induction i with
  | zero => simp [lookahead]
  | succ i ih =>
      cases hp : requests[i]? with
      | none => simpa [lookahead, hp] using ih
      | some p =>
          rw [lookahead_succ hp]
          exact card_lookaheadStep_le (length_soon_lt hC requests i) ih p

/-- Looking ahead is a demand-paging schedule. -/
noncomputable def lookaheadSchedule (hC : 1 ≤ C) (requests : List α) :
    Schedule C requests where
  resident := lookahead C requests
  resident_zero := rfl
  card_le := card_lookahead_le hC requests
  serves i p hp := by
    rw [lookahead_succ hp]
    rcases lookaheadStep_cases (length_soon_lt hC requests i)
        (lookahead C requests i) p with
      ⟨hmem, h⟩ | ⟨-, -, h⟩ | ⟨v, -, -, -, -, h⟩
    · rw [h]
      exact hmem
    · rw [h]
      exact Finset.mem_insert_self _ _
    · rw [h]
      exact Finset.mem_insert_self _ _
  demand i p hp := by
    rw [lookahead_succ hp]
    rcases lookaheadStep_cases (length_soon_lt hC requests i)
        (lookahead C requests i) p with
      ⟨-, h⟩ | ⟨-, -, h⟩ | ⟨v, -, -, -, -, h⟩
    · rw [h]
      exact Finset.subset_insert _ _
    · rw [h]
    · rw [h]
      exact Finset.insert_subset_insert _ (Finset.erase_subset _ _)

/-! ## How often looking ahead misses -/

/-- After `i` requests over `ground` the schedule has given up an element
`evictions` times, and the next `ahead` requests hit.  Evictions are `C`
requests apart, counting these hits in advance. -/
structure Paced (C : ℕ) (requests : List α) (ground : Finset α)
    (misses i evictions ahead : ℕ) : Prop where
  subset : lookahead C requests i ⊆ ground
  ahead_hit : ∀ j < ahead, ∀ p, requests[i + j]? = some p →
    p ∈ lookahead C requests i
  ahead_lt : ahead < C
  evictions_le : evictions * C ≤ i + ahead
  room : (lookahead C requests i).card < C → evictions = 0
  misses_eq : misses = (lookahead C requests i).card + evictions

namespace Paced

variable {ground : Finset α} {misses i evictions ahead : ℕ} {p : α}

theorem hit (h : Paced C requests ground misses i evictions ahead)
    (hsame : lookahead C requests (i + 1) = lookahead C requests i) :
    Paced C requests ground misses (i + 1) evictions (ahead - 1) where
  subset := hsame ▸ h.subset
  ahead_hit j hj q hq := by
    rw [hsame]
    refine h.ahead_hit (j + 1) (Nat.add_lt_of_lt_sub hj) q ?_
    rw [← hq, Nat.add_assoc, Nat.add_comm 1 j]
  ahead_lt := (Nat.sub_le _ _).trans_lt h.ahead_lt
  evictions_le := h.evictions_le.trans (by omega)
  room hroom := h.room (hsame ▸ hroom)
  misses_eq := hsame ▸ h.misses_eq

/-- A request that misses was not promised to hit. -/
theorem ahead_eq_zero (h : Paced C requests ground misses i evictions ahead)
    (hp : requests[i]? = some p) (hmiss : p ∉ lookahead C requests i) :
    ahead = 0 := by
  by_contra hne
  exact hmiss (h.ahead_hit 0 (Nat.pos_of_ne_zero hne) p hp)

theorem load (h : Paced C requests ground misses i evictions ahead)
    (hground : p ∈ ground)
    (hmiss : p ∉ lookahead C requests i)
    (hroom : (lookahead C requests i).card < C)
    (hnext : lookahead C requests (i + 1) =
      insert p (lookahead C requests i)) :
    Paced C requests ground (misses + 1) (i + 1) evictions 0 where
  subset := by
    rw [hnext]
    exact Finset.insert_subset hground h.subset
  ahead_hit j hj := absurd hj (Nat.not_lt_zero j)
  ahead_lt := (Nat.zero_le _).trans_lt h.ahead_lt
  evictions_le := by rw [h.room hroom, Nat.zero_mul]; exact Nat.zero_le _
  room _ := h.room hroom
  misses_eq := by
    rw [hnext, Finset.card_insert_of_notMem hmiss, h.misses_eq,
      Nat.add_right_comm]

/-- With one element more than frames, all others are held after an eviction,
and the victim is not needed soon. -/
theorem evict (h : Paced C requests ground misses i evictions ahead)
    (hcard : ground.card = C + 1) (hall : ∀ q ∈ requests, q ∈ ground)
    (hp : requests[i]? = some p) (hmiss : p ∉ lookahead C requests i)
    (hfull : C ≤ (lookahead C requests i).card) {v : α}
    (hv : v ∈ lookahead C requests i)
    (hsoon : v ∉ (requests.drop (i + 1)).take (C - 1))
    (hnext : lookahead C requests (i + 1) =
      insert p ((lookahead C requests i).erase v)) :
    Paced C requests ground (misses + 1) (i + 1) (evictions + 1) (C - 1) := by
  have hground : p ∈ ground := hall p (List.mem_of_getElem? hp)
  have hzero := h.ahead_eq_zero hp hmiss
  have hfresh : p ∉ (lookahead C requests i).erase v :=
    fun hmem => hmiss (Finset.mem_of_mem_erase hmem)
  have hsize : (lookahead C requests (i + 1)).card =
      (lookahead C requests i).card := by
    rw [hnext, Finset.card_insert_of_notMem hfresh,
      Finset.card_erase_of_mem hv,
      Nat.sub_add_cancel (Finset.card_pos.mpr ⟨v, hv⟩)]
  have hwhole : insert p (lookahead C requests i) = ground := by
    apply Finset.eq_of_subset_of_card_le (Finset.insert_subset hground h.subset)
    rw [hcard, Finset.card_insert_of_notMem hmiss]
    exact Nat.succ_le_succ hfull
  constructor
  · rw [hnext]
    exact Finset.insert_subset hground
      ((Finset.erase_subset _ _).trans h.subset)
  · intro j hj q hq
    have hq' : q ∈ (requests.drop (i + 1)).take (C - 1) := by
      refine List.mem_of_getElem? (i := j) ?_
      rw [List.getElem?_take_of_lt hj, List.getElem?_drop]
      exact hq
    have hqv : q ≠ v := fun heq => hsoon (heq ▸ hq')
    have hqground := hall q (List.mem_of_getElem? hq)
    rw [← hwhole, Finset.mem_insert] at hqground
    rw [hnext, Finset.mem_insert, Finset.mem_erase]
    exact hqground.imp_right (fun hmem => ⟨hqv, hmem⟩)
  · exact Nat.sub_lt ((Nat.zero_le _).trans_lt h.ahead_lt) Nat.one_pos
  · have hle := h.evictions_le
    have hC := h.ahead_lt
    rw [Nat.succ_mul]
    omega
  · intro hroom
    rw [hsize] at hroom
    exact absurd hroom (Nat.not_lt.mpr hfull)
  · rw [hsize, h.misses_eq, Nat.add_assoc]

end Paced

theorem exists_paced (hC : 1 ≤ C) {ground : Finset α}
    (hcard : ground.card = C + 1) (hall : ∀ q ∈ requests, q ∈ ground) :
    ∀ i, i ≤ requests.length → ∃ evictions ahead,
      Paced C requests ground
        ((lookaheadSchedule hC requests).missesBefore i) i evictions ahead := by
  intro i
  induction i with
  | zero =>
      intro _
      refine ⟨0, 0, ⟨by simp [lookahead], ?_, hC, Nat.le_of_eq (by simp),
        fun _ => rfl, rfl⟩⟩
      exact fun j hj => absurd hj (Nat.not_lt_zero j)
  | succ i ih =>
      intro hi
      obtain ⟨evictions, ahead, h⟩ := ih (Nat.le_of_succ_le hi)
      have hp : requests[i]? = some requests[i] :=
        List.getElem?_eq_getElem hi
      have hmisses := (lookaheadSchedule hC requests).missesBefore_succ hp
      have hstep := lookahead_succ (C := C) hp
      rcases lookaheadStep_cases (length_soon_lt hC requests i)
          (lookahead C requests i) requests[i] with
        ⟨hmem, hnext⟩ | ⟨hmiss, hroom, hnext⟩ |
          ⟨v, hmiss, hfull, hv, hsoon, hnext⟩
      · refine ⟨evictions, ahead - 1, ?_⟩
        have hcount : (lookaheadSchedule hC requests).missesBefore (i + 1) =
            (lookaheadSchedule hC requests).missesBefore i := by
          rw [hmisses]
          exact congrArg _ (if_pos hmem)
        rw [hcount]
        exact h.hit (hstep.trans hnext)
      · refine ⟨evictions, 0, ?_⟩
        have hcount : (lookaheadSchedule hC requests).missesBefore (i + 1) =
            (lookaheadSchedule hC requests).missesBefore i + 1 := by
          rw [hmisses]
          exact congrArg _ (if_neg hmiss)
        rw [hcount]
        exact h.load (hall _ (List.getElem_mem hi)) hmiss hroom
          (hstep.trans hnext)
      · refine ⟨evictions + 1, C - 1, ?_⟩
        have hcount : (lookaheadSchedule hC requests).missesBefore (i + 1) =
            (lookaheadSchedule hC requests).missesBefore i + 1 := by
          rw [hmisses]
          exact congrArg _ (if_neg hmiss)
        rw [hcount]
        exact h.evict hcard hall hp hmiss hfull hv hsoon (hstep.trans hnext)

/-- Over one element more than frames, looking ahead misses only about every
`C`-th request. -/
theorem lookaheadSchedule_misses_le (hC : 1 ≤ C) {ground : Finset α}
    (hcard : ground.card = C + 1) (hall : ∀ q ∈ requests, q ∈ ground) :
    C * (lookaheadSchedule hC requests).misses ≤
      requests.length + C * (C + 1) := by
  obtain ⟨evictions, ahead, h⟩ :=
    exists_paced hC hcard hall requests.length (Nat.le_refl _)
  have hframes := card_lookahead_le hC requests requests.length
  have hahead := h.ahead_lt.le
  calc C * (lookaheadSchedule hC requests).misses
      = C * (lookahead C requests requests.length).card + evictions * C := by
        rw [Schedule.misses, h.misses_eq, Nat.mul_add, Nat.mul_comm C evictions]
    _ ≤ C * C + (requests.length + C) :=
        Nat.add_le_add (Nat.mul_le_mul_left C hframes)
          (h.evictions_le.trans (Nat.add_le_add_left hahead _))
    _ = requests.length + C * (C + 1) := by ring

/-- No policy with `C` frames has a better ratio than `C`: it can be made to
miss every request of a trace on which some schedule with as many frames misses
about every `C`-th one. -/
theorem Policy.exists_worst_trace (P : Policy α σ) (hC : 1 ≤ C)
    (hframes : ∀ s, (P.resident s).card ≤ C) {ground : Finset α}
    (hcard : ground.card = C + 1) (n : ℕ) :
    ∃ requests : List α, requests.length = n ∧ P.misses requests = n ∧
      ∃ S : Schedule C requests, C * S.misses ≤ n + C * (C + 1) := by
  have hlarge : C < ground.card := by
    rw [hcard]
    exact Nat.lt_succ_self C
  obtain ⟨requests, hlength, hall, hmisses⟩ :=
    P.exists_all_miss hframes hlarge n
  refine ⟨requests, hlength, hmisses, lookaheadSchedule hC requests, ?_⟩
  rw [← hlength]
  exact lookaheadSchedule_misses_le hC hcard hall

/-! ## Traces without a ratio -/

/-- A few elements and then any number of rounds of a few others cost a
conservative policy one miss each. -/
theorem Policy.Conservative.misses_rounds_le {P : Policy α σ}
    (hP : P.Conservative C) {first round : List α}
    (hfirst : first.toFinset.card ≤ C) (hround : round.toFinset.card ≤ C)
    (n : ℕ) :
    P.misses (first ++ (List.replicate n round).flatten) ≤
      first.toFinset.card + round.toFinset.card := by
  have hsub : (List.replicate n round).flatten.toFinset ⊆ round.toFinset := by
    intro p hp
    simp only [List.mem_toFinset, List.mem_flatten, List.mem_replicate] at hp ⊢
    obtain ⟨l, ⟨-, rfl⟩, hp⟩ := hp
    exact hp
  have hcard := Finset.card_le_card hsub
  rw [P.misses_append]
  refine Nat.add_le_add (hP.length_missLog_le [] first hfirst) ?_
  exact (hP.length_missLog_le first _ (hcard.trans hround)).trans hcard

/-- Full MRU frames replace the element in front. -/
theorem mru_next_of_full {s : FrameList α C} {p v : α} {rest : List α}
    (hs : s.elems = v :: rest) (hfull : s.elems.length = C)
    (hp : p ∉ s.elems) :
    (((mruRule α).policy C).next s p).elems = p :: rest := by
  rw [EvictionRule.policy_next_elems]
  rcases (mruRule α).outcome_cases C s.elems p with
    ⟨hmem, -⟩ | ⟨-, hroom, -⟩ | ⟨w, -, -, hw, h⟩ | ⟨-, -, hnone, -⟩
  · exact absurd hmem hp
  · exact absurd hfull hroom.ne
  · have hwv : v = w := by simpa [hs, mruRule] using hw
    rw [h, Outcome.reorder, hs, ← hwv, List.erase_cons_head]
  · simp [hs, mruRule] at hnone

/-- Two elements in turn replace each other for ever. -/
theorem mru_missLog_alternating {p q : α} (hpq : p ≠ q) {s : FrameList α C}
    {v : α} {rest : List α} (hs : s.elems = v :: rest)
    (hfull : s.elems.length = C) (hp : p ∉ s.elems) (hq : q ∉ rest) (n : ℕ) :
    ((mruRule α).policy C).missLog s (List.replicate n [p, q]).flatten =
      (List.replicate n [p, q]).flatten := by
  induction n generalizing s v with
  | zero => rfl
  | succ n ih =>
      have hp' : p ∉ rest := fun hmem => hp (hs ▸ List.mem_cons_of_mem v hmem)
      set s₁ := ((mruRule α).policy C).next s p
      set s₂ := ((mruRule α).policy C).next s₁ q
      have hs₁ : s₁.elems = p :: rest := mru_next_of_full hs hfull hp
      have hfull₁ : s₁.elems.length = C := by
        rw [hs₁, List.length_cons, ← hfull, hs, List.length_cons]
      have hq₁ : q ∉ s₁.elems := by
        rw [hs₁, List.mem_cons, not_or]
        exact ⟨hpq.symm, hq⟩
      have hs₂ : s₂.elems = q :: rest := mru_next_of_full hs₁ hfull₁ hq₁
      have hfull₂ : s₂.elems.length = C := by
        rw [hs₂, List.length_cons, ← hfull₁, hs₁, List.length_cons]
      have hp₂ : p ∉ s₂.elems := by
        rw [hs₂, List.mem_cons, not_or]
        exact ⟨hpq, hp'⟩
      have hrest := ih hs₂ hfull₂ hp₂
      rw [List.replicate_succ, List.flatten_cons, List.cons_append,
        List.cons_append, List.nil_append, Policy.missLog, if_neg,
        Policy.missLog, if_neg]
      · rw [hrest]
      · rwa [EvictionRule.policy_resident, List.mem_toFinset]
      · rwa [EvictionRule.policy_resident, List.mem_toFinset]

/-- After `C` distinct elements MRU misses on every one of any number of
rounds of two more. -/
theorem mru_misses_alternating (hC : 1 ≤ C) {first : List α} {p q : α}
    (hfirst : first.toFinset.card = C) (hp : p ∉ first) (hq : q ∉ first)
    (hpq : p ≠ q) (n : ℕ) :
    ((mruRule α).policy C).misses
        (first ++ (List.replicate n [p, q]).flatten) = C + 2 * n := by
  set s := ((mruRule α).policy C).run first with hrun
  have hfills := (mruRule α).fillsFirst C
  have hresident : s.elems.toFinset = first.toFinset :=
    hfills.resident_eq hfirst.le
  have hmem : ∀ x, x ∉ first → x ∉ s.elems := fun x hx hx' =>
    hx (List.mem_toFinset.mp (hresident ▸ List.mem_toFinset.mpr hx'))
  have hfull : s.elems.length = C := by
    rw [← List.toFinset_card_of_nodup s.nodup, hresident, hfirst]
  obtain ⟨v, rest, hs⟩ := List.exists_cons_of_length_pos (hfull ▸ hC)
  have hrest : q ∉ rest := fun hx =>
    hmem q hq (hs ▸ List.mem_cons_of_mem v hx)
  rw [Policy.misses_append, ← hrun,
    mru_missLog_alternating hpq hs hfull (hmem p hp) hrest,
    hfills.misses_eq hfirst.le, hfirst]
  simp [Nat.mul_comm]

variable {pin : α → Bool}

/-- Frames full of pinned elements miss on everything else. -/
theorem pinned_misses_blocked {first : List α} {p : α}
    (hfirst : first.toFinset.card = C) (hpins : ∀ q ∈ first, pin q = true)
    (hp : pin p = false) (n : ℕ) :
    ((pinnedRule pin).policy C).misses
        (first ++ (List.replicate n [p]).flatten) = C + n := by
  have hfills := (pinnedRule pin).fillsFirst C
  have hfull : C ≤ (first.filter pin).toFinset.card := by
    rw [List.filter_eq_self.mpr hpins, hfirst]
  have habsent : p ∉ first := fun hmem => by simp [hpins p hmem] at hp
  induction n with
  | zero =>
      rw [List.replicate_zero, List.flatten_nil, List.append_nil,
        hfills.misses_eq hfirst.le, hfirst, Nat.add_zero]
  | succ n ih =>
      have hmiss : p ∉ ((pinnedRule pin).policy C).resident
          (((pinnedRule pin).policy C).run
            (first ++ (List.replicate n [p]).flatten)) := by
        rw [pinned_resident_append_of_full hfull,
          hfills.resident_eq hfirst.le, List.mem_toFinset]
        exact habsent
      rw [List.replicate_succ', List.flatten_append, List.flatten_singleton,
        ← List.append_assoc, Policy.misses_snoc, ih, if_neg hmiss,
        Nat.add_assoc]

end Paging

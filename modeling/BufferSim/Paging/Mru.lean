import BufferSim.Paging.EvictionRule
import BufferSim.Paging.Competitive

/-!
# Most recently used

The MRU policy gives up the element of the preceding request.  Its frames have
no closed form as simple as those of LRU, but two runs with different frame
counts stay ordered by inclusion: whenever the larger one evicts, so does the
smaller one, and both evict the element of the preceding request.
-/

namespace Paging

variable {α : Type*}

/-- Give up the most recently used element. -/
def mruRule (α : Type*) : EvictionRule α where
  victim l := l.head?
  mem_of_victim h := List.mem_of_head? h

variable [DecidableEq α] {C : ℕ}

omit [DecidableEq α] in
theorem mru_victim_ne_none (hC : 1 ≤ C) (l : List α) (hfull : C ≤ l.length) :
    (mruRule α).victim l ≠ none := by
  intro hnone
  have hnil : l = [] := List.head?_eq_none_iff.mp hnone
  subst hnil
  exact absurd (hC.trans hfull) (by simp)

theorem mru_outcome_ne_reject (hC : 1 ≤ C) (l : List α) (p : α) :
    (mruRule α).outcome C l p ≠ .reject := by
  rcases (mruRule α).outcome_cases C l p with
    ⟨-, h⟩ | ⟨-, -, h⟩ | ⟨v, -, -, -, h⟩ | ⟨-, hfull, hv, -⟩
  · simp [h]
  · simp [h]
  · simp [h]
  · exact absurd hv (mru_victim_ne_none hC l hfull)

/-- The element of the preceding request is in front. -/
theorem mru_head?_elems (hC : 1 ≤ C) (history : List α) :
    (((mruRule α).policy C).run history).elems.head? = history.getLast? :=
  (mruRule α).head?_elems_of_never_reject (mru_victim_ne_none hC) history

/-- Membership after a request, in terms of the preceding request. -/
theorem mem_mru_next_iff (hC : 1 ≤ C) (history : List α) (p q : α) :
    q ∈ (((mruRule α).policy C).run (history ++ [p])).elems ↔
      q = p ∨
        q ∈ (((mruRule α).policy C).run history).elems ∧
          ¬(p ∉ (((mruRule α).policy C).run history).elems ∧
            C ≤ (((mruRule α).policy C).run history).elems.length ∧
            history.getLast? = some q) := by
  have hhead := mru_head?_elems hC history
  rw [Policy.run_snoc, EvictionRule.policy_next_elems]
  set s := ((mruRule α).policy C).run history
  rcases (mruRule α).outcome_cases C s.elems p with
    ⟨hp, h⟩ | ⟨hp, hroom, h⟩ | ⟨v, hp, hfull, hv, h⟩ | ⟨hp, hfull, hv, h⟩
  · by_cases hqp : q = p
    · simp [h, Outcome.reorder, hqp]
    · simp [h, Outcome.reorder, hqp, hp, List.mem_erase_of_ne hqp]
  · simp [h, Outcome.reorder, Nat.not_le.mpr hroom]
  · have hlast : history.getLast? = some v := by
      rw [← hhead]
      exact hv
    simp [h, Outcome.reorder, hp, hfull, hlast, s.nodup.mem_erase_iff,
      and_comm, eq_comm]
  · exact absurd hv (mru_victim_ne_none hC _ hfull)

/-- More frames hold at least the same elements. -/
theorem mru_resident_subset {C C' : ℕ} (hC : 1 ≤ C) (hle : C ≤ C')
    (history : List α) :
    ((mruRule α).policy C).resident (((mruRule α).policy C).run history) ⊆
      ((mruRule α).policy C').resident
        (((mruRule α).policy C').run history) := by
  induction history using List.reverseRecOn with
  | nil => simp
  | append_singleton history p ih =>
      intro q hq
      simp only [EvictionRule.policy_resident, List.mem_toFinset] at hq ⊢
      rw [mem_mru_next_iff hC] at hq
      rw [mem_mru_next_iff (hC.trans hle)]
      have hsub : ∀ r,
          r ∈ (((mruRule α).policy C).run history).elems →
          r ∈ (((mruRule α).policy C').run history).elems := by
        intro r hr
        exact List.mem_toFinset.mp (ih (List.mem_toFinset.mpr hr))
      rcases hq with hq | ⟨hq, hkept⟩
      · exact Or.inl hq
      · refine Or.inr ⟨hsub q hq, ?_⟩
        rintro ⟨hmiss, hfull', hlast⟩
        -- the smaller run misses too, so it can only have a free frame
        apply hkept
        refine ⟨fun hp => hmiss (hsub p hp), ?_, hlast⟩
        by_contra hfree
        have hall := (mruRule α).mem_elems_of_length_lt (C := C) history
          (Nat.not_le.mp hfree)
        have hperm : (((mruRule α).policy C').run history).elems.length ≤
            (((mruRule α).policy C).run history).elems.length := by
          have hnodup := (((mruRule α).policy C').run history).nodup
          rw [← List.toFinset_card_of_nodup hnodup]
          refine (Finset.card_le_card ?_).trans (List.toFinset_card_le _)
          intro r hr
          rw [List.mem_toFinset] at hr ⊢
          exact hall r ((mruRule α).mem_of_mem_elems hr)
        omega

/-- An MRU run is a demand-paging schedule. -/
theorem mru_exists_schedule (hC : 1 ≤ C) (requests : List α) :
    ∃ S : Schedule C requests,
      S.misses = ((mruRule α).policy C).misses requests := by
  refine ((mruRule α).policy C).exists_schedule ?_ ?_ requests
  · intro s p
    exact mru_outcome_ne_reject hC s.elems p
  · intro s
    exact (List.toFinset_card_le s.elems).trans s.length_le

end Paging

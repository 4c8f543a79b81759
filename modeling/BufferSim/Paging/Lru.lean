import BufferSim.Paging.EvictionRule
import BufferSim.Paging.Competitive

/-!
# Least recently used

The frames of the LRU policy are the first `C` elements of the recency list of
the whole history.  Residency, inclusion between frame counts and the miss
bound on a stretch of requests are all read off this closed form.
-/

namespace Paging

variable {α : Type*}

/-- Give up the least recently used element. -/
def lruRule (α : Type*) : EvictionRule α where
  victim l := l.getLast?
  mem_of_victim h := List.mem_of_getLast? h

variable [DecidableEq α] {C : ℕ}

theorem lru_outcome_ne_reject (hC : 1 ≤ C) (l : List α) (p : α) :
    (lruRule α).outcome C l p ≠ .reject := by
  rcases (lruRule α).outcome_cases C l p with
    ⟨-, h⟩ | ⟨-, -, h⟩ | ⟨v, -, -, -, h⟩ | ⟨-, hfull, hv, -⟩
  · simp [h]
  · simp [h]
  · simp [h]
  · have hnil : l = [] := List.getLast?_eq_none_iff.mp hv
    subst hnil
    exact absurd (hC.trans hfull) (by simp)

theorem erase_getLast_of_nodup {l : List α} (hl : l.Nodup) {v : α}
    (hv : l.getLast? = some v) : l.erase v = l.dropLast := by
  obtain ⟨init, rfl⟩ := List.getLast?_eq_some_iff.mp hv
  have hfresh : v ∉ init := by
    intro hmem
    exact List.disjoint_of_nodup_append hl hmem (List.mem_singleton_self v)
  rw [List.dropLast_concat, List.erase_append_right _ hfresh]
  simp

/-- One request is a truncated move to the front. -/
theorem lru_reorder_eq_take {l : List α} (hl : l.Nodup) (hlen : l.length ≤ C)
    (p : α) :
    ((lruRule α).outcome C l p).reorder p l = (p :: l.erase p).take C := by
  rcases (lruRule α).outcome_cases C l p with
    ⟨hp, h⟩ | ⟨hp, hroom, h⟩ | ⟨v, hp, hfull, hv, h⟩ | ⟨hp, hfull, hv, h⟩
  · rw [h, List.take_of_length_le]
    · rfl
    · rw [EvictionRule.length_reorder_hit hp]
      exact hlen
  · rw [h, List.erase_of_not_mem hp, List.take_of_length_le]
    · rfl
    · exact hroom
  · have hlast : l.getLast? = some v := hv
    have hC : C = l.length := Nat.le_antisymm hfull hlen
    have hpos : 0 < l.length :=
      List.length_pos_of_mem ((lruRule α).mem_of_victim hv)
    obtain ⟨k, hk⟩ : ∃ k, l.length = k + 1 :=
      Nat.exists_eq_succ_of_ne_zero (by omega)
    rw [h, Outcome.reorder, erase_getLast_of_nodup hl hlast,
      List.erase_of_not_mem hp, hC, hk, List.take_succ_cons,
      List.dropLast_eq_take, hk]
    rfl
  · have hnil : l = [] := List.getLast?_eq_none_iff.mp hv
    subst hnil
    have hC : C = 0 := Nat.le_zero.mp hfull
    rw [h, hC]
    rfl

/-- The closed form of the LRU frames. -/
theorem lru_run_elems (C : ℕ) (history : List α) :
    (((lruRule α).policy C).run history).elems =
      (recency history).take C := by
  refine ((lruRule α).policy C).run_induction
    (motive := fun history s => s.elems = (recency history).take C)
    ?_ ?_ history
  · simp
  · intro history p ih
    set s := ((lruRule α).policy C).run history
    rw [EvictionRule.policy_next_elems, lru_reorder_eq_take s.nodup s.length_le,
      ih, take_cons_erase_take, recency_snoc]

theorem mem_lru_resident_iff (C : ℕ) (history : List α) (p : α) :
    p ∈ ((lruRule α).policy C).resident
        (((lruRule α).policy C).run history) ↔
      p ∈ history ∧ (sinceLast p history).toFinset.card < C := by
  rw [EvictionRule.policy_resident, List.mem_toFinset, lru_run_elems,
    mem_take_recency_iff]

/-- More frames hold at least the same elements. -/
theorem lru_resident_subset {C C' : ℕ} (hle : C ≤ C') (history : List α) :
    ((lruRule α).policy C).resident (((lruRule α).policy C).run history) ⊆
      ((lruRule α).policy C').resident
        (((lruRule α).policy C').run history) := by
  intro p hp
  rw [mem_lru_resident_iff] at hp ⊢
  exact ⟨hp.1, hp.2.trans_le hle⟩

theorem sinceLast_append_of_mem {p : α} {segment : List α} (hp : p ∈ segment)
    (history : List α) :
    sinceLast p (history ++ segment) = sinceLast p segment := by
  induction segment using List.reverseRecOn with
  | nil => simp at hp
  | append_singleton segment q ih =>
      rw [← List.append_assoc]
      by_cases hqp : q = p
      · subst hqp
        rw [sinceLast_snoc_self, sinceLast_snoc_self]
      · have hmem : p ∈ segment := by simpa [Ne.symm hqp] using hp
        rw [sinceLast_snoc_of_ne hqp, sinceLast_snoc_of_ne hqp, ih hmem]

/-- Everything requested in a stretch with at most `C` distinct elements is
resident at its end. -/
theorem mem_lru_resident_of_mem_segment {p : α} {history segment : List α}
    (hp : p ∈ segment) (hcard : segment.toFinset.card ≤ C) :
    p ∈ ((lruRule α).policy C).resident
      (((lruRule α).policy C).run (history ++ segment)) := by
  rw [mem_lru_resident_iff, sinceLast_append_of_mem hp]
  refine ⟨List.mem_append_right history hp, ?_⟩
  have hssub : (sinceLast p segment).toFinset ⊂ segment.toFinset := by
    rw [Finset.ssubset_iff_of_subset]
    · refine ⟨p, List.mem_toFinset.mpr hp, ?_⟩
      intro hmem
      exact ne_of_mem_sinceLast (List.mem_toFinset.mp hmem) rfl
    · intro q hq
      rw [List.mem_toFinset] at hq ⊢
      exact (List.rtakeWhile_suffix _ _).subset hq
  exact (Finset.card_lt_card hssub).trans_le hcard

theorem lru_conservative (C : ℕ) : ((lruRule α).policy C).Conservative C := by
  apply Policy.conservative_of_missed_resident
  intro history segment p hcard hp
  exact mem_lru_resident_of_mem_segment
    ((Policy.missLog_sublist _ _ _).subset hp) hcard

end Paging

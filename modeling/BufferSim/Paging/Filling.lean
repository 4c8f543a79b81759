import BufferSim.Paging.EvictionRule
import BufferSim.Paging.SecondChance

/-!
# Policies that fill their frames first

A policy with `C` frames fills them first if it loads every missing element as
long as a frame is free.  All such policies agree on how many elements are
resident after a history, and as long as the history fits into the frames they
agree on everything: each distinct element is loaded once, and nothing is given
up or turned away.
-/

namespace Paging

variable {α σ : Type*} [DecidableEq α]

theorem toFinset_snoc (history : List α) (p : α) :
    (history ++ [p]).toFinset = insert p history.toFinset := by
  ext q
  simp

namespace Policy

/-- At most `C` elements are resident, and a missing one is loaded while fewer
are. -/
structure FillsFirst (P : Policy α σ) (C : ℕ) : Prop where
  card_le : ∀ s, (P.resident s).card ≤ C
  load : ∀ s p, p ∉ P.resident s → (P.resident s).card < C →
    P.outcome s p = .load

variable {P : Policy α σ} {C : ℕ}

theorem resident_subset_toFinset (P : Policy α σ) (history : List α) :
    P.resident (P.run history) ⊆ history.toFinset := by
  induction history using List.reverseRecOn with
  | nil => simp [P.resident_start]
  | append_singleton history p ih =>
      intro q hq
      have hold : q = p ∨ q ∈ P.resident (P.run history) := by
        rw [run_snoc, P.resident_next] at hq
        cases hout : P.outcome (P.run history) p with
        | hit => exact Or.inr (by simpa [hout, Outcome.apply] using hq)
        | load => simpa [hout, Outcome.apply] using hq
        | replace v =>
            have hmem : q = p ∨ q ≠ v ∧ q ∈ P.resident (P.run history) := by
              simpa [hout, Outcome.apply] using hq
            exact hmem.imp_right And.right
        | reject => exact Or.inr (by simpa [hout, Outcome.apply] using hq)
      rcases hold with rfl | hold
      · simp
      · simpa using Or.inr (List.mem_toFinset.mp (ih hold))

theorem resident_next_of_mem (P : Policy α σ) {s : σ} {p : α}
    (hp : p ∈ P.resident s) : P.resident (P.next s p) = P.resident s := by
  have hhit := (P.hit_iff s p).mpr hp
  rw [P.resident_next]
  cases hout : P.outcome s p with
  | hit => rfl
  | load => simp [hout, Outcome.isHit] at hhit
  | replace v => simp [hout, Outcome.isHit] at hhit
  | reject => rfl

/-- No request ever empties a frame. -/
theorem card_le_card_next (P : Policy α σ) (s : σ) (p : α) :
    (P.resident s).card ≤ (P.resident (P.next s p)).card := by
  by_cases hp : p ∈ P.resident s
  · exact (P.resident_next_of_mem hp).symm ▸ Nat.le_refl _
  · have hstep := P.card_resident_next s p
    have hcost : (if (P.outcome s p).isReplace then 1 else 0) +
        (if (P.outcome s p).isReject then 1 else 0) ≤ 1 := by
      cases P.outcome s p <;> simp [Outcome.isReplace, Outcome.isReject]
    simp only [hp, if_false] at hstep
    omega

namespace FillsFirst

/-- The frames hold as many elements as they can. -/
theorem card_resident (h : P.FillsFirst C) (history : List α) :
    (P.resident (P.run history)).card = min C history.toFinset.card := by
  induction history using List.reverseRecOn with
  | nil => simp [P.resident_start]
  | append_singleton history p ih =>
      have hsub := P.resident_subset_toFinset history
      have hle := h.card_le (P.run (history ++ [p]))
      rw [run_snoc] at hle ⊢
      rw [toFinset_snoc]
      by_cases hres : p ∈ P.resident (P.run history)
      · -- a hit changes neither side
        rw [P.resident_next_of_mem hres, ih,
          Finset.insert_eq_of_mem (hsub hres)]
      · by_cases hroom : (P.resident (P.run history)).card < C
        · -- with a free frame everything requested so far is resident
          have hall : P.resident (P.run history) = history.toFinset := by
            apply Finset.eq_of_subset_of_card_le hsub
            omega
          have hnew : p ∉ history.toFinset := hall ▸ hres
          rw [P.resident_next, h.load _ p hres hroom, Outcome.apply, hall,
            Finset.card_insert_of_notMem hnew]
          rw [hall] at hroom
          omega
        · -- full frames stay full
          have hgrow := Finset.card_le_card
            (Finset.subset_insert p history.toFinset)
          have hkeep := P.card_le_card_next (P.run history) p
          omega

/-- A history that fits is resident as a whole. -/
theorem resident_eq (h : P.FillsFirst C) {history : List α}
    (hfit : history.toFinset.card ≤ C) :
    P.resident (P.run history) = history.toFinset := by
  apply Finset.eq_of_subset_of_card_le (P.resident_subset_toFinset history)
  rw [h.card_resident, Nat.min_eq_right hfit]

/-- A history that fits misses once for each distinct element. -/
theorem misses_eq (h : P.FillsFirst C) {history : List α}
    (hfit : history.toFinset.card ≤ C) :
    P.misses history = history.toFinset.card := by
  induction history using List.reverseRecOn with
  | nil => rfl
  | append_singleton history p ih =>
      have hbefore : history.toFinset.card ≤ C := by
        refine (Finset.card_le_card ?_).trans hfit
        simp
      rw [misses_snoc, ih hbefore, h.resident_eq hbefore, toFinset_snoc,
        Finset.card_insert_eq_ite]
      split <;> rfl

/-- A history that fits evicts nothing and rejects nothing. -/
theorem no_evictions (h : P.FillsFirst C) {history : List α}
    (hfit : history.toFinset.card ≤ C) :
    P.evictions history = 0 ∧ P.rejections history = 0 := by
  have hbalance := P.misses_eq history
  rw [h.misses_eq hfit, h.resident_eq hfit] at hbalance
  omega

end FillsFirst
end Policy

/-! ## The policies of this library -/

theorem EvictionRule.fillsFirst (rule : EvictionRule α) (C : ℕ) :
    (rule.policy C).FillsFirst C where
  card_le s := (List.toFinset_card_le s.elems).trans s.length_le
  load s p hp hroom := by
    simp only [policy_resident, List.mem_toFinset,
      List.toFinset_card_of_nodup s.nodup] at hp hroom
    show rule.outcome C s.elems p = .load
    simp [outcome, hp, hroom]

theorem secondChance_fillsFirst (C : ℕ) : (secondChance α C).FillsFirst C where
  card_le s := by
    refine (List.toFinset_card_le _).trans ?_
    simpa using s.length_le
  load s p hp hroom := by
    simp only [secondChance_resident, List.mem_toFinset,
      List.toFinset_card_of_nodup s.nodup, List.length_map] at hp hroom
    show (ChanceQueue.serve C s.entries p).1 = .load
    rw [ChanceQueue.serve, if_neg hp, if_pos hroom]

end Paging

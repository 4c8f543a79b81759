import Mathlib.Data.List.Dedup
import Mathlib.Data.List.DropRight
import Mathlib.Data.Finset.Card

/-!
# Recency of the elements of a request history

A request history is a list, oldest request first.  This module defines the
distinct elements of a history by most recent request (`recency`) and by first
request (`firstSeen`), the position of the last request of an element
(`lastRequest`), and the requests made since then (`sinceLast`).

Everything is stated for an arbitrary decidable type, and every definition
comes with the equation for one further request, which is what an induction
over a growing history uses.
-/

namespace Paging

variable {α : Type*} [DecidableEq α]

/-- The distinct elements of a history, most recently requested first. -/
def recency (history : List α) : List α :=
  history.dedup.reverse

/-- The distinct elements of a history in the order of their first request. -/
def firstSeen (history : List α) : List α :=
  history.reverse.dedup.reverse

/-- The position of the last request of `p`, counted from one.  It is zero
when `p` was never requested. -/
def lastRequest (p : α) (history : List α) : ℕ :=
  history.length - history.reverse.idxOf p

/-- The requests made after the last request of `p`. -/
def sinceLast (p : α) (history : List α) : List α :=
  history.rtakeWhile (fun q => q ≠ p)

/-! ## One further request -/

theorem dedup_append_singleton (history : List α) (p : α) :
    (history ++ [p]).dedup = history.dedup.erase p ++ [p] := by
  induction history with
  | nil => simp
  | cons a history ih =>
      rw [List.cons_append]
      by_cases ha : a ∈ history
      · rw [List.dedup_cons_of_mem (List.mem_append_left _ ha),
          List.dedup_cons_of_mem ha, ih]
      · rw [List.dedup_cons_of_notMem ha]
        by_cases hap : a = p
        · subst hap
          have hfresh : a ∉ history.dedup := by simpa using ha
          rw [List.dedup_cons_of_mem (by simp), ih, List.erase_cons_head,
            List.erase_of_not_mem hfresh]
        · have hfresh : a ∉ history ++ [p] := by simp [ha, hap]
          rw [List.dedup_cons_of_notMem hfresh, ih,
            List.erase_cons_tail (by simpa using hap), List.cons_append]

theorem reverse_erase_of_nodup {l : List α} (hl : l.Nodup) (p : α) :
    (l.erase p).reverse = l.reverse.erase p := by
  rw [hl.erase_eq_filter, (List.nodup_reverse.mpr hl).erase_eq_filter,
    List.filter_reverse]

@[simp] theorem recency_nil : recency ([] : List α) = [] := rfl

/-- A request moves its element to the front. -/
theorem recency_snoc (history : List α) (p : α) :
    recency (history ++ [p]) = p :: (recency history).erase p := by
  rw [recency, dedup_append_singleton, List.reverse_append,
    reverse_erase_of_nodup (List.nodup_dedup history)]
  rfl

@[simp] theorem mem_recency {history : List α} {p : α} :
    p ∈ recency history ↔ p ∈ history := by
  simp [recency]

theorem nodup_recency (history : List α) : (recency history).Nodup :=
  List.nodup_reverse.mpr (List.nodup_dedup history)

@[simp] theorem firstSeen_nil : firstSeen ([] : List α) = [] := rfl

/-- Only the first request of an element extends `firstSeen`. -/
theorem firstSeen_snoc (history : List α) (p : α) :
    firstSeen (history ++ [p]) =
      if p ∈ history then firstSeen history else firstSeen history ++ [p] := by
  by_cases hp : p ∈ history
  · rw [if_pos hp, firstSeen, List.reverse_append, List.reverse_singleton,
      List.singleton_append, List.dedup_cons_of_mem (by simpa using hp),
      firstSeen]
  · rw [if_neg hp, firstSeen, List.reverse_append, List.reverse_singleton,
      List.singleton_append, List.dedup_cons_of_notMem (by simpa using hp),
      List.reverse_cons, firstSeen]

/-- Distinct requests extend it by those that are new. -/
theorem firstSeen_append (history : List α) {scan : List α}
    (hscan : scan.Nodup) :
    firstSeen (history ++ scan) =
      firstSeen history ++ scan.filter (fun q => q ∉ history) := by
  induction scan using List.reverseRecOn with
  | nil => simp
  | append_singleton scan p ih =>
      have hp : p ∉ scan := fun hmem =>
        List.disjoint_of_nodup_append hscan hmem List.mem_cons_self
      rw [← List.append_assoc, firstSeen_snoc,
        ih (hscan.sublist (List.sublist_append_left _ _)), List.filter_append]
      by_cases hold : p ∈ history
      · simp [hold]
      · simp [hold, hp]

@[simp] theorem mem_firstSeen {history : List α} {p : α} :
    p ∈ firstSeen history ↔ p ∈ history := by
  simp [firstSeen]

theorem nodup_firstSeen (history : List α) : (firstSeen history).Nodup :=
  List.nodup_reverse.mpr (List.nodup_dedup history.reverse)

theorem length_firstSeen (history : List α) :
    (firstSeen history).length = history.toFinset.card := by
  rw [firstSeen, List.length_reverse, ← List.card_toFinset,
    List.toFinset_reverse]

/-! ## Positions of last requests -/

@[simp] theorem lastRequest_nil (p : α) : lastRequest p [] = 0 := rfl

theorem lastRequest_snoc (p q : α) (history : List α) :
    lastRequest p (history ++ [q]) =
      if q = p then history.length + 1 else lastRequest p history := by
  simp only [lastRequest, List.reverse_append, List.reverse_singleton,
    List.singleton_append, List.length_append, List.length_singleton,
    List.idxOf_cons]
  by_cases hq : q = p
  · simp [hq]
  · simp only [beq_eq_false_iff_ne.mpr hq, cond_false, if_neg hq]
    omega

theorem lastRequest_le_length (p : α) (history : List α) :
    lastRequest p history ≤ history.length :=
  Nat.sub_le _ _

/-- The recency list is sorted by strictly decreasing last request. -/
theorem pairwise_lastRequest_recency (history : List α) :
    (recency history).Pairwise
      (fun p q => lastRequest q history < lastRequest p history) := by
  induction history using List.reverseRecOn with
  | nil => simp
  | append_singleton history p ih =>
      rw [recency_snoc, List.pairwise_cons]
      have hne : ∀ q ∈ (recency history).erase p, p ≠ q := by
        intro q hq hpq
        exact (nodup_recency history).not_mem_erase (hpq ▸ hq)
      constructor
      · intro q hq
        rw [lastRequest_snoc, lastRequest_snoc, if_neg (hne q hq), if_pos rfl]
        exact Nat.lt_succ_of_le (lastRequest_le_length q history)
      · refine (ih.sublist List.erase_sublist).imp_of_mem ?_
        intro q r hq hr hqr
        rw [lastRequest_snoc, lastRequest_snoc, if_neg (hne q hq),
          if_neg (hne r hr)]
        exact hqr

/-! ## The first `n` elements by recency -/

/-- One request acts on the first `n` elements as a truncated move to the
front: dropping the tail loses nothing that a later request could need. -/
theorem take_cons_erase_take (n : ℕ) (l : List α) (p : α) :
    (p :: (l.take n).erase p).take n = (p :: l.erase p).take n := by
  cases n with
  | zero => rfl
  | succ n =>
      rw [List.take_succ_cons, List.take_succ_cons]
      congr 1
      by_cases hp : p ∈ l.take (n + 1)
      · have hsplit : l.erase p =
            (l.take (n + 1)).erase p ++ l.drop (n + 1) := by
          rw [← List.erase_append_left _ hp, List.take_append_drop]
        rw [hsplit, List.take_append]
        have hlen := List.length_erase_of_mem hp
        rw [List.length_take] at hlen
        by_cases hshort : l.length ≤ n
        · rw [List.drop_eq_nil_of_le (by omega), List.take_nil,
            List.append_nil]
        · have hzero : n - ((l.take (n + 1)).erase p).length = 0 := by omega
          rw [hzero, List.take_zero, List.append_nil]
      · have hsplit : l.erase p =
            l.take (n + 1) ++ (l.drop (n + 1)).erase p := by
          rw [← List.erase_append_right _ hp, List.take_append_drop]
        rw [List.erase_of_not_mem hp, hsplit, List.take_append]
        by_cases hshort : l.length ≤ n
        · rw [List.drop_eq_nil_of_le (by omega), List.erase_nil, List.take_nil,
            List.append_nil]
        · have hzero : n - (l.take (n + 1)).length = 0 := by
            rw [List.length_take]
            omega
          rw [hzero, List.take_zero, List.append_nil]

theorem sinceLast_snoc_self (p : α) (history : List α) :
    sinceLast p (history ++ [p]) = [] := by
  simp [sinceLast]

theorem sinceLast_snoc_of_ne {p q : α} (hq : q ≠ p) (history : List α) :
    sinceLast p (history ++ [q]) = sinceLast p history ++ [q] := by
  simp [sinceLast, hq]

theorem ne_of_mem_sinceLast {p q : α} {history : List α}
    (hq : q ∈ sinceLast p history) : q ≠ p := by
  simpa using List.mem_rtakeWhile_imp hq

/-- The recency list starts with the distinct elements requested since the
last request of `p`, and continues with `p` itself. -/
theorem exists_recency_split {p : α} {history : List α} (hp : p ∈ history) :
    ∃ newer older, recency history = newer ++ p :: older ∧
      newer.toFinset = (sinceLast p history).toFinset := by
  induction history using List.reverseRecOn with
  | nil => simp at hp
  | append_singleton history q ih =>
      by_cases hqp : q = p
      · subst hqp
        refine ⟨[], (recency history).erase q, ?_, ?_⟩
        · rw [recency_snoc, List.nil_append]
        · rw [sinceLast_snoc_self]
      · have hmem : p ∈ history := by
          simpa [Ne.symm hqp] using hp
        obtain ⟨newer, older, hsplit, hnewer⟩ := ih hmem
        have hnodup := nodup_recency history
        rw [hsplit] at hnodup
        refine ⟨q :: newer.erase q, older.erase q, ?_, ?_⟩
        · rw [recency_snoc, hsplit, hnodup.erase_eq_filter,
            (List.Nodup.of_append_left hnodup).erase_eq_filter,
            (List.nodup_cons.mp (List.Nodup.of_append_right hnodup)).2.erase_eq_filter]
          simp [Ne.symm hqp]
        · rw [sinceLast_snoc_of_ne hqp]
          ext r
          have hr : r ∈ newer ↔ r ∈ sinceLast p history := by
            have := congrArg (r ∈ ·) hnewer
            simpa using this
          by_cases hrq : r = q
          · simp [hrq]
          · simp [hrq, List.mem_erase_of_ne, hr]

/-- An element is among the first `n` by recency exactly when it was requested
and fewer than `n` distinct others were requested since. -/
theorem mem_take_recency_iff (n : ℕ) (p : α) (history : List α) :
    p ∈ (recency history).take n ↔
      p ∈ history ∧ (sinceLast p history).toFinset.card < n := by
  by_cases hp : p ∈ history
  · obtain ⟨newer, older, hsplit, hnewer⟩ := exists_recency_split hp
    have hnodup := nodup_recency history
    rw [hsplit] at hnodup
    have hfresh : p ∉ newer := by
      intro hmem
      exact (List.disjoint_of_nodup_append hnodup) hmem (by simp)
    have hcard : (sinceLast p history).toFinset.card = newer.length := by
      rw [← hnewer]
      exact List.toFinset_card_of_nodup (List.Nodup.of_append_left hnodup)
    rw [hsplit, hcard, List.take_append, List.mem_append]
    constructor
    · rintro (hmem | hmem)
      · exact absurd (List.mem_of_mem_take hmem) hfresh
      · refine ⟨hp, ?_⟩
        by_contra hle
        rw [Nat.sub_eq_zero_of_le (Nat.not_lt.mp hle), List.take_zero] at hmem
        simp at hmem
    · rintro ⟨-, hlt⟩
      right
      obtain ⟨k, hk⟩ : ∃ k, n - newer.length = k + 1 :=
        Nat.exists_eq_succ_of_ne_zero (by omega)
      rw [hk, List.take_succ_cons]
      exact List.mem_cons_self
  · constructor
    · intro hmem
      exact absurd (mem_recency.mp (List.mem_of_mem_take hmem)) hp
    · rintro ⟨hmem, -⟩
      exact absurd hmem hp

end Paging

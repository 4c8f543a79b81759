import BufferSim.Paging.LowerBounds

/-!
# One scan after a history

A scan requests distinct elements that were not resident when it began.  A
scan of at least `C` elements flushes a conservative policy with `C` frames: it
holds the last `C` elements of the scan, whatever it held before.  MRU gives up
one single element to the whole scan.  Pinning keeps the pinned elements, pins
new ones of the scan while there is room, and gives the other frames to the last
elements of the scan that are not pinned.
-/

namespace Paging

variable {α σ : Type*} [DecidableEq α] {C : ℕ}

/-! ## Conservative policies -/

/-- A scan never hits: its elements become resident only when they are
requested. -/
theorem Policy.missLog_of_fresh (P : Policy α σ) {s : σ} {scan : List α}
    (hscan : scan.Nodup) (hfresh : ∀ p ∈ scan, p ∉ P.resident s) :
    P.missLog s scan = scan := by
  induction scan generalizing s with
  | nil => rfl
  | cons p scan ih =>
      obtain ⟨hp, hscan'⟩ := List.nodup_cons.mp hscan
      have hnext : ∀ q ∈ scan, q ∉ P.resident (P.next s p) := by
        intro q hq hmem
        have hsub : P.resident (P.next s p) ⊆ insert p (P.resident s) := by
          rw [P.resident_next]
          cases P.outcome s p with
          | hit => exact Finset.subset_insert _ _
          | load => exact Finset.Subset.refl _
          | replace v =>
              exact Finset.insert_subset_insert _ (Finset.erase_subset _ _)
          | reject => exact Finset.subset_insert _ _
        rcases Finset.mem_insert.mp (hsub hmem) with rfl | hold
        · exact hp hq
        · exact hfresh q (List.mem_cons_of_mem p hq) hold
      rw [Policy.missLog, if_neg (hfresh p List.mem_cons_self),
        ih hscan' hnext]

namespace Policy.Conservative

variable {P : Policy α σ}

/-- An element that missed is still resident after a stretch of at most `C`
distinct elements. -/
theorem mem_resident_of_missed (hP : P.Conservative C)
    {history segment : List α} (hcard : segment.toFinset.card ≤ C) {p : α}
    (hp : p ∈ P.missLog (P.run history) segment) :
    p ∈ P.resident (P.run (history ++ segment)) := by
  by_contra hmiss
  have hmem : p ∈ segment := (P.missLog_sublist _ _).subset hp
  have hsame : (segment ++ [p]).toFinset = segment.toFinset := by
    rw [toFinset_snoc, Finset.insert_eq_of_mem (List.mem_toFinset.mpr hmem)]
  -- otherwise `p` would miss twice in the stretch with `p` at its end
  have hnodup := hP history (segment ++ [p]) (hsame ▸ hcard)
  rw [P.missLog_append, ← P.run_append, Policy.missLog, if_neg hmiss,
    List.nodup_append] at hnodup
  exact hnodup.2.2 p hp p List.mem_cons_self rfl

/-- After a scan that is long enough, exactly its last `C` elements are
resident. -/
theorem resident_after_scan (hP : P.Conservative C)
    (hframes : ∀ s, (P.resident s).card ≤ C) {history scan : List α}
    (hscan : scan.Nodup) (hlong : C ≤ scan.length)
    (hfresh : ∀ p ∈ scan, p ∉ P.resident (P.run history)) :
    P.resident (P.run (history ++ scan)) =
      (scan.reverse.take C).toFinset := by
  set older := scan.take (scan.length - C)
  set recent := scan.drop (scan.length - C)
  have hsplit : older ++ recent = scan := List.take_append_drop _ _
  have hrecent : recent.length = C := by
    rw [List.length_drop, Nat.sub_sub_self hlong]
  have hnodup : recent.Nodup := hscan.sublist (List.drop_sublist _ _)
  have hcard : recent.toFinset.card = C := by
    rw [List.toFinset_card_of_nodup hnodup, hrecent]
  have hmisses := P.missLog_of_fresh hscan hfresh
  rw [← hsplit, P.missLog_append, ← P.run_append] at hmisses
  have hlast : P.missLog (P.run (history ++ older)) recent = recent := by
    refine (List.append_inj hmisses ?_).2
    have holder : ∀ p ∈ older, p ∉ P.resident (P.run history) := fun p hp =>
      hfresh p ((List.take_sublist _ _).subset hp)
    rw [P.missLog_of_fresh (hscan.sublist (List.take_sublist _ _)) holder]
  have hsub : recent.toFinset ⊆ P.resident (P.run (history ++ scan)) := by
    intro p hp
    rw [← hsplit, ← List.append_assoc]
    refine hP.mem_resident_of_missed hcard.le ?_
    rw [hlast]
    exact List.mem_toFinset.mp hp
  have hwhole := Finset.eq_of_subset_of_card_le hsub
    ((hframes _).trans hcard.ge)
  rw [← hwhole, List.take_reverse, List.toFinset_reverse]

end Policy.Conservative

/-! ## LRU -/

/-- The elements of a scan are the most recent ones, the last one first. -/
theorem exists_recency_scan (history : List α) {scan : List α}
    (hscan : scan.Nodup) :
    ∃ rest, recency (history ++ scan) = scan.reverse ++ rest := by
  induction scan using List.reverseRecOn with
  | nil => exact ⟨recency history, by simp⟩
  | append_singleton scan p ih =>
      have hinit : scan.Nodup := hscan.sublist (List.sublist_append_left _ _)
      have hp : p ∉ scan.reverse := by
        rw [List.mem_reverse]
        exact fun hmem =>
          List.disjoint_of_nodup_append hscan hmem List.mem_cons_self
      obtain ⟨rest, hrest⟩ := ih hinit
      refine ⟨rest.erase p, ?_⟩
      rw [← List.append_assoc, recency_snoc, hrest,
        List.erase_append_right _ hp, List.reverse_append]
      rfl

theorem take_recency_scan {n : ℕ} (history : List α) {scan : List α}
    (hscan : scan.Nodup) (hlong : n ≤ scan.length) :
    (recency (history ++ scan)).take n = scan.reverse.take n := by
  obtain ⟨rest, hrest⟩ := exists_recency_scan history hscan
  rw [hrest, List.take_append_of_le_length]
  rwa [List.length_reverse]

/-! ## MRU -/

/-- With full frames a scan replaces the element in front, and then only its
own elements. -/
theorem mru_elems_after_scan {s : FrameList α C} {v : α} {rest scan : List α}
    (hs : s.elems = v :: rest) (hfull : s.elems.length = C)
    (hscan : scan.Nodup) (hfresh : ∀ p ∈ scan, p ∉ s.elems) :
    (((mruRule α).policy C).runFrom s scan).elems =
      scan.getLast?.getD v :: rest := by
  induction scan generalizing s v with
  | nil => exact hs
  | cons p scan ih =>
      obtain ⟨hp, hscan'⟩ := List.nodup_cons.mp hscan
      have hnext := mru_next_of_full hs hfull (hfresh p List.mem_cons_self)
      have hfull' : (((mruRule α).policy C).next s p).elems.length = C := by
        rw [hnext, List.length_cons, ← hfull, hs, List.length_cons]
      have hfresh' : ∀ q ∈ scan,
          q ∉ (((mruRule α).policy C).next s p).elems := by
        intro q hq
        have hold := hfresh q (List.mem_cons_of_mem p hq)
        rw [hs, List.mem_cons, not_or] at hold
        rw [hnext, List.mem_cons, not_or]
        exact ⟨fun heq => hp (heq ▸ hq), hold.2⟩
      rw [Policy.runFrom_cons, ih hnext hfull' hscan' hfresh',
        List.getLast?_cons, Option.getD_some]

/-! ## Pinning -/

variable {pin : α → Bool}

theorem pinnedElems_append (history : List α) {scan : List α}
    (hscan : scan.Nodup) :
    pinnedElems pin C (history ++ scan) =
      pinnedElems pin C history ++
        (scan.filter (fun q => pin q ∧ q ∉ pinnedElems pin C history)).take
          (C - (pinnedElems pin C history).length) := by
  have hseen : firstSeen ((history ++ scan).filter pin) =
      firstSeen (history.filter pin) ++
        (scan.filter pin).filter (fun q => q ∉ history.filter pin) := by
    rw [List.filter_append, firstSeen_append _ (hscan.filter pin)]
  have hlength : (pinnedElems pin C history).length =
      min C (firstSeen (history.filter pin)).length := List.length_take
  rw [pinnedElems, hseen, List.take_append]
  congr 1
  by_cases hroom : (firstSeen (history.filter pin)).length ≤ C
  · -- every pinned element of the history is resident
    have hall : pinnedElems pin C history = firstSeen (history.filter pin) :=
      List.take_of_length_le hroom
    rw [hall, List.filter_filter]
    congr 1
    refine List.filter_congr fun q _ => ?_
    simp [Bool.and_comm]
  · have hnone : C - (firstSeen (history.filter pin)).length = 0 := by omega
    have hnone' : C - (pinnedElems pin C history).length = 0 := by omega
    rw [hnone, hnone', List.take_zero, List.take_zero]

/-- What is not pinned after a scan is a part of the scan. -/
theorem unpinnedElems_append (history : List α) {scan : List α}
    (hscan : scan.Nodup) (hlong : C ≤ scan.length) :
    unpinnedElems pin C (history ++ scan) =
      (scan.filter (fun q => !pin q)).reverse.take
        (unpinnedShare pin C (history ++ scan)) := by
  have hsplit : scan.length =
      (scan.filter pin).length + (scan.filter (fun q => !pin q)).length :=
    List.length_eq_length_filter_add pin
  have hpinned : (scan.filter pin).length ≤
      ((history ++ scan).filter pin).toFinset.card := by
    rw [← List.toFinset_card_of_nodup (hscan.filter pin), List.filter_append,
      List.toFinset_append]
    exact Finset.card_le_card Finset.subset_union_right
  have hlength : (pinnedElems pin C (history ++ scan)).length =
      min C ((history ++ scan).filter pin).toFinset.card :=
    length_pinnedElems (history ++ scan)
  have hshare : unpinnedShare pin C (history ++ scan) ≤
      (scan.filter (fun q => !pin q)).length := by
    rw [unpinnedShare]
    omega
  rw [unpinnedElems, List.filter_append,
    take_recency_scan _ (hscan.filter _) hshare]

end Paging

import BufferSim.Buffer.ListBuffer
import BufferSim.Paging.Pinned

/-!
# The PINNED manager

`PinnedBuffer.cpp` shares the hit path and the insertion of the other list
managers.  A full buffer walks the list from its back to the first page that is
not in `pinnedPages_`; when there is none the request returns without inserting
the page.

The manager refines the pinned policy for the pages that `shouldPin` selects.
The simulation relation adds to the one of the list managers that
`pinnedPages_` is exactly the set of resident pages to be pinned.
-/

namespace BufferSim

open Paging Cxx

/-- The fields of `PinnedBuffer`. -/
structure PinnedBuffer extends ListBuffer where
  pinnedPages : Finset Int

namespace PinnedBuffer

def new (capacity : ℕ) : PinnedBuffer where
  toListBuffer := ListBuffer.new "PINNED" capacity
  pinnedPages := ∅

/-- `pageId % 7 == 0`, with the remainder that truncates towards zero. -/
def shouldPin (pageId : Int) : Bool :=
  pageId.tmod 7 = 0

/-- The reverse walk over the list: erase the first node whose page is not
pinned, and report whether there was one. -/
def evictUnpinned (b : PinnedBuffer) :
    List (Node Int) → Option (PinnedBuffer × Bool)
  | [] => some (b, false)
  | node :: rest =>
      if node.val ∉ b.pinnedPages then do
        -- `std::next(rit).base()` is the node that `*rit` reads
        let useOrder ← b.useOrder.erase node.addr
        return ({ b with
          metrics := b.metrics.countEviction
          useOrder := useOrder
          pageMap := b.pageMap.erase node.val }, true)
      else evictUnpinned b rest

/-- Insert a page that missed, and pin it if it is to be pinned. -/
def insertPage (b : PinnedBuffer) (pageId : Int) : Option PinnedBuffer := do
  let pushed ← b.toListBuffer.pushFront pageId
  return {
    toListBuffer := pushed
    pinnedPages :=
      if shouldPin pageId then insert pageId b.pinnedPages else b.pinnedPages }

/-- `PinnedBuffer::accessPage`. -/
def accessPage (b : PinnedBuffer) (pageId : Int) : Option PinnedBuffer :=
  match b.pageMap.lookup pageId with
  | some it => do
      let counted : ListBuffer :=
        { b.toListBuffer with metrics := b.metrics.countRequest.countHit }
      let moved ← counted.moveToFront it pageId
      return { b with toListBuffer := moved }
  | none => do
      let missed : PinnedBuffer :=
        { b with metrics := b.metrics.countRequest.countMiss }
      if b.capacity ≤ IteratorMap.size b.pageMap then
        let (room, evicted) ← missed.evictUnpinned b.useOrder.nodes.reverse
        if evicted then room.insertPage pageId else some room
      else missed.insertPage pageId

def manager : BufferManager PinnedBuffer where
  accessPage := accessPage
  getMetrics b := b.metrics

theorem shouldPin_iff (p : Int) : shouldPin p = true ↔ 7 ∣ p := by
  rw [shouldPin, decide_eq_true_eq, Int.dvd_iff_tmod_eq_zero]

/-! ## The simulation relation -/

/-- The list part represents the frame list, and a resident page is in
`pinnedPages_` exactly when it is to be pinned. -/
structure Represents (C : ℕ) (b : PinnedBuffer) (s : FrameList Int C) :
    Prop where
  list : ListBuffer.Represents C b.toListBuffer s
  mem_pinned_iff : ∀ p, p ∈ b.pinnedPages ↔
    p ∈ s.elems ∧ shouldPin p = true

theorem represents_new (C : ℕ) :
    Represents C (new C) (FrameList.empty Int C) where
  list := ListBuffer.represents_new "PINNED" C
  mem_pinned_iff := by simp [new, FrameList.empty]

/-- The walk stops at the first node that is not pinned. -/
theorem evictUnpinned_eq (b : PinnedBuffer) (nodes : List (Node Int)) :
    b.evictUnpinned nodes =
      match nodes.find? (fun n => n.val ∉ b.pinnedPages) with
      | none => some (b, false)
      | some node => (b.useOrder.erase node.addr).map fun useOrder =>
          ({ b with
            metrics := b.metrics.countEviction
            useOrder := useOrder
            pageMap := b.pageMap.erase node.val }, true) := by
  induction nodes with
  | nil => rfl
  | cons node rest ih =>
      rw [evictUnpinned, List.find?_cons]
      by_cases hnode : node.val ∉ b.pinnedPages
      · rw [if_pos hnode, decide_eq_true hnode]
        simp only
        cases b.useOrder.erase node.addr <;> rfl
      · rw [if_neg hnode, decide_eq_false hnode]
        exact ih

variable {C : ℕ} {b : PinnedBuffer} {s : FrameList Int C}

/-- The resident pages outside of `pinnedPages_` are those not to be pinned. -/
theorem Represents.sdiff_pinnedPages (h : Represents C b s) :
    b.resident \ b.pinnedPages =
      (s.elems.filter (fun q => !shouldPin q)).toFinset := by
  ext p
  rw [Finset.mem_sdiff, h.list.resident_eq, h.mem_pinned_iff,
    List.mem_toFinset, List.mem_toFinset, List.mem_filter]
  cases shouldPin p <;> simp

/-- The reverse walk finds the victim of the pinned rule. -/
theorem Represents.victim_eq (h : Represents C b s) :
    (pinnedRule shouldPin).victim s.elems =
      (b.useOrder.nodes.reverse.find?
        (fun n => n.val ∉ b.pinnedPages)).map Node.val := by
  have hlist : s.elems = b.useOrder.nodes.map Node.val :=
    h.list.toList_eq.symm
  show s.elems.reverse.find? (fun q => !shouldPin q) = _
  rw [hlist, ← List.map_reverse, List.find?_map, ← List.head?_filter,
    ← List.head?_filter]
  congr 2
  apply List.filter_congr
  intro n hn
  have hres : n.val ∈ s.elems := by
    rw [hlist]
    exact List.mem_map_of_mem (List.mem_reverse.mp hn)
  have hiff : n.val ∈ b.pinnedPages ↔ shouldPin n.val = true := by
    rw [h.mem_pinned_iff]
    exact and_iff_right hres
  cases hpin : shouldPin n.val <;> simp [hiff, hpin]

/-- When every frame is pinned the walk changes nothing. -/
theorem evictUnpinned_none (h : Represents C b s)
    (hv : (pinnedRule shouldPin).victim s.elems = none) :
    b.evictUnpinned b.useOrder.nodes.reverse = some (b, false) := by
  rw [h.victim_eq, Option.map_eq_none_iff] at hv
  rw [evictUnpinned_eq, hv]

/-- Otherwise it removes the victim from the list and from the map. -/
theorem evictUnpinned_some (h : Represents C b s) {v : Int}
    (hv : (pinnedRule shouldPin).victim s.elems = some v) :
    ∃ room, b.evictUnpinned b.useOrder.nodes.reverse = some (room, true) ∧
      room.capacity = b.capacity ∧
      room.metrics = b.metrics.countEviction ∧
      room.pinnedPages = b.pinnedPages ∧
      Linked room.useOrder room.pageMap ∧
      room.useOrder.toList = b.useOrder.toList.erase v := by
  rw [h.victim_eq, Option.map_eq_some_iff] at hv
  obtain ⟨node, hfind, rfl⟩ := hv
  have hmem : ⟨node.addr, node.val⟩ ∈ b.useOrder.nodes :=
    List.mem_reverse.mp (List.mem_of_find?_eq_some hfind)
  have hlinked := h.list.linked
  obtain ⟨useOrder, herase, hrem⟩ :=
    StdList.removes_of_erase hlinked.nodup hmem
  refine ⟨{ b with
    metrics := b.metrics.countEviction
    useOrder := useOrder
    pageMap := b.pageMap.erase node.val }, ?_, rfl, rfl, rfl,
    hlinked.remove hrem, hrem.toList_eq hlinked.nodup⟩
  rw [evictUnpinned_eq, hfind]
  simp only
  rw [herase]
  rfl

/-- Inserting a page that is not resident. -/
theorem insertPage_spec (hlinked : Linked b.useOrder b.pageMap) {p : Int}
    (hp : p ∉ b.useOrder.toList) :
    ∃ b', b.insertPage p = some b' ∧ b'.capacity = b.capacity ∧
      b'.metrics = b.metrics ∧
      b'.pinnedPages =
        (if shouldPin p then insert p b.pinnedPages else b.pinnedPages) ∧
      Linked b'.useOrder b'.pageMap ∧
      b'.useOrder.toList = p :: b.useOrder.toList := by
  obtain ⟨pushed, hpush, hcap, hm, hlink, hlist⟩ :=
    ListBuffer.pushFront_spec (b := b.toListBuffer) hlinked hp
  refine ⟨⟨pushed, if shouldPin p then insert p b.pinnedPages
    else b.pinnedPages⟩, ?_, hcap, hm, rfl, hlink, hlist⟩
  rw [insertPage, hpush]
  rfl

/-- The simulation relation after an insertion into a list without `p`. -/
theorem Represents.of_insert {b' : PinnedBuffer} {p : Int}
    {s' : FrameList Int C} {pinned : Finset Int} {l : List Int}
    (hcap : b'.capacity = C) (hlinked : Linked b'.useOrder b'.pageMap)
    (hlist : b'.useOrder.toList = p :: l) (hs' : s'.elems = p :: l)
    (hpinned : ∀ q, q ∈ pinned ↔ q ∈ l ∧ shouldPin q = true)
    (hpages : b'.pinnedPages =
      if shouldPin p then insert p pinned else pinned) :
    Represents C b' s' where
  list := ⟨hcap, hlinked, hlist.trans hs'.symm⟩
  mem_pinned_iff q := by
    rw [hpages, hs']
    cases hp : shouldPin p with
    | true =>
        rw [if_pos rfl, Finset.mem_insert, hpinned, List.mem_cons]
        constructor
        · rintro (rfl | ⟨hq, hpin⟩)
          · exact ⟨Or.inl rfl, hp⟩
          · exact ⟨Or.inr hq, hpin⟩
        · rintro ⟨rfl | hq, hpin⟩
          · exact Or.inl rfl
          · exact Or.inr ⟨hq, hpin⟩
    | false =>
        rw [if_neg Bool.false_ne_true, hpinned, List.mem_cons]
        constructor
        · rintro ⟨hq, hpin⟩
          exact ⟨Or.inr hq, hpin⟩
        · rintro ⟨rfl | hq, hpin⟩
          · rw [hp] at hpin
            exact absurd hpin Bool.false_ne_true
          · exact ⟨hq, hpin⟩

/-! ## The four paths of a request -/

variable {p : Int}

theorem Represents.count_miss (h : Represents C b s) :
    Represents C { b with metrics := b.metrics.countRequest.countMiss } s :=
  ⟨⟨h.list.capacity_eq, h.list.linked, h.list.toList_eq⟩, h.mem_pinned_iff⟩

theorem step_hit (h : Represents C b s) (hp : p ∈ s.elems)
    (hout : (pinnedRule shouldPin).outcome C s.elems p = .hit) :
    ∃ b', b.accessPage p = some b' ∧
      Represents C b' (((pinnedRule shouldPin).policy C).next s p) ∧
      b'.metrics = b.metrics.record .hit := by
  have hnext := (pinnedRule shouldPin).policy_next_elems s p
  have hmem : p ∈ b.useOrder.toList := by
    rw [h.list.toList_eq]
    exact hp
  obtain ⟨it, hit, -⟩ := h.list.linked.exists_lookup hmem
  obtain ⟨moved, hmove, hcap, hm, hlink, hlist⟩ :=
    ListBuffer.moveToFront_spec (b := { b.toListBuffer with
      metrics := b.metrics.countRequest.countHit }) h.list.linked hit
  refine ⟨{ b with toListBuffer := moved }, ?_,
    ⟨⟨hcap.trans h.list.capacity_eq, hlink, ?_⟩, ?_⟩, hm⟩
  · rw [accessPage, hit]
    simp only
    rw [hmove]
    rfl
  · rw [hlist, hnext, hout, h.list.toList_eq]
    rfl
  · intro q
    rw [h.mem_pinned_iff, hnext, hout]
    by_cases hqp : q = p
    · simp [Outcome.reorder, hqp, hp]
    · simp [Outcome.reorder, hqp, List.mem_erase_of_ne hqp]

theorem step_load (h : Represents C b s) (hp : p ∉ s.elems)
    (hroom : s.elems.length < C)
    (hout : (pinnedRule shouldPin).outcome C s.elems p = .load) :
    ∃ b', b.accessPage p = some b' ∧
      Represents C b' (((pinnedRule shouldPin).policy C).next s p) ∧
      b'.metrics = b.metrics.record .load := by
  have hfresh : p ∉ b.useOrder.toList := by
    rw [h.list.toList_eq]
    exact hp
  have hnotfull := h.list.full_iff.not.mpr (Nat.not_le.mpr hroom)
  obtain ⟨b', hinsert, hcap, hm, hpages, hlink, hlist⟩ :=
    insertPage_spec (b := { b with
      metrics := b.metrics.countRequest.countMiss }) h.list.linked hfresh
  refine ⟨b', ?_, Represents.of_insert (hcap.trans h.list.capacity_eq) hlink
    hlist ?_ ?_ hpages, hm⟩
  · rw [accessPage, h.list.lookup_eq_none hp]
    simp only
    rw [if_neg hnotfull]
    exact hinsert
  · rw [EvictionRule.policy_next_elems, hout]
    exact congrArg (p :: ·) h.list.toList_eq.symm
  · intro q
    rw [h.mem_pinned_iff, ← h.list.toList_eq]

/-- A page that leaves was not pinned, so `pinnedPages_` stays right. -/
theorem step_replace (h : Represents C b s) (hp : p ∉ s.elems)
    (hfull : C ≤ s.elems.length) {v : Int}
    (hv : (pinnedRule shouldPin).victim s.elems = some v)
    (hout : (pinnedRule shouldPin).outcome C s.elems p = .replace v) :
    ∃ b', b.accessPage p = some b' ∧
      Represents C b' (((pinnedRule shouldPin).policy C).next s p) ∧
      b'.metrics = b.metrics.record (.replace v) := by
  obtain ⟨room, hevict, hcap₁, hm₁, hpages₁, hlink₁, hlist₁⟩ :=
    evictUnpinned_some h.count_miss hv
  have hlist₁' : room.useOrder.toList = s.elems.erase v := by
    rw [hlist₁]
    exact congrArg (List.erase · v) h.list.toList_eq
  have hfresh : p ∉ room.useOrder.toList := by
    rw [hlist₁']
    exact fun hmem => hp (List.mem_of_mem_erase hmem)
  obtain ⟨b', hinsert, hcap, hm, hpages, hlink, hlist⟩ :=
    insertPage_spec hlink₁ hfresh
  refine ⟨b', ?_, Represents.of_insert
    (hcap.trans (hcap₁.trans h.list.capacity_eq)) hlink hlist ?_ ?_ hpages, ?_⟩
  · rw [accessPage, h.list.lookup_eq_none hp]
    simp only
    rw [if_pos (h.list.full_iff.mpr hfull)]
    simp only at hevict
    rw [hevict]
    exact hinsert
  · rw [EvictionRule.policy_next_elems, hout, hlist₁']
    rfl
  · intro q
    rw [hpages₁, hlist₁', h.mem_pinned_iff, s.nodup.mem_erase_iff]
    constructor
    · rintro ⟨hq, hpin⟩
      refine ⟨⟨?_, hq⟩, hpin⟩
      rintro rfl
      rw [pin_of_pinned_victim hv] at hpin
      exact Bool.false_ne_true hpin
    · rintro ⟨⟨-, hq⟩, hpin⟩
      exact ⟨hq, hpin⟩
  · rw [hm, hm₁]
    rfl

/-- With every frame pinned, the request only counts a miss. -/
theorem step_reject (h : Represents C b s) (hp : p ∉ s.elems)
    (hfull : C ≤ s.elems.length)
    (hv : (pinnedRule shouldPin).victim s.elems = none)
    (hout : (pinnedRule shouldPin).outcome C s.elems p = .reject) :
    ∃ b', b.accessPage p = some b' ∧
      Represents C b' (((pinnedRule shouldPin).policy C).next s p) ∧
      b'.metrics = b.metrics.record .reject := by
  have hnext := (pinnedRule shouldPin).policy_next_elems s p
  have hwalk := evictUnpinned_none h.count_miss hv
  refine ⟨{ b with metrics := b.metrics.countRequest.countMiss }, ?_,
    ⟨⟨h.list.capacity_eq, h.list.linked, ?_⟩, ?_⟩, rfl⟩
  · rw [accessPage, h.list.lookup_eq_none hp]
    simp only
    rw [if_pos (h.list.full_iff.mpr hfull)]
    simp only at hwalk
    rw [hwalk]
    rfl
  · rw [hnext, hout]
    exact h.list.toList_eq
  · intro q
    rw [hnext, hout]
    exact h.mem_pinned_iff q

/-- The PINNED manager refines the pinned policy. -/
theorem refines (C : ℕ) :
    manager.Refines ((pinnedRule shouldPin).policy C) (Represents C) where
  step b s p h := by
    show ∃ b' : PinnedBuffer, b.accessPage p = some b' ∧ _ ∧ b'.metrics =
      b.metrics.record ((pinnedRule shouldPin).outcome C s.elems p)
    rcases (pinnedRule shouldPin).outcome_cases C s.elems p with
      ⟨hp, hout⟩ | ⟨hp, hroom, hout⟩ | ⟨v, hp, hfull, hv, hout⟩ |
        ⟨hp, hfull, hv, hout⟩
    · rw [hout]
      exact step_hit h hp hout
    · rw [hout]
      exact step_load h hp hroom hout
    · rw [hout]
      exact step_replace h hp hfull hv hout
    · rw [hout]
      exact step_reject h hp hfull hv hout

/-- Every run of the PINNED manager is defined and follows the policy. -/
theorem run_new (C : ℕ) (requests : List Int) :
    ∃ b, manager.run (new C) requests = some b ∧
      Represents C b (((pinnedRule shouldPin).policy C).run requests) ∧
      b.metrics.bufferHits =
        ((pinnedRule shouldPin).policy C).hits requests ∧
      b.metrics.bufferMisses =
        ((pinnedRule shouldPin).policy C).misses requests :=
  (refines C).counters (represents_new C) rfl requests

end PinnedBuffer
end BufferSim

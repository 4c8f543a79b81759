import BufferSim.Buffer.PinnedBuffer

/-!
# The recency order of the list managers

The list managers keep the resident pages twice, in `useOrder_` and as the keys
of `pageMap_`, whose values are iterators into the list.  This file states what
links the two in every reachable state, and which page each manager gives up.
-/

namespace BufferSim

open Paging Cxx

/-- The state of a list manager with `C` frames after a list of requests: no
page is repeated, every page of the map has its own live node, and the list is
ordered by strictly decreasing last request. -/
structure RecencyOrdered (C : ℕ) (requests : List Int) (b : ListBuffer) :
    Prop where
  nodup : b.useOrder.toList.Nodup
  length_le : b.useOrder.toList.length ≤ C
  keys_eq : b.pageMap.keys = b.useOrder.toList.toFinset
  own_node : ∀ p it, b.pageMap.lookup p = some it → ⟨it, p⟩ ∈ b.useOrder.nodes
  recent_first : b.useOrder.toList.Pairwise
    (fun p q => lastRequest q requests < lastRequest p requests)

theorem ListBuffer.Represents.recencyOrdered {C : ℕ} {requests : List Int}
    {b : ListBuffer} {rule : EvictionRule Int}
    (h : Represents C b ((rule.policy C).run requests)) :
    RecencyOrdered C requests b where
  nodup := h.linked.nodup
  length_le := by
    rw [h.toList_eq]
    exact ((rule.policy C).run requests).length_le
  keys_eq := h.linked.keys_eq
  own_node p it := (h.linked.lookup_iff p it).mp
  recent_first := by
    rw [h.toList_eq]
    exact rule.pairwise_lastRequest_elems requests

/-- Among `pages`, `v` is the one whose last request lies furthest back. -/
def LeastRecent (requests : List Int) (pages : Finset Int) (v : Int) : Prop :=
  v ∈ pages ∧
    ∀ q ∈ pages, q ≠ v → lastRequest v requests < lastRequest q requests

namespace BufferManager

variable {σ τ : Type}

/-- On the next request for any page, the eviction counter rises exactly when a
resident page leaves.  A page leaves only if it satisfies `victim`, and only to
make room for a page that missed. -/
def Evicts (M : BufferManager σ) (resident : σ → Finset Int) (b : σ)
    (victim : Int → Prop) : Prop :=
  ∀ p, ∃ b', M.accessPage b p = some b' ∧
    ((M.getMetrics b').evictions = (M.getMetrics b).evictions + 1 ↔
      ∃ v ∈ resident b, v ∉ resident b') ∧
    ∀ v ∈ resident b, v ∉ resident b' →
      victim v ∧ p ∉ resident b ∧
        resident b' = insert p ((resident b).erase v)

variable {M : BufferManager σ} {rule : EvictionRule Int} {C : ℕ}
  {rel : σ → FrameList Int C → Prop} {resident : σ → Finset Int}

/-- A manager that refines an eviction rule gives up the victim of the rule. -/
theorem Refines.evicts (h : M.Refines (rule.policy C) rel)
    (hres : ∀ b s, rel b s → resident b = s.elems.toFinset)
    {b : σ} {s : FrameList Int C} (hrel : rel b s) {victim : Int → Prop}
    (hvictim : ∀ v, rule.victim s.elems = some v → victim v) :
    M.Evicts resident b victim := by
  intro p
  obtain ⟨b', haccess, hrel', hmetrics⟩ := h.step b s p hrel
  have hleaves := (rule.policy C).outcome_eq_replace_iff s p
  have hhit := (rule.policy C).hit_iff s p
  have hnext := (rule.policy C).resident_next s p
  refine ⟨b', haccess, ?_, ?_⟩
  · rw [hmetrics, Metrics.record_evictions_iff, hres b s hrel,
      hres b' _ hrel']
    exact exists_congr hleaves
  · rw [hres b s hrel, hres b' _ hrel']
    intro v hv hv'
    have hout := (hleaves v).mpr ⟨hv, hv'⟩
    refine ⟨hvictim v (rule.victim_of_leaves s (List.mem_toFinset.mp hv)
      (mt List.mem_toFinset.mpr hv')), ?_, ?_⟩
    · rw [hout] at hhit
      exact fun hp => absurd (hhit.mpr hp) Bool.false_ne_true
    · rw [hout] at hnext
      exact hnext

end BufferManager

/-- Every reachable state of the three list managers is in recency order.  LRU
gives up its least recently requested page, MRU the page of the preceding
request, and PINNED the least recently requested page that is not pinned. -/
theorem recency_order {C : ℕ} (hC : 1 ≤ C) (requests : List Int) :
    (∃ b, LRUBuffer.manager.run (LRUBuffer.new C) requests = some b ∧
      RecencyOrdered C requests b ∧
      LRUBuffer.manager.Evicts ListBuffer.resident b
        (LeastRecent requests b.resident)) ∧
    (∃ b, MRUBuffer.manager.run (MRUBuffer.new C) requests = some b ∧
      RecencyOrdered C requests b ∧
      MRUBuffer.manager.Evicts ListBuffer.resident b
        (fun v => requests.getLast? = some v)) ∧
    ∃ b, PinnedBuffer.manager.run (PinnedBuffer.new C) requests = some b ∧
      RecencyOrdered C requests b.toListBuffer ∧
      PinnedBuffer.manager.Evicts (fun b => b.resident) b
        (LeastRecent requests (b.resident \ b.pinnedPages)) := by
  have hlist : ∀ (b : ListBuffer) (s : FrameList Int C),
      ListBuffer.Represents C b s → b.resident = s.elems.toFinset :=
    fun b s h => h.resident_eq
  refine ⟨?_, ?_, ?_⟩
  · obtain ⟨b, hrun, hrep, -, -⟩ := LRUBuffer.run_new hC requests
    refine ⟨b, hrun, hrep.recencyOrdered,
      (LRUBuffer.refines hC).evicts hlist hrep ?_⟩
    intro v hv
    rw [hrep.resident_eq]
    refine ⟨List.mem_toFinset.mpr ((lruRule Int).mem_of_victim hv), ?_⟩
    intro q hq hne
    exact (lruRule Int).lastRequest_lt_of_getLast? requests
      (List.Sublist.refl _) hv (List.mem_toFinset.mp hq) hne
  · obtain ⟨b, hrun, hrep, -, -⟩ := MRUBuffer.run_new hC requests
    refine ⟨b, hrun, hrep.recencyOrdered,
      (MRUBuffer.refines hC).evicts hlist hrep ?_⟩
    intro v hv
    rw [← mru_head?_elems hC requests]
    exact hv
  · obtain ⟨b, hrun, hrep, -, -⟩ := PinnedBuffer.run_new C requests
    refine ⟨b, hrun, hrep.list.recencyOrdered,
      (PinnedBuffer.refines C).evicts (fun b s h => hlist _ s h.list)
        hrep ?_⟩
    intro v hv
    have hunpinned := hrep.sdiff_pinnedPages
    rw [pinned_victim_eq] at hv
    rw [hunpinned]
    refine ⟨List.mem_toFinset.mpr (List.mem_of_getLast? hv), ?_⟩
    intro q hq hne
    exact (pinnedRule PinnedBuffer.shouldPin).lastRequest_lt_of_getLast?
      requests List.filter_sublist hv (List.mem_toFinset.mp hq) hne

theorem recency_order_two :
    ∃ b, LRUBuffer.manager.run (LRUBuffer.new 2) [5, 6, 5] = some b ∧
      RecencyOrdered 2 [5, 6, 5] b ∧
      LRUBuffer.manager.Evicts ListBuffer.resident b
        (LeastRecent [5, 6, 5] b.resident) :=
  (recency_order (by decide : 1 ≤ 2) [5, 6, 5]).1

end BufferSim

import BufferSim.Buffer.Manager
import BufferSim.Cxx.StdList
import BufferSim.Paging.Lru
import BufferSim.Paging.Mru

/-!
# The LRU and MRU managers

`LRUBuffer.cpp` and `MRUBuffer.cpp` have the same fields and differ only in the
end of `useOrder_` that a full buffer gives up.  `ListBuffer.accessPage` takes
the two list operations of that end as parameters; each manager is its
application to its own end.

Each manager refines the policy of its eviction rule.  The simulation relation
keeps `pageMap_` linked to the nodes of `useOrder_`, which makes every iterator
that the code dereferences valid.
-/

namespace BufferSim

open Paging Cxx

/-- The fields of `LRUBuffer` and `MRUBuffer`. -/
structure ListBuffer where
  capacity : ℕ
  metrics : Metrics
  useOrder : StdList Int
  pageMap : IteratorMap Int

namespace ListBuffer

def new (name : String) (capacity : ℕ) : ListBuffer where
  capacity := capacity
  metrics := { strategyName := name }
  useOrder := StdList.empty
  pageMap := ∅

/-- `useOrder_.push_front(pageId); pageMap_[pageId] = useOrder_.begin();` -/
def pushFront (b : ListBuffer) (pageId : Int) : Option ListBuffer := do
  let useOrder := b.useOrder.pushFront pageId
  let it ← useOrder.begin
  return { b with
    useOrder := useOrder
    pageMap := b.pageMap.insert pageId it }

/-- The hit path: erase the node of the page and push a new one. -/
def moveToFront (b : ListBuffer) (it : Iterator) (pageId : Int) :
    Option ListBuffer := do
  let useOrder ← b.useOrder.erase it
  ({ b with useOrder := useOrder } : ListBuffer).pushFront pageId

/-- Give up the page at one end of the list, read by `peek` and removed by
`pop`. -/
def evict (peek : StdList Int → Option Int)
    (pop : StdList Int → Option (StdList Int)) (b : ListBuffer) :
    Option ListBuffer := do
  let evictId ← peek b.useOrder
  let useOrder ← pop b.useOrder
  return { b with
    metrics := b.metrics.countEviction
    useOrder := useOrder
    pageMap := b.pageMap.erase evictId }

def accessPage (peek : StdList Int → Option Int)
    (pop : StdList Int → Option (StdList Int)) (b : ListBuffer)
    (pageId : Int) : Option ListBuffer :=
  match b.pageMap.lookup pageId with
  | some it =>
      ({ b with metrics := b.metrics.countRequest.countHit } :
        ListBuffer).moveToFront it pageId
  | none => do
      let missed : ListBuffer :=
        { b with metrics := b.metrics.countRequest.countMiss }
      let room ←
        if b.capacity ≤ IteratorMap.size b.pageMap then missed.evict peek pop
        else some missed
      room.pushFront pageId

end ListBuffer

namespace LRUBuffer

def new (capacity : ℕ) : ListBuffer :=
  ListBuffer.new "LRU" capacity

/-- `LRUBuffer::accessPage`: a full buffer gives up the back of the list. -/
def accessPage : ListBuffer → Int → Option ListBuffer :=
  ListBuffer.accessPage StdList.back StdList.popBack

def manager : BufferManager ListBuffer where
  accessPage := accessPage
  getMetrics b := b.metrics

end LRUBuffer

namespace MRUBuffer

def new (capacity : ℕ) : ListBuffer :=
  ListBuffer.new "MRU" capacity

/-- `MRUBuffer::accessPage`: a full buffer gives up the front of the list. -/
def accessPage : ListBuffer → Int → Option ListBuffer :=
  ListBuffer.accessPage StdList.front StdList.popFront

def manager : BufferManager ListBuffer where
  accessPage := accessPage
  getMetrics b := b.metrics

end MRUBuffer

/-! ## The simulation relation -/

namespace ListBuffer

/-- The buffer has `C` frames, its list holds the frame list of the policy, and
its map is linked to the list. -/
structure Represents (C : ℕ) (b : ListBuffer) (s : FrameList Int C) :
    Prop where
  capacity_eq : b.capacity = C
  linked : Linked b.useOrder b.pageMap
  toList_eq : b.useOrder.toList = s.elems

theorem represents_new (name : String) (C : ℕ) :
    Represents C (new name C) (FrameList.empty Int C) where
  capacity_eq := rfl
  linked := Linked.empty
  toList_eq := rfl

/-- The pages in `pageMap_`. -/
def resident (b : ListBuffer) : Finset Int :=
  b.pageMap.keys

theorem Represents.resident_eq {C : ℕ} {b : ListBuffer} {s : FrameList Int C}
    (h : Represents C b s) : b.resident = s.elems.toFinset := by
  rw [resident, h.linked.keys_eq, h.toList_eq]

theorem pushFront_eq (b : ListBuffer) (pageId : Int) :
    b.pushFront pageId =
      some { b with
        useOrder := b.useOrder.pushFront pageId
        pageMap := b.pageMap.insert pageId b.useOrder.fresh } := rfl

/-- The hit path keeps list and map linked and moves the page to the front. -/
theorem moveToFront_spec {b : ListBuffer}
    (hlinked : Linked b.useOrder b.pageMap) {it : Iterator} {p : Int}
    (hit : b.pageMap.lookup p = some it) :
    ∃ b', b.moveToFront it p = some b' ∧ b'.capacity = b.capacity ∧
      b'.metrics = b.metrics ∧ Linked b'.useOrder b'.pageMap ∧
      b'.useOrder.toList = p :: b.useOrder.toList.erase p := by
  have hnode := (hlinked.lookup_iff p it).mp hit
  obtain ⟨useOrder, herase, hrem⟩ :=
    StdList.removes_of_erase hlinked.nodup hnode
  refine ⟨{ b with
    useOrder := useOrder.pushFront p
    pageMap := b.pageMap.insert p useOrder.fresh }, ?_, rfl, rfl,
    hlinked.touch hrem, ?_⟩
  · rw [moveToFront, herase]
    rfl
  · rw [StdList.toList_pushFront, hrem.toList_eq hlinked.nodup]

/-- Pushing a page that is not resident keeps list and map linked. -/
theorem pushFront_spec {b : ListBuffer}
    (hlinked : Linked b.useOrder b.pageMap) {p : Int}
    (hp : p ∉ b.useOrder.toList) :
    ∃ b', b.pushFront p = some b' ∧ b'.capacity = b.capacity ∧
      b'.metrics = b.metrics ∧ Linked b'.useOrder b'.pageMap ∧
      b'.useOrder.toList = p :: b.useOrder.toList :=
  ⟨_, pushFront_eq b p, rfl, rfl, hlinked.push hp, rfl⟩

/-- The operations `peek` and `pop` give up the victim of `rule`. -/
def PopsVictim (rule : EvictionRule Int) (peek : StdList Int → Option Int)
    (pop : StdList Int → Option (StdList Int)) : Prop :=
  ∀ l : StdList Int, l.toList.Nodup → ∀ v, rule.victim l.toList = some v →
    peek l = some v ∧ ∃ l', pop l = some l' ∧ l.Removes v l'

variable {rule : EvictionRule Int} {peek : StdList Int → Option Int}
  {pop : StdList Int → Option (StdList Int)}

theorem evict_spec (hpops : PopsVictim rule peek pop) {b : ListBuffer}
    (hlinked : Linked b.useOrder b.pageMap) {v : Int}
    (hv : rule.victim b.useOrder.toList = some v) :
    ∃ b', b.evict peek pop = some b' ∧ b'.capacity = b.capacity ∧
      b'.metrics = b.metrics.countEviction ∧
      Linked b'.useOrder b'.pageMap ∧
      b'.useOrder.toList = b.useOrder.toList.erase v := by
  obtain ⟨hpeek, useOrder, hpop, hrem⟩ := hpops b.useOrder hlinked.nodup v hv
  refine ⟨{ b with
    metrics := b.metrics.countEviction
    useOrder := useOrder
    pageMap := b.pageMap.erase v }, ?_, rfl, rfl, hlinked.remove hrem,
    hrem.toList_eq hlinked.nodup⟩
  rw [evict, hpeek, hpop]
  rfl

/-! ## The three paths of a request -/

variable {C : ℕ} {b : ListBuffer} {s : FrameList Int C} {p : Int}

theorem Represents.size_eq (h : Represents C b s) :
    IteratorMap.size b.pageMap = s.elems.length := by
  rw [h.linked.size_eq, h.toList_eq]

/-- `pageMap_.size() >= capacity_` exactly when all frames are in use. -/
theorem Represents.full_iff (h : Represents C b s) :
    b.capacity ≤ IteratorMap.size b.pageMap ↔ C ≤ s.elems.length := by
  rw [h.size_eq, h.capacity_eq]

theorem Represents.lookup_eq_none (h : Represents C b s)
    (hp : p ∉ s.elems) : b.pageMap.lookup p = none := by
  rw [h.linked.lookup_eq_none_iff, h.toList_eq]
  exact hp

theorem step_hit (h : Represents C b s) (hp : p ∈ s.elems)
    (hout : rule.outcome C s.elems p = .hit) :
    ∃ b', accessPage peek pop b p = some b' ∧
      Represents C b' ((rule.policy C).next s p) ∧
      b'.metrics = b.metrics.record .hit := by
  have hmem : p ∈ b.useOrder.toList := by
    rw [h.toList_eq]
    exact hp
  obtain ⟨it, hit, -⟩ := h.linked.exists_lookup hmem
  obtain ⟨b', hmove, hcap, hm, hlinked, hlist⟩ :=
    moveToFront_spec (b := { b with
      metrics := b.metrics.countRequest.countHit }) h.linked hit
  refine ⟨b', ?_, ⟨hcap.trans h.capacity_eq, hlinked, ?_⟩, hm⟩
  · rw [accessPage, hit]
    exact hmove
  · rw [hlist, rule.policy_next_elems, hout, h.toList_eq]
    rfl

theorem step_load (h : Represents C b s) (hp : p ∉ s.elems)
    (hroom : s.elems.length < C)
    (hout : rule.outcome C s.elems p = .load) :
    ∃ b', accessPage peek pop b p = some b' ∧
      Represents C b' ((rule.policy C).next s p) ∧
      b'.metrics = b.metrics.record .load := by
  have hfresh : p ∉ b.useOrder.toList := by
    rw [h.toList_eq]
    exact hp
  have hnotfull := h.full_iff.not.mpr (Nat.not_le.mpr hroom)
  obtain ⟨b', hpush, hcap, hm, hlinked, hlist⟩ :=
    pushFront_spec (b := { b with
      metrics := b.metrics.countRequest.countMiss }) h.linked hfresh
  refine ⟨b', ?_, ⟨hcap.trans h.capacity_eq, hlinked, ?_⟩, hm⟩
  · rw [accessPage, h.lookup_eq_none hp]
    simp only
    rw [if_neg hnotfull]
    exact hpush
  · rw [hlist, rule.policy_next_elems, hout, h.toList_eq]
    rfl

theorem step_replace (hpops : PopsVictim rule peek pop)
    (h : Represents C b s) (hp : p ∉ s.elems) (hfull : C ≤ s.elems.length)
    {v : Int} (hv : rule.victim s.elems = some v)
    (hout : rule.outcome C s.elems p = .replace v) :
    ∃ b', accessPage peek pop b p = some b' ∧
      Represents C b' ((rule.policy C).next s p) ∧
      b'.metrics = b.metrics.record (.replace v) := by
  have hvictim : rule.victim b.useOrder.toList = some v := by
    rw [h.toList_eq]
    exact hv
  obtain ⟨room, hevict, hcap₁, hm₁, hlinked₁, hlist₁⟩ :=
    evict_spec hpops (b := { b with
      metrics := b.metrics.countRequest.countMiss }) h.linked hvictim
  have hlist₁' : room.useOrder.toList = s.elems.erase v := by
    rw [hlist₁]
    exact congrArg (List.erase · v) h.toList_eq
  have hfresh : p ∉ room.useOrder.toList := by
    rw [hlist₁']
    exact fun hmem => hp (List.mem_of_mem_erase hmem)
  obtain ⟨b', hpush, hcap, hm, hlinked, hlist⟩ :=
    pushFront_spec hlinked₁ hfresh
  refine ⟨b', ?_, ⟨hcap.trans (hcap₁.trans h.capacity_eq), hlinked, ?_⟩, ?_⟩
  · rw [accessPage, h.lookup_eq_none hp]
    simp only
    rw [if_pos (h.full_iff.mpr hfull), hevict]
    exact hpush
  · rw [hlist, hlist₁', rule.policy_next_elems, hout]
    rfl
  · rw [hm, hm₁]
    rfl

/-- A list manager refines the policy of the rule that its end implements, as
long as that policy never rejects a request. -/
theorem refines (M : BufferManager ListBuffer) (C : ℕ)
    (haccess : M.accessPage = ListBuffer.accessPage peek pop)
    (hmetrics : M.getMetrics = metrics)
    (hpops : PopsVictim rule peek pop)
    (hloads : ∀ l p, rule.outcome C l p ≠ .reject) :
    M.Refines (rule.policy C) (Represents C) where
  step b s p h := by
    rw [haccess, hmetrics]
    show ∃ b' : ListBuffer, _ ∧ _ ∧ b'.metrics =
      b.metrics.record (rule.outcome C s.elems p)
    rcases rule.outcome_cases C s.elems p with
      ⟨hp, hout⟩ | ⟨hp, hroom, hout⟩ | ⟨v, hp, hfull, hv, hout⟩ |
        ⟨-, -, -, hout⟩
    · rw [hout]
      exact step_hit h hp hout
    · rw [hout]
      exact step_load h hp hroom hout
    · rw [hout]
      exact step_replace hpops h hp hfull hv hout
    · exact absurd hout (hloads s.elems p)

end ListBuffer

/-! ## The two managers -/

theorem LRUBuffer.refines {C : ℕ} (hC : 1 ≤ C) :
    LRUBuffer.manager.Refines ((lruRule Int).policy C)
      (ListBuffer.Represents C) := by
  refine ListBuffer.refines LRUBuffer.manager C rfl rfl ?_
    (lru_outcome_ne_reject hC)
  intro l hl v hv
  exact ⟨hv, StdList.removes_of_popBack hl hv⟩

/-- Every run of the LRU manager is defined and follows the policy. -/
theorem LRUBuffer.run_new {C : ℕ} (hC : 1 ≤ C) (requests : List Int) :
    ∃ b, LRUBuffer.manager.run (LRUBuffer.new C) requests = some b ∧
      ListBuffer.Represents C b (((lruRule Int).policy C).run requests) ∧
      b.metrics.bufferHits = ((lruRule Int).policy C).hits requests ∧
      b.metrics.bufferMisses = ((lruRule Int).policy C).misses requests :=
  (LRUBuffer.refines hC).counters (ListBuffer.represents_new "LRU" C) rfl
    requests

theorem MRUBuffer.refines {C : ℕ} (hC : 1 ≤ C) :
    MRUBuffer.manager.Refines ((mruRule Int).policy C)
      (ListBuffer.Represents C) := by
  refine ListBuffer.refines MRUBuffer.manager C rfl rfl ?_
    (mru_outcome_ne_reject hC)
  intro l hl v hv
  exact ⟨hv, StdList.removes_of_popFront hl hv⟩

/-- Every run of the MRU manager is defined and follows the policy. -/
theorem MRUBuffer.run_new {C : ℕ} (hC : 1 ≤ C) (requests : List Int) :
    ∃ b, MRUBuffer.manager.run (MRUBuffer.new C) requests = some b ∧
      ListBuffer.Represents C b (((mruRule Int).policy C).run requests) ∧
      b.metrics.bufferHits = ((mruRule Int).policy C).hits requests ∧
      b.metrics.bufferMisses = ((mruRule Int).policy C).misses requests :=
  (MRUBuffer.refines hC).counters (ListBuffer.represents_new "MRU" C) rfl
    requests

end BufferSim

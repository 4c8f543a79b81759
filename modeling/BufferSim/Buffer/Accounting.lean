import BufferSim.Buffer.PinnedBuffer
import BufferSim.Buffer.ClockBuffer
import BufferSim.Paging.Filling

/-!
# The accounts of the managers

The counters of every manager balance: each request is a hit or a miss, and
each miss was evicted again, is still resident, or found every frame pinned.
The four managers fill their frames before they evict, so on a trace that fits
into the buffer their resident pages and counters are the same.
-/

namespace BufferSim

open Paging

/-- What the counters and the resident pages add up to after a number of
requests, when `rejected` of the misses were not loaded. -/
structure Accounts (requests rejected : ℕ) (resident : Finset Int)
    (m : Metrics) : Prop where
  totalRequests_eq : m.totalRequests = requests
  hits_add_misses : m.bufferHits + m.bufferMisses = m.totalRequests
  diskReads_eq : m.diskReads = m.bufferMisses
  misses_eq : m.bufferMisses = m.evictions + resident.card + rejected

/-- The resident pages and the counters of a manager with `C` frames that does
not evict before it is full. -/
structure FillsFrames (C : ℕ) (requests : List Int) (resident : Finset Int)
    (m : Metrics) : Prop where
  card_eq : resident.card = min C requests.toFinset.card
  subset : resident ⊆ requests.toFinset
  resident_eq : requests.toFinset.card ≤ C → resident = requests.toFinset
  counters_eq : requests.toFinset.card ≤ C →
    m = { strategyName := m.strategyName
          totalRequests := requests.length
          bufferHits := requests.length - requests.toFinset.card
          bufferMisses := requests.toFinset.card
          diskReads := requests.toFinset.card
          evictions := 0 }

namespace BufferManager

variable {σ τ : Type}

/-- The number of requests that are made in a state with a given property. -/
def countRequests (M : BufferManager σ) (cond : σ → Int → Bool) :
    σ → List Int → Option ℕ
  | _, [] => some 0
  | b, p :: pages => do
      let b' ← M.accessPage b p
      let rest ← countRequests M cond b' pages
      return (if cond b p then 1 else 0) + rest

variable {M : BufferManager σ} {P : Policy Int τ} {rel : σ → τ → Prop}

theorem Refines.countRequests (h : M.Refines P rel) {cond : σ → Int → Bool}
    {kind : Outcome Int → Bool}
    (hcond : ∀ b s p, rel b s → cond b p = kind (P.outcome s p))
    {b : σ} {s : τ} (hrel : rel b s) (pages : List Int) :
    M.countRequests cond b pages =
      some ((P.outcomes s pages).countP kind) := by
  induction pages generalizing b s with
  | nil => rfl
  | cons p pages ih =>
      obtain ⟨b', haccess, hrel', -⟩ := h.step b s p hrel
      simp [BufferManager.countRequests, haccess, ih hrel', hcond b s p hrel,
        Policy.outcomes, List.countP_cons, Nat.add_comm]

/-- The accounts of a manager are those of the policy that it refines. -/
theorem Refines.accounts (h : M.Refines P rel) {C : ℕ} (hfill : P.FillsFirst C)
    {resident : σ → Finset Int}
    (hresident : ∀ b s, rel b s → resident b = P.resident s)
    {b : σ} (hrel : rel b P.start) {name : String}
    (hzero : M.getMetrics b = { strategyName := name })
    (requests : List Int) :
    ∃ b', M.run b requests = some b' ∧
      Accounts requests.length (P.rejections requests) (resident b')
        (M.getMetrics b') ∧
      FillsFrames C requests (resident b') (M.getMetrics b') := by
  obtain ⟨b', hrun, hrel', hmetrics⟩ := h.totals hrel hzero requests
  have hbalance := P.hits_add_misses requests
  refine ⟨b', hrun, ⟨?_, ?_, ?_, ?_⟩, ⟨?_, ?_, ?_, ?_⟩⟩
  · simp only [hmetrics]
  · simpa only [hmetrics] using hbalance
  · simp only [hmetrics]
  · simpa only [hmetrics, hresident b' _ hrel'] using P.misses_eq requests
  · simpa only [hresident b' _ hrel'] using hfill.card_resident requests
  · simpa only [hresident b' _ hrel'] using
      P.resident_subset_toFinset requests
  · intro hfit
    simpa only [hresident b' _ hrel'] using hfill.resident_eq hfit
  · intro hfit
    have hmisses := hfill.misses_eq hfit
    have hhits : P.hits requests =
        requests.length - requests.toFinset.card := by omega
    simp only [hmetrics, hmisses, hhits, (hfill.no_evictions hfit).1]

/-- A manager that loads every page it does not hold rejects no request. -/
theorem Refines.accounts_of_loads (h : M.Refines P rel) {C : ℕ}
    (hfill : P.FillsFirst C) (hloads : ∀ s p, P.outcome s p ≠ .reject)
    {resident : σ → Finset Int}
    (hresident : ∀ b s, rel b s → resident b = P.resident s)
    {b : σ} (hrel : rel b P.start) {name : String}
    (hzero : M.getMetrics b = { strategyName := name })
    (requests : List Int) :
    ∃ b', M.run b requests = some b' ∧
      Accounts requests.length 0 (resident b') (M.getMetrics b') ∧
      FillsFrames C requests (resident b') (M.getMetrics b') := by
  have haccounts := h.accounts hfill hresident hrel hzero requests
  rwa [P.rejections_eq_zero hloads] at haccounts

end BufferManager

/-! ## The four managers -/

variable {C : ℕ}

theorem LRUBuffer.accounts (hC : 1 ≤ C) (requests : List Int) :
    ∃ b, LRUBuffer.manager.run (LRUBuffer.new C) requests = some b ∧
      Accounts requests.length 0 b.resident b.metrics ∧
      FillsFrames C requests b.resident b.metrics :=
  (LRUBuffer.refines hC).accounts_of_loads ((lruRule Int).fillsFirst C)
    (fun s p => lru_outcome_ne_reject hC s.elems p)
    (fun _ _ hrep => hrep.resident_eq) (ListBuffer.represents_new "LRU" C) rfl
    requests

theorem MRUBuffer.accounts (hC : 1 ≤ C) (requests : List Int) :
    ∃ b, MRUBuffer.manager.run (MRUBuffer.new C) requests = some b ∧
      Accounts requests.length 0 b.resident b.metrics ∧
      FillsFrames C requests b.resident b.metrics :=
  (MRUBuffer.refines hC).accounts_of_loads ((mruRule Int).fillsFirst C)
    (fun s p => mru_outcome_ne_reject hC s.elems p)
    (fun _ _ hrep => hrep.resident_eq) (ListBuffer.represents_new "MRU" C) rfl
    requests

theorem ClockBuffer.accounts (hC : 1 ≤ C) (requests : List Int) :
    ∃ b, ClockBuffer.manager.run (ClockBuffer.new C) requests = some b ∧
      Accounts requests.length 0 b.resident b.metrics ∧
      FillsFrames C requests b.resident b.metrics :=
  (ClockBuffer.refines hC).accounts_of_loads (secondChance_fillsFirst C)
    (secondChance_outcome_ne_reject hC) (fun _ _ hrep => hrep.resident_eq)
    (ClockBuffer.represents_new hC) rfl requests

namespace PinnedBuffer

/-- The request misses while every one of the frames holds a pinned page. -/
def blocked (b : PinnedBuffer) (p : Int) : Bool :=
  p ∉ b.resident ∧ b.resident.card = b.capacity ∧ b.resident ⊆ b.pinnedPages

/-- The blocked requests are those that the policy rejects. -/
theorem Represents.blocked_eq {b : PinnedBuffer} {s : FrameList Int C}
    (h : Represents C b s) (p : Int) :
    b.blocked p =
      (((pinnedRule shouldPin).policy C).outcome s p).isReject := by
  have hcard : b.resident.card = s.elems.length := by
    rw [h.list.resident_eq, List.toFinset_card_of_nodup s.nodup]
  have hpinned : b.resident ⊆ b.pinnedPages ↔
      (pinnedRule shouldPin).victim s.elems = none := by
    simp only [pinned_victim_eq, List.getLast?_eq_none_iff,
      List.filter_eq_nil_iff, h.list.resident_eq, Finset.subset_iff,
      List.mem_toFinset, h.mem_pinned_iff]
    exact forall₂_congr fun q hq => by simp [hq]
  have hle := s.length_le
  rw [Bool.eq_iff_iff, blocked, decide_eq_true_eq, hcard, hpinned,
    h.list.capacity_eq, h.list.resident_eq, List.mem_toFinset]
  show _ ↔ ((pinnedRule shouldPin).outcome C s.elems p).isReject = true
  rcases (pinnedRule shouldPin).outcome_cases C s.elems p with
    ⟨hp, hout⟩ | ⟨hp, hroom, hout⟩ | ⟨v, hp, hfull, hv, hout⟩ |
      ⟨hp, hfull, hv, hout⟩
  · simp [hout, hp, Outcome.isReject]
  · simp [hout, hroom.ne, Outcome.isReject]
  · simp [hout, hv, Outcome.isReject]
  · simp [hout, hp, hv, Nat.le_antisymm hle hfull, Outcome.isReject]

theorem accounts (C : ℕ) (requests : List Int) :
    ∃ b rejected, manager.run (new C) requests = some b ∧
      manager.countRequests blocked (new C) requests = some rejected ∧
      Accounts requests.length rejected b.resident b.metrics ∧
      FillsFrames C requests b.resident b.metrics := by
  obtain ⟨b, hrun, haccounts, hfills⟩ := (refines C).accounts
    ((pinnedRule shouldPin).fillsFirst C)
    (fun b s hrep => hrep.list.resident_eq) (represents_new C) rfl requests
  have hblocked := (refines C).countRequests
    (fun b s p hrep => hrep.blocked_eq p) (represents_new C) requests
  exact ⟨b, _, hrun, hblocked, haccounts, hfills⟩

end PinnedBuffer

/-- The four managers hold as many requested pages as they have frames for, and
do not differ on a trace that fits. -/
theorem frames_filled (hC : 1 ≤ C) (requests : List Int) :
    ∃ l m c p,
      LRUBuffer.manager.run (LRUBuffer.new C) requests = some l ∧
      MRUBuffer.manager.run (MRUBuffer.new C) requests = some m ∧
      ClockBuffer.manager.run (ClockBuffer.new C) requests = some c ∧
      PinnedBuffer.manager.run (PinnedBuffer.new C) requests = some p ∧
      FillsFrames C requests l.resident l.metrics ∧
      FillsFrames C requests m.resident m.metrics ∧
      FillsFrames C requests c.resident c.metrics ∧
      FillsFrames C requests p.resident p.metrics := by
  obtain ⟨l, hl, -, hlFills⟩ := LRUBuffer.accounts hC requests
  obtain ⟨m, hm, -, hmFills⟩ := MRUBuffer.accounts hC requests
  obtain ⟨c, hc, -, hcFills⟩ := ClockBuffer.accounts hC requests
  obtain ⟨p, rejected, hp, -, -, hpFills⟩ := PinnedBuffer.accounts C requests
  exact ⟨l, m, c, p, hl, hm, hc, hp, hlFills, hmFills, hcFills, hpFills⟩

theorem frames_filled_three :
    ∃ l c, LRUBuffer.manager.run (LRUBuffer.new 3) [7, 2, 7, 9] = some l ∧
      ClockBuffer.manager.run (ClockBuffer.new 3) [7, 2, 7, 9] = some c ∧
      l.resident = c.resident ∧ c.metrics.evictions = 0 := by
  obtain ⟨l, -, c, -, hl, -, hc, -, hlFills, -, hcFills, -⟩ :=
    frames_filled (by decide : 1 ≤ 3) [7, 2, 7, 9]
  have hfit : ([7, 2, 7, 9] : List Int).toFinset.card ≤ 3 := by decide
  exact ⟨l, c, hl, hc, (hlFills.resident_eq hfit).trans
    (hcFills.resident_eq hfit).symm,
    congrArg Metrics.evictions (hcFills.counters_eq hfit)⟩

end BufferSim

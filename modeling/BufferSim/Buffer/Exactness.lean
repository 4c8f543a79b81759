import BufferSim.Buffer.PinnedBuffer
import BufferSim.Buffer.ClockBuffer

/-!
# Exact contents of the LRU, PINNED and CLOCK managers

For each manager the state after an arbitrary sequence of requests is a closed
function of the sequence, or of the abstract queue that the sequence drives.
The closed forms live in the policies; here they are read through the
simulation relations.
-/

namespace BufferSim

open Paging Cxx

/-! ## LRU -/

/-- After any requests `useOrder_` holds the first `C` distinct pages by most
recent request.  The next request is counted as a hit exactly when its page was
requested before and fewer than `C` distinct others were requested since. -/
theorem LRUBuffer.useOrder_exact {C : ℕ} (hC : 1 ≤ C) (requests : List Int) :
    ∃ b, LRUBuffer.manager.run (LRUBuffer.new C) requests = some b ∧
      b.useOrder.toList = (recency requests).take C ∧
      ∀ p, ∃ b', LRUBuffer.accessPage b p = some b' ∧
        (b'.metrics.bufferHits = b.metrics.bufferHits + 1 ↔
          p ∈ requests ∧ (sinceLast p requests).toFinset.card < C) ∧
        (b'.metrics.bufferMisses = b.metrics.bufferMisses + 1 ↔
          ¬(p ∈ requests ∧ (sinceLast p requests).toFinset.card < C)) := by
  obtain ⟨b, hrun, hrep, -, -⟩ := LRUBuffer.run_new hC requests
  refine ⟨b, hrun, ?_, ?_⟩
  · rw [hrep.toList_eq, lru_run_elems]
  · intro p
    obtain ⟨b', haccess, -, hmetrics⟩ := (LRUBuffer.refines hC).step b _ p hrep
    have hmetrics' : b'.metrics = b.metrics.record _ := hmetrics
    have hhit := ((lruRule Int).policy C).hit_iff
      (((lruRule Int).policy C).run requests) p
    rw [mem_lru_resident_iff] at hhit
    refine ⟨b', haccess, ?_, ?_⟩
    · rw [hmetrics', Metrics.record_bufferHits_iff, hhit]
    · rw [hmetrics', Metrics.record_bufferMisses_iff, hhit]

theorem LRUBuffer.useOrder_exact_two :
    ∃ b, LRUBuffer.manager.run (LRUBuffer.new 2) [1, 2, 1, 3] = some b ∧
      b.useOrder.toList = [3, 1] := by
  obtain ⟨b, hrun, hlist, -⟩ :=
    LRUBuffer.useOrder_exact (by decide : 1 ≤ 2) [1, 2, 1, 3]
  exact ⟨b, hrun, hlist.trans (by decide)⟩

/-! ## PINNED -/

namespace PinnedBuffer

/-- The pages that `shouldPin` selects. -/
def multipleOfSeven (p : Int) : Bool :=
  decide (7 ∣ p)

theorem shouldPin_eq : shouldPin = multipleOfSeven := by
  funext p
  rw [Bool.eq_iff_iff, shouldPin_iff, multipleOfSeven, decide_eq_true_eq]

theorem Represents.pinnedPages_eq {C : ℕ} {b : PinnedBuffer}
    {requests : List Int}
    (h : Represents C b (((pinnedRule shouldPin).policy C).run requests)) :
    b.pinnedPages = (pinnedElems multipleOfSeven C requests).toFinset := by
  have form := pinnedForm_run shouldPin C requests
  ext p
  rw [h.mem_pinned_iff, List.mem_toFinset, ← shouldPin_eq]
  constructor
  · rintro ⟨hp, hpin⟩
    exact (form.mem_pinned p hpin).mp hp
  · intro hp
    have hpin := pin_of_mem_pinnedElems hp
    exact ⟨(form.mem_pinned p hpin).mpr hp, hpin⟩

theorem Represents.resident_eq {C : ℕ} {b : PinnedBuffer}
    {requests : List Int}
    (h : Represents C b (((pinnedRule shouldPin).policy C).run requests)) :
    b.resident =
      (pinnedElems multipleOfSeven C requests).toFinset ∪
        (unpinnedElems multipleOfSeven C requests).toFinset := by
  rw [h.list.resident_eq, ← shouldPin_eq, ← pinned_resident_eq]
  rfl

/-- Without pages to pin, the list and the counters are those of LRU. -/
theorem run_eq_lru {C : ℕ} (hC : 1 ≤ C) {requests : List Int}
    (hnone : ∀ p ∈ requests, ¬(7 : Int) ∣ p) :
    ∃ b l, manager.run (new C) requests = some b ∧
      LRUBuffer.manager.run (LRUBuffer.new C) requests = some l ∧
      b.useOrder.toList = l.useOrder.toList ∧
      b.metrics = { l.metrics with strategyName := "PINNED" } := by
  induction requests using List.reverseRecOn with
  | nil => exact ⟨new C, LRUBuffer.new C, rfl, rfl, rfl, rfl⟩
  | append_singleton requests p ih =>
      have hold : ∀ q ∈ requests, ¬(7 : Int) ∣ q := fun q hq =>
        hnone q (List.mem_append_left _ hq)
      have hunpinned : ∀ q ∈ requests, shouldPin q = false := by
        intro q hq
        rw [Bool.eq_false_iff, ne_eq, shouldPin_iff]
        exact hold q hq
      obtain ⟨b, l, hb, hl, -, hmetrics⟩ := ih hold
      obtain ⟨b₀, hb₀, hrepb, -, -⟩ := run_new C requests
      obtain ⟨l₀, hl₀, hrepl, -, -⟩ := LRUBuffer.run_new hC requests
      obtain rfl : b₀ = b := Option.some.inj (hb₀.symm.trans hb)
      obtain rfl : l₀ = l := Option.some.inj (hl₀.symm.trans hl)
      rw [pinned_run_eq_lru hunpinned] at hrepb
      obtain ⟨b', haccessb, hrepb', hmb⟩ := (refines C).step b₀ _ p hrepb
      obtain ⟨l', haccessl, hrepl', hml⟩ :=
        (LRUBuffer.refines hC).step l₀ _ p hrepl
      -- both policies make the same step from the same frames
      have hout : (pinnedRule shouldPin).outcome C
          (((lruRule Int).policy C).run requests).elems p =
          (lruRule Int).outcome C
            (((lruRule Int).policy C).run requests).elems p := by
        apply pinned_outcome_eq_lru
        intro q hq
        exact hunpinned q ((lruRule Int).mem_of_mem_elems hq)
      refine ⟨b', l', ?_, ?_, ?_, ?_⟩
      · rw [BufferManager.run_snoc, hb₀]
        exact haccessb
      · rw [BufferManager.run_snoc, hl₀]
        exact haccessl
      · rw [hrepb'.list.toList_eq, hrepl'.toList_eq,
          EvictionRule.policy_next_elems, EvictionRule.policy_next_elems, hout]
      · have hmb' : b'.metrics = b₀.metrics.record ((pinnedRule shouldPin).outcome C
            (((lruRule Int).policy C).run requests).elems p) := hmb
        have hml' : l'.metrics = l₀.metrics.record ((lruRule Int).outcome C
            (((lruRule Int).policy C).run requests).elems p) := hml
        rw [hmb', hml', hout, hmetrics]
        cases (lruRule Int).outcome C
          (((lruRule Int).policy C).run requests).elems p <;> rfl

/-- The resident set and the pinned pages after any requests, and what later
requests can still change. -/
theorem resident_exact {C : ℕ} (hC : 1 ≤ C) (requests : List Int) :
    ∃ b, manager.run (new C) requests = some b ∧
      b.resident =
        ((firstSeen (requests.filter multipleOfSeven)).take C).toFinset ∪
          ((recency (requests.filter (fun p => !multipleOfSeven p))).take
            (C - ((firstSeen (requests.filter multipleOfSeven)).take
              C).length)).toFinset ∧
      b.pinnedPages =
        ((firstSeen (requests.filter multipleOfSeven)).take C).toFinset ∧
      ((firstSeen (requests.filter multipleOfSeven)).take C).length =
        min C (requests.filter multipleOfSeven).toFinset.card ∧
      (∀ later, ∃ b', manager.run b later = some b' ∧
        b.pinnedPages ⊆ b'.pinnedPages ∧ b'.pinnedPages ⊆ b'.resident ∧
        (C ≤ (requests.filter multipleOfSeven).toFinset.card →
          b'.resident = b.resident)) ∧
      ((∀ p ∈ requests, ¬(7 : Int) ∣ p) →
        ∃ l, LRUBuffer.manager.run (LRUBuffer.new C) requests = some l ∧
          b.useOrder.toList = l.useOrder.toList ∧
          b.metrics = { l.metrics with strategyName := "PINNED" }) := by
  obtain ⟨b, hrun, hrep, -, -⟩ := run_new C requests
  refine ⟨b, hrun, hrep.resident_eq, hrep.pinnedPages_eq,
    length_pinnedElems requests, ?_, ?_⟩
  · intro later
    obtain ⟨b', hrun', hrep', -, -⟩ := run_new C (requests ++ later)
    rw [BufferManager.run_append, hrun] at hrun'
    refine ⟨b', hrun', ?_, ?_, ?_⟩
    · rw [hrep.pinnedPages_eq, hrep'.pinnedPages_eq]
      intro p hp
      rw [List.mem_toFinset] at hp ⊢
      exact pinnedElems_subset_append requests later hp
    · rw [hrep'.pinnedPages_eq, hrep'.resident_eq]
      exact Finset.subset_union_left
    · intro hfull
      have hsame := pinned_resident_append_of_full hfull later
      rw [pinned_resident_eq, pinned_resident_eq] at hsame
      rw [hrep.resident_eq, hrep'.resident_eq]
      exact hsame
  · intro hnone
    obtain ⟨b₀, l, hb₀, hl, hlist, hmetrics⟩ := run_eq_lru hC hnone
    obtain rfl : b₀ = b := Option.some.inj (hb₀.symm.trans hrun)
    exact ⟨l, hl, hlist, hmetrics⟩

theorem resident_exact_three :
    ∃ b, manager.run (new 3) [7, 1, 14, 2, 21] = some b ∧
      b.resident = {7, 14, 21} ∧ b.pinnedPages = {7, 14, 21} := by
  obtain ⟨b, hrun, hresident, hpinned, -⟩ :=
    resident_exact (by decide : 1 ≤ 3) [7, 1, 14, 2, 21]
  exact ⟨b, hrun, hresident.trans (by decide), hpinned.trans (by decide)⟩

end PinnedBuffer

/-! ## CLOCK -/

/-- After any requests the frames hold the queue of the second-chance policy.
On the next request both decide alike: they hit together, they give up the same
page, and they hold the same pages with the same bits afterwards. -/
theorem ClockBuffer.queue_exact {C : ℕ} (hC : 1 ≤ C) (requests : List Int) :
    ∃ b, ClockBuffer.manager.run (ClockBuffer.new C) requests = some b ∧
      b.queue = ((secondChance Int C).run requests).entries ∧
      ∀ p, ∃ b', ClockBuffer.accessPage b p = some b' ∧
        b'.queue =
          ((secondChance Int C).next
            ((secondChance Int C).run requests) p).entries ∧
        b'.resident = (b'.queue.map Prod.fst).toFinset ∧
        (b'.metrics.bufferHits = b.metrics.bufferHits + 1 ↔
          (secondChance Int C).outcome
            ((secondChance Int C).run requests) p = .hit) ∧
        (b'.metrics.bufferMisses = b.metrics.bufferMisses + 1 ↔
          (secondChance Int C).outcome
            ((secondChance Int C).run requests) p ≠ .hit) ∧
        (∀ v, (secondChance Int C).outcome
            ((secondChance Int C).run requests) p = .replace v ↔
          v ∈ b.resident ∧ v ∉ b'.resident) := by
  obtain ⟨b, hrun, hrep, -, -⟩ := ClockBuffer.run_new hC requests
  refine ⟨b, hrun, hrep.queue_eq, ?_⟩
  intro p
  set s := (secondChance Int C).run requests
  obtain ⟨b', haccess, hrep', hmetrics⟩ :=
    (ClockBuffer.refines hC).step b s p hrep
  have hmetrics' : b'.metrics =
      b.metrics.record ((secondChance Int C).outcome s p) := hmetrics
  have hisHit : ((secondChance Int C).outcome s p).isHit = true ↔
      (secondChance Int C).outcome s p = .hit := by
    cases (secondChance Int C).outcome s p <;> simp [Outcome.isHit]
  refine ⟨b', haccess, hrep'.queue_eq, ?_, ?_, ?_, ?_⟩
  · rw [hrep'.resident_eq, hrep'.queue_eq]
    rfl
  · rw [hmetrics', Metrics.record_bufferHits_iff, hisHit]
  · rw [hmetrics', Metrics.record_bufferMisses_iff, hisHit]
  · intro v
    rw [hrep.resident_eq, hrep'.resident_eq]
    exact (secondChance Int C).outcome_eq_replace_iff s p v

/-- Page 2 has been requested again and gets a second chance: the request of page
5 clears its bit and replaces page 3. -/
theorem ClockBuffer.queue_exact_three :
    ∃ b b', ClockBuffer.manager.run (ClockBuffer.new 3) [1, 2, 3, 4, 2] =
        some b ∧
      ClockBuffer.accessPage b 5 = some b' ∧
      ((secondChance Int 3).run [1, 2, 3, 4, 2]).entries =
        [(2, true), (3, false), (4, true)] ∧
      (secondChance Int 3).outcome
        ((secondChance Int 3).run [1, 2, 3, 4, 2]) 5 = .replace 3 ∧
      ((secondChance Int 3).next
        ((secondChance Int 3).run [1, 2, 3, 4, 2]) 5).entries =
          [(4, true), (2, false), (5, true)] := by
  obtain ⟨b, hrun, hqueue, hnext⟩ :=
    ClockBuffer.queue_exact (by decide : 1 ≤ 3) [1, 2, 3, 4, 2]
  obtain ⟨b', haccess, hqueue', -, -, -, hreplace⟩ := hnext 5
  have hbefore : (ClockBuffer.manager.run (ClockBuffer.new 3)
      [1, 2, 3, 4, 2]).map (fun b => (b.queue, b.resident)) =
        some ([(2, true), (3, false), (4, true)], {2, 3, 4}) := by decide
  have hafter : ((ClockBuffer.manager.run (ClockBuffer.new 3)
      [1, 2, 3, 4, 2]).bind (fun b => ClockBuffer.accessPage b 5)).map
        (fun b => (b.queue, b.resident)) =
          some ([(4, true), (2, false), (5, true)], {2, 4, 5}) := by decide
  rw [hrun, Option.bind_some, haccess, Option.map_some, Option.some_inj,
    Prod.mk.injEq] at hafter
  rw [hrun, Option.map_some, Option.some_inj, Prod.mk.injEq] at hbefore
  refine ⟨b, b', hrun, haccess, hqueue.symm.trans hbefore.1,
    (hreplace 3).mpr ?_, hqueue'.symm.trans hafter.1⟩
  rw [hbefore.2, hafter.2]
  decide

end BufferSim

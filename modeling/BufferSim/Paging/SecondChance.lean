import BufferSim.Paging.Competitive

/-!
# Second chance

The second-chance policy keeps the resident elements in a FIFO queue with one
bit each.  A hit sets the bit.  To make room, `sweep` pops the head and appends
it again with its bit cleared while the bit was set; the first head with a
clear bit is given up.

The policy is conservative.  The invariant `Protected` follows one element
through at most two visits of the head of the queue after its load: at the
second visit every other element of the queue was requested since.
-/

namespace Paging

variable {α : Type*}

/-- Pop heads with a set bit to the back, clearing the bit, and return the
first head with a clear bit together with the rest of the queue. -/
def sweep : List (α × Bool) → Option (α × List (α × Bool))
  | [] => none
  | (v, false) :: queue => some (v, queue)
  | (p, true) :: queue => sweep (queue ++ [(p, false)])
termination_by queue => queue.countP Prod.snd
decreasing_by simp

@[simp] theorem sweep_nil : sweep ([] : List (α × Bool)) = none := by
  rw [sweep]

@[simp] theorem sweep_cons_false (v : α) (queue : List (α × Bool)) :
    sweep ((v, false) :: queue) = some (v, queue) := by
  rw [sweep]

theorem sweep_cons_true (p : α) (queue : List (α × Bool)) :
    sweep ((p, true) :: queue) = sweep (queue ++ [(p, false)]) := by
  rw [sweep]

/-- A sweep only rotates the elements of the queue. -/
theorem sweep_perm (queue : List (α × Bool)) :
    ∀ v rest, sweep queue = some (v, rest) →
      (queue.map Prod.fst).Perm (v :: rest.map Prod.fst) := by
  induction queue using sweep.induct with
  | case1 => intro v rest h; simp at h
  | case2 w queue =>
      intro v rest h
      simp only [sweep_cons_false, Option.some.injEq, Prod.mk.injEq] at h
      rw [← h.1, ← h.2]
      exact List.Perm.refl _
  | case3 p queue ih =>
      intro v rest h
      rw [sweep_cons_true] at h
      refine List.Perm.trans ?_ (ih v rest h)
      rw [List.map_append]
      exact (List.perm_append_singleton p (queue.map Prod.fst)).symm

theorem sweep_eq_none_iff (queue : List (α × Bool)) :
    sweep queue = none ↔ queue = [] := by
  induction queue using sweep.induct with
  | case1 => simp
  | case2 v queue => simp
  | case3 p queue ih => simp [sweep_cons_true, ih]

theorem sweep_length {queue : List (α × Bool)} {v : α} {rest : List (α × Bool)}
    (h : sweep queue = some (v, rest)) : queue.length = rest.length + 1 := by
  have hlen := (sweep_perm queue v rest h).length_eq
  simpa using hlen

/-- A second-chance queue without repetition that fits into `C` frames. -/
structure ChanceQueue (α : Type*) (C : ℕ) where
  entries : List (α × Bool)
  nodup : (entries.map Prod.fst).Nodup
  length_le : entries.length ≤ C

namespace ChanceQueue

variable [DecidableEq α] {C : ℕ}

/-- Set the bit of `p`. -/
def setBit (p : α) (queue : List (α × Bool)) : List (α × Bool) :=
  queue.map (fun e => if e.1 = p then (e.1, true) else e)

theorem map_fst_setBit (p : α) (queue : List (α × Bool)) :
    (setBit p queue).map Prod.fst = queue.map Prod.fst := by
  rw [setBit, List.map_map]
  apply List.map_congr_left
  intro e _
  simp only [Function.comp_apply]
  split <;> rfl

/-- The outcome of a request for `p`, and the queue after it. -/
def serve (C : ℕ) (queue : List (α × Bool)) (p : α) :
    Outcome α × List (α × Bool) :=
  if p ∈ queue.map Prod.fst then (.hit, setBit p queue)
  else if queue.length < C then (.load, queue ++ [(p, true)])
  else
    match sweep queue with
    | some (victim, rest) => (.replace victim, rest ++ [(p, true)])
    | none => (.reject, queue)

/-- The four cases of a request, with the condition under which each occurs. -/
theorem serve_cases (C : ℕ) (queue : List (α × Bool)) (p : α) :
    (p ∈ queue.map Prod.fst ∧ serve C queue p = (.hit, setBit p queue)) ∨
    (p ∉ queue.map Prod.fst ∧ queue.length < C ∧
      serve C queue p = (.load, queue ++ [(p, true)])) ∨
    (∃ v rest, p ∉ queue.map Prod.fst ∧ C ≤ queue.length ∧
      sweep queue = some (v, rest) ∧
      serve C queue p = (.replace v, rest ++ [(p, true)])) ∨
    (p ∉ queue.map Prod.fst ∧ C = 0 ∧ queue = [] ∧
      serve C queue p = (.reject, queue)) := by
  by_cases hp : p ∈ queue.map Prod.fst
  · left
    exact ⟨hp, if_pos hp⟩
  · by_cases hroom : queue.length < C
    · right; left
      exact ⟨hp, hroom, by rw [serve, if_neg hp, if_pos hroom]⟩
    · right; right
      rw [serve, if_neg hp, if_neg hroom]
      cases hs : sweep queue with
      | some result =>
          left
          exact ⟨result.1, result.2, hp, Nat.not_lt.mp hroom, rfl, rfl⟩
      | none =>
          right
          have hnil := (sweep_eq_none_iff queue).mp hs
          subst hnil
          exact ⟨hp, by simpa using hroom, rfl, rfl⟩

/-- With at least one frame nothing is rejected. -/
theorem serve_cases_of_pos (hC : 1 ≤ C) (queue : List (α × Bool)) (p : α) :
    (p ∈ queue.map Prod.fst ∧ serve C queue p = (.hit, setBit p queue)) ∨
    (p ∉ queue.map Prod.fst ∧ queue.length < C ∧
      serve C queue p = (.load, queue ++ [(p, true)])) ∨
    (∃ v rest, p ∉ queue.map Prod.fst ∧ C ≤ queue.length ∧
      sweep queue = some (v, rest) ∧
      serve C queue p = (.replace v, rest ++ [(p, true)])) := by
  rcases serve_cases C queue p with hhit | hload | hreplace | ⟨-, hzero, -, -⟩
  · exact Or.inl hhit
  · exact Or.inr (Or.inl hload)
  · exact Or.inr (Or.inr hreplace)
  · exact absurd hzero (Nat.ne_of_gt hC)

theorem serve_nodup {queue : List (α × Bool)}
    (hq : (queue.map Prod.fst).Nodup) (p : α) :
    ((serve C queue p).2.map Prod.fst).Nodup := by
  have happend : ∀ rest : List (α × Bool), (rest.map Prod.fst).Nodup →
      p ∉ rest.map Prod.fst →
      ((rest ++ [(p, true)]).map Prod.fst).Nodup := by
    intro rest hrest hp
    rw [List.map_append, List.nodup_append]
    refine ⟨hrest, List.nodup_singleton p, ?_⟩
    intro a ha b hb hab
    rw [List.map_singleton, List.mem_singleton] at hb
    rw [hab, hb] at ha
    exact hp ha
  rcases serve_cases C queue p with
    ⟨-, h⟩ | ⟨hp, -, h⟩ | ⟨v, rest, hp, -, hs, h⟩ | ⟨-, -, -, h⟩
  · rw [h, map_fst_setBit]
    exact hq
  · rw [h]
    exact happend queue hq hp
  · have hperm := sweep_perm queue v rest hs
    rw [h]
    refine happend rest (List.nodup_cons.mp (hperm.nodup_iff.mp hq)).2 ?_
    intro hmem
    exact hp (hperm.mem_iff.mpr (List.mem_cons_of_mem v hmem))
  · rw [h]
    exact hq

theorem serve_length {queue : List (α × Bool)} (hq : queue.length ≤ C)
    (p : α) : (serve C queue p).2.length ≤ C := by
  rcases serve_cases C queue p with
    ⟨-, h⟩ | ⟨-, hroom, h⟩ | ⟨v, rest, -, -, hs, h⟩ | ⟨-, -, -, h⟩
  · rw [h, setBit, List.length_map]
    exact hq
  · rw [h, List.length_append, List.length_singleton]
    exact hroom
  · have hlen := sweep_length hs
    rw [h, List.length_append, List.length_singleton]
    omega
  · rw [h]
    exact hq

/-- The queue after one request. -/
def next (s : ChanceQueue α C) (p : α) : ChanceQueue α C where
  entries := (serve C s.entries p).2
  nodup := serve_nodup s.nodup p
  length_le := serve_length s.length_le p

end ChanceQueue

open ChanceQueue

variable [DecidableEq α] {C : ℕ}

/-- The second-chance policy with `C` frames. -/
def secondChance (α : Type*) [DecidableEq α] (C : ℕ) :
    Policy α (ChanceQueue α C) where
  start := ⟨[], List.nodup_nil, Nat.zero_le C⟩
  resident s := (s.entries.map Prod.fst).toFinset
  outcome s p := (serve C s.entries p).1
  next := ChanceQueue.next
  resident_start := rfl
  hit_iff s p := by
    rw [List.mem_toFinset]
    rcases serve_cases C s.entries p with
      ⟨hp, h⟩ | ⟨hp, -, h⟩ | ⟨v, rest, hp, -, -, h⟩ | ⟨hp, -, -, h⟩ <;>
      simp only [h, Outcome.isHit, hp, Bool.false_eq_true]
  resident_next s p := by
    rcases serve_cases C s.entries p with
      ⟨-, h⟩ | ⟨-, -, h⟩ | ⟨v, rest, -, -, hs, h⟩ | ⟨-, -, -, h⟩
    · simp only [ChanceQueue.next, h, map_fst_setBit, Outcome.apply]
    · ext q
      simp only [ChanceQueue.next, h, Outcome.apply, List.map_append,
        List.map_singleton, List.mem_toFinset, List.mem_append,
        List.mem_singleton, Finset.mem_insert, or_comm]
    · have hperm := sweep_perm s.entries v rest hs
      have hv : v ∉ rest.map Prod.fst :=
        (List.nodup_cons.mp (hperm.nodup_iff.mp s.nodup)).1
      ext q
      simp only [ChanceQueue.next, h, Outcome.apply, List.map_append,
        List.map_singleton, List.mem_toFinset, List.mem_append,
        List.mem_cons, List.not_mem_nil, or_false, Finset.mem_insert,
        Finset.mem_erase, hperm.mem_iff]
      constructor
      · rintro (hq | hq)
        · exact Or.inr ⟨fun hqv => hv (hqv ▸ hq), Or.inr hq⟩
        · exact Or.inl hq
      · rintro (hq | ⟨hqv, hq | hq⟩)
        · exact Or.inr hq
        · exact absurd hq hqv
        · exact Or.inl hq
    · simp only [ChanceQueue.next, h, Outcome.apply]
  victim_mem s p v hout := by
    rcases serve_cases C s.entries p with
      ⟨-, h⟩ | ⟨-, -, h⟩ | ⟨w, rest, -, -, hs, h⟩ | ⟨-, -, -, h⟩
    · simp [h] at hout
    · simp [h] at hout
    · have hwv : w = v := by simpa [h] using hout
      have hperm := sweep_perm s.entries w rest hs
      rw [List.mem_toFinset, hperm.mem_iff, hwv]
      exact List.mem_cons_self
    · simp [h] at hout

theorem secondChance_resident (s : ChanceQueue α C) :
    (secondChance α C).resident s = (s.entries.map Prod.fst).toFinset := rfl

theorem secondChance_next_entries (s : ChanceQueue α C) (p : α) :
    ((secondChance α C).next s p).entries = (serve C s.entries p).2 := rfl

theorem secondChance_outcome_ne_reject (hC : 1 ≤ C) (s : ChanceQueue α C)
    (p : α) : (secondChance α C).outcome s p ≠ .reject := by
  show (serve C s.entries p).1 ≠ .reject
  rcases serve_cases_of_pos hC s.entries p with
    ⟨-, h⟩ | ⟨-, -, h⟩ | ⟨v, rest, -, -, -, h⟩
  · simp [h]
  · simp [h]
  · simp [h]

/-- A request that is served leaves its element in the queue with a set bit. -/
theorem mem_secondChance_next (hC : 1 ≤ C) (s : ChanceQueue α C) (p : α) :
    (p, true) ∈ ((secondChance α C).next s p).entries := by
  simp only [secondChance_next_entries]
  rcases serve_cases_of_pos hC s.entries p with
    ⟨hp, h⟩ | ⟨-, -, h⟩ | ⟨v, rest, -, -, -, h⟩
  · obtain ⟨e, he, rfl⟩ := List.mem_map.mp hp
    simp only [h, setBit]
    exact List.mem_map.mpr ⟨e, he, if_pos rfl⟩
  · simp [h]
  · simp [h]

/-! ## The two visits of the head -/

/-- The queue holds `p`, and either its bit is still set from its load and all
entries behind it are requested since or have a clear bit, or it lost its bit
once and all entries behind it are requested since. -/
def Protected (requested : List α) (p : α) (queue : List (α × Bool)) : Prop :=
  ∃ front back bit, queue = front ++ (p, bit) :: back ∧
    ((bit = true ∧ ∀ e ∈ back, e.1 ∈ requested ∨ e.2 = false) ∨
      ((∀ e ∈ front, e.1 ∈ requested ∨ e.2 = false) ∧
        ∀ e ∈ back, e.1 ∈ requested))

variable {requested : List α} {p : α}

omit [DecidableEq α] in
theorem Protected.mem {queue : List (α × Bool)}
    (h : Protected requested p queue) : p ∈ queue.map Prod.fst := by
  obtain ⟨front, back, bit, rfl, -⟩ := h
  simp

omit [DecidableEq α] in
/-- A head with a set bit goes to the back. -/
theorem Protected.rotate {q : α} {queue : List (α × Bool)}
    (h : Protected requested p ((q, true) :: queue)) :
    Protected requested p (queue ++ [(q, false)]) := by
  obtain ⟨front, back, bit, hsplit, hcases⟩ := h
  cases front with
  | nil =>
      -- the first visit of the head, or a later one after a hit
      rw [List.nil_append, List.cons.injEq, Prod.mk.injEq] at hsplit
      obtain ⟨⟨rfl, -⟩, rfl⟩ := hsplit
      refine ⟨queue, [], false, rfl, Or.inr ⟨?_, by simp⟩⟩
      rcases hcases with ⟨-, hback⟩ | ⟨-, hback⟩
      · exact hback
      · exact fun e he => Or.inl (hback e he)
  | cons e front =>
      rw [List.cons_append, List.cons.injEq] at hsplit
      obtain ⟨rfl, rfl⟩ := hsplit
      refine ⟨front, back ++ [(q, false)], bit, by simp, ?_⟩
      rcases hcases with ⟨hbit, hback⟩ | ⟨hfront, hback⟩
      · left
        refine ⟨hbit, ?_⟩
        intro e he
        rcases List.mem_append.mp he with he | he
        · exact hback e he
        · rw [List.mem_singleton.mp he]
          exact Or.inr rfl
      · right
        have hq : q ∈ requested := by
          rcases hfront (q, true) List.mem_cons_self with hq | hq
          · exact hq
          · exact absurd hq (by simp)
        refine ⟨fun e he => hfront e (List.mem_cons_of_mem _ he), ?_⟩
        intro e he
        rcases List.mem_append.mp he with he | he
        · exact hback e he
        · rw [List.mem_singleton.mp he]
          exact hq

omit [DecidableEq α] in
/-- A sweep gives up `p` only when all other entries are requested since. -/
theorem Protected.sweep {queue : List (α × Bool)}
    (h : Protected requested p queue) {v : α} {rest : List (α × Bool)}
    (hs : sweep queue = some (v, rest)) :
    Protected requested p rest ∨ (v = p ∧ ∀ e ∈ rest, e.1 ∈ requested) := by
  induction queue using sweep.induct with
  | case1 => simp at hs
  | case2 w queue =>
      rw [sweep_cons_false, Option.some.injEq, Prod.mk.injEq] at hs
      obtain ⟨rfl, rfl⟩ := hs
      obtain ⟨front, back, bit, hsplit, hcases⟩ := h
      cases front with
      | nil =>
          rw [List.nil_append, List.cons.injEq, Prod.mk.injEq] at hsplit
          obtain ⟨⟨rfl, rfl⟩, rfl⟩ := hsplit
          right
          rcases hcases with ⟨hbit, -⟩ | ⟨-, hback⟩
          · exact absurd hbit (by simp)
          · exact ⟨rfl, hback⟩
      | cons e front =>
          rw [List.cons_append, List.cons.injEq] at hsplit
          obtain ⟨rfl, rfl⟩ := hsplit
          left
          refine ⟨front, back, bit, rfl, hcases.imp_right ?_⟩
          exact fun hc =>
            ⟨fun e he => hc.1 e (List.mem_cons_of_mem _ he), hc.2⟩
  | case3 q queue ih =>
      rw [sweep_cons_true] at hs
      exact ih h.rotate hs

omit [DecidableEq α] in
theorem Protected.mono {queue : List (α × Bool)} {more : List α}
    (h : Protected requested p queue) (hsub : requested ⊆ more) :
    Protected more p queue := by
  obtain ⟨front, back, bit, hsplit, hcases⟩ := h
  refine ⟨front, back, bit, hsplit, ?_⟩
  rcases hcases with ⟨hbit, hback⟩ | ⟨hfront, hback⟩
  · exact Or.inl ⟨hbit, fun e he => (hback e he).imp_left (@hsub _)⟩
  · exact Or.inr ⟨fun e he => (hfront e he).imp_left (@hsub _),
      fun e he => hsub (hback e he)⟩

omit [DecidableEq α] in
theorem Protected.append {queue : List (α × Bool)} {q : α} {bit : Bool}
    (h : Protected requested p queue) (hq : q ∈ requested) :
    Protected requested p (queue ++ [(q, bit)]) := by
  obtain ⟨front, back, b, rfl, hcases⟩ := h
  refine ⟨front, back ++ [(q, bit)], b, by simp, ?_⟩
  have hlast : ∀ e ∈ [(q, bit)], e.1 ∈ requested := by
    intro e he
    rw [List.mem_singleton.mp he]
    exact hq
  rcases hcases with ⟨hbit, hback⟩ | ⟨hfront, hback⟩
  · refine Or.inl ⟨hbit, fun e he => ?_⟩
    exact (List.mem_append.mp he).elim (hback e) (fun h => Or.inl (hlast e h))
  · refine Or.inr ⟨hfront, fun e he => ?_⟩
    exact (List.mem_append.mp he).elim (hback e) (hlast e)

theorem Protected.setBit {queue : List (α × Bool)} {q : α}
    (h : Protected requested p queue) (hq : q ∈ requested) :
    Protected requested p (setBit q queue) := by
  have hentry : ∀ e : α × Bool, e.1 ∈ requested ∨ e.2 = false →
      (if e.1 = q then (e.1, true) else e).1 ∈ requested ∨
        (if e.1 = q then (e.1, true) else e).2 = false := by
    intro e he
    by_cases heq : e.1 = q
    · rw [if_pos heq]
      exact Or.inl (heq ▸ hq)
    · rw [if_neg heq]
      exact he
  have hmem : ∀ e : α × Bool, e.1 ∈ requested →
      (if e.1 = q then (e.1, true) else e).1 ∈ requested := by
    intro e he
    split <;> exact he
  obtain ⟨front, back, bit, rfl, hcases⟩ := h
  refine ⟨ChanceQueue.setBit q front, ChanceQueue.setBit q back,
    if p = q then true else bit, ?_, ?_⟩
  · simp only [ChanceQueue.setBit, List.map_append, List.map_cons]
    split <;> rfl
  · simp only [ChanceQueue.setBit, List.forall_mem_map]
    rcases hcases with ⟨hbit, hback⟩ | ⟨hfront, hback⟩
    · refine Or.inl ⟨?_, fun e he => hentry e (hback e he)⟩
      rw [hbit, ite_self]
    · exact Or.inr ⟨fun e he => hentry e (hfront e he),
        fun e he => hmem e (hback e he)⟩

/-- One further request keeps `p` protected, as long as at most `C` distinct
elements were requested since its load. -/
theorem Protected.next {s : ChanceQueue α C} (hp : p ∈ requested)
    (h : Protected requested p s.entries) (q : α)
    (hcard : (requested ++ [q]).toFinset.card ≤ C) :
    Protected (requested ++ [q]) p
      ((secondChance α C).next s q).entries := by
  have hq : q ∈ requested ++ [q] := by simp
  have hmono := h.mono (List.subset_append_left requested [q])
  rw [secondChance_next_entries]
  rcases serve_cases C s.entries q with
    ⟨-, hserve⟩ | ⟨-, -, hserve⟩ | ⟨v, rest, hmiss, hfull, hs, hserve⟩ |
      ⟨-, hC, hnil, -⟩
  · rw [hserve]
    exact hmono.setBit hq
  · rw [hserve]
    exact hmono.append hq
  · rw [hserve]
    rcases h.sweep hs with hrest | ⟨rfl, hrest⟩
    · exact (hrest.mono (List.subset_append_left requested [q])).append hq
    · -- `p`, the request and the rest of the queue are `C + 1` elements
      exfalso
      have hperm := sweep_perm s.entries v rest hs
      have hnodup : (q :: v :: rest.map Prod.fst).Nodup :=
        List.nodup_cons.mpr
          ⟨fun hmem => hmiss (hperm.mem_iff.mpr hmem),
            hperm.nodup_iff.mp s.nodup⟩
      have hsub : (q :: v :: rest.map Prod.fst).toFinset ⊆
          (requested ++ [q]).toFinset := by
        intro x hx
        simp only [List.mem_toFinset, List.mem_cons, List.mem_map] at hx
        rw [List.mem_toFinset, List.mem_append, List.mem_singleton]
        rcases hx with rfl | rfl | ⟨e, he, rfl⟩
        · exact Or.inr rfl
        · exact Or.inl hp
        · exact Or.inl (hrest e he)
      have hle := Finset.card_le_card hsub
      have hlen := sweep_length hs
      rw [List.toFinset_card_of_nodup hnodup, List.length_cons,
        List.length_cons, List.length_map] at hle
      omega
  · rw [hnil] at h
    exact absurd h.mem (by simp)

/-- A request that misses is protected right after its load. -/
theorem protected_of_miss {s : ChanceQueue α C} (hC : 1 ≤ C)
    (hmiss : p ∉ (secondChance α C).resident s) :
    Protected [p] p ((secondChance α C).next s p).entries := by
  rw [secondChance_resident, List.mem_toFinset] at hmiss
  rw [secondChance_next_entries]
  rcases serve_cases_of_pos hC s.entries p with
    ⟨hp, -⟩ | ⟨-, -, hserve⟩ | ⟨v, rest, -, -, -, hserve⟩
  · exact absurd hp hmiss
  · rw [hserve]
    exact ⟨s.entries, [], true, rfl, Or.inl ⟨rfl, by simp⟩⟩
  · rw [hserve]
    exact ⟨rest, [], true, rfl, Or.inl ⟨rfl, by simp⟩⟩

theorem protected_runFrom {s : ChanceQueue α C} (hC : 1 ≤ C)
    (hmiss : p ∉ (secondChance α C).resident s) (later : List α)
    (hcard : (p :: later).toFinset.card ≤ C) :
    Protected (p :: later) p
      ((secondChance α C).runFrom s (p :: later)).entries := by
  induction later using List.reverseRecOn with
  | nil => exact protected_of_miss hC hmiss
  | append_singleton later q ih =>
      have hsub : (p :: later).toFinset ⊆ (p :: (later ++ [q])).toFinset := by
        intro x hx
        simp only [List.mem_toFinset, List.mem_cons, List.mem_append] at hx ⊢
        exact hx.imp_right Or.inl
      have hprev := ih ((Finset.card_le_card hsub).trans hcard)
      rw [← List.cons_append, Policy.runFrom_append]
      exact hprev.next List.mem_cons_self q hcard

theorem exists_split_of_mem_missLog {σ : Type*} (P : Policy α σ) (s : σ)
    {requests : List α} (hp : p ∈ P.missLog s requests) :
    ∃ before after, requests = before ++ p :: after ∧
      p ∉ P.resident (P.runFrom s before) := by
  induction requests generalizing s with
  | nil => simp [Policy.missLog] at hp
  | cons q requests ih =>
      rw [Policy.missLog] at hp
      by_cases hq : q ∈ P.resident s
      · rw [if_pos hq] at hp
        obtain ⟨before, after, rfl, hmiss⟩ := ih (P.next s q) hp
        exact ⟨q :: before, after, rfl, hmiss⟩
      · rw [if_neg hq, List.mem_cons] at hp
        rcases hp with rfl | hp
        · exact ⟨[], requests, rfl, hq⟩
        · obtain ⟨before, after, rfl, hmiss⟩ := ih (P.next s q) hp
          exact ⟨q :: before, after, rfl, hmiss⟩

theorem secondChance_conservative (C : ℕ) :
    (secondChance α C).Conservative C := by
  apply Policy.conservative_of_missed_resident
  intro history segment p hcard hp
  obtain ⟨before, after, rfl, hmiss⟩ :=
    exists_split_of_mem_missLog (secondChance α C) _ hp
  have hsub : (p :: after).toFinset ⊆ (before ++ p :: after).toFinset := by
    intro x hx
    rw [List.mem_toFinset] at hx ⊢
    exact List.mem_append_right before hx
  have hcard' := (Finset.card_le_card hsub).trans hcard
  have hC : 1 ≤ C := by
    refine le_trans (Finset.card_pos.mpr ⟨p, ?_⟩) hcard'
    simp
  have hprotected := protected_runFrom hC hmiss after hcard'
  rw [Policy.run_append, Policy.runFrom_append, secondChance_resident,
    List.mem_toFinset]
  exact hprotected.mem

end Paging

import BufferSim.Paging.Policy

/-!
# Policies that keep their frames in recency order

Many policies keep the resident elements in one list, most recently used
first, and differ only in the element they give up when the frames are full.
An `EvictionRule` is that choice.  Every rule yields a `Policy` over
`FrameList`, the lists without repetition that fit into the frames.

The facts below hold for every rule: the frame list is a sublist of the recency
list of the history, a full list stays full, and a list with a free frame holds
everything that was ever requested.
-/

namespace Paging

variable {α : Type*}

/-- The resident elements of at most `C` frames, most recently used first. -/
structure FrameList (α : Type*) (C : ℕ) where
  elems : List α
  nodup : elems.Nodup
  length_le : elems.length ≤ C

namespace FrameList

@[ext] theorem ext {C : ℕ} {s t : FrameList α C} (h : s.elems = t.elems) :
    s = t := by
  cases s
  cases t
  simp_all

def empty (α : Type*) (C : ℕ) : FrameList α C where
  elems := []
  nodup := List.nodup_nil
  length_le := Nat.zero_le C

end FrameList

/-- The element that full frames give up, if they give up any. -/
structure EvictionRule (α : Type*) where
  victim : List α → Option α
  mem_of_victim : ∀ {l v}, victim l = some v → v ∈ l

variable [DecidableEq α]

/-- The frame list after a request for `p` with the given outcome. -/
def Outcome.reorder (p : α) (l : List α) : Outcome α → List α
  | hit => p :: l.erase p
  | load => p :: l
  | replace victim => p :: l.erase victim
  | reject => l

namespace EvictionRule

variable (rule : EvictionRule α) {C : ℕ}

/-- The outcome of a request for `p` when `l` is resident in `C` frames. -/
def outcome (C : ℕ) (l : List α) (p : α) : Outcome α :=
  if p ∈ l then .hit
  else if l.length < C then .load
  else
    match rule.victim l with
    | some victim => .replace victim
    | none => .reject

/-- The four cases of a request, with the condition under which each occurs. -/
theorem outcome_cases (C : ℕ) (l : List α) (p : α) :
    (p ∈ l ∧ rule.outcome C l p = .hit) ∨
    (p ∉ l ∧ l.length < C ∧ rule.outcome C l p = .load) ∨
    (∃ v, p ∉ l ∧ C ≤ l.length ∧ rule.victim l = some v ∧
      rule.outcome C l p = .replace v) ∨
    (p ∉ l ∧ C ≤ l.length ∧ rule.victim l = none ∧
      rule.outcome C l p = .reject) := by
  by_cases hp : p ∈ l
  · left
    simp [outcome, hp]
  · by_cases hroom : l.length < C
    · right; left
      simp [outcome, hp, hroom]
    · right; right
      cases hv : rule.victim l with
      | some v =>
          left
          exact ⟨v, hp, Nat.not_lt.mp hroom, rfl, by
            simp [outcome, hp, hroom, hv]⟩
      | none =>
          right
          exact ⟨hp, Nat.not_lt.mp hroom, rfl, by
            simp [outcome, hp, hroom, hv]⟩

theorem nodup_reorder {l : List α} (hl : l.Nodup) (p : α) :
    ((rule.outcome C l p).reorder p l).Nodup := by
  rcases rule.outcome_cases C l p with
    ⟨-, h⟩ | ⟨hp, -, h⟩ | ⟨v, hp, -, -, h⟩ | ⟨-, -, -, h⟩
  · rw [h]
    exact List.nodup_cons.mpr ⟨hl.not_mem_erase, hl.erase p⟩
  · rw [h]
    exact List.nodup_cons.mpr ⟨hp, hl⟩
  · rw [h]
    exact List.nodup_cons.mpr
      ⟨fun hmem => hp (List.mem_of_mem_erase hmem), hl.erase v⟩
  · rw [h]
    exact hl

theorem length_reorder_hit {l : List α} {p : α} (hp : p ∈ l) :
    (p :: l.erase p).length = l.length := by
  rw [List.length_cons, List.length_erase_of_mem hp]
  exact Nat.sub_add_cancel (List.length_pos_of_mem hp)

/-- A request keeps the number of pages, or fills a free frame. -/
theorem length_reorder (l : List α) (p : α) :
    ((rule.outcome C l p).reorder p l).length = l.length ∨
      (l.length < C ∧
        ((rule.outcome C l p).reorder p l).length = l.length + 1) := by
  rcases rule.outcome_cases C l p with
    ⟨hp, h⟩ | ⟨-, hroom, h⟩ | ⟨v, -, -, hv, h⟩ | ⟨-, -, -, h⟩
  · left
    rw [h, Outcome.reorder, length_reorder_hit hp]
  · exact Or.inr ⟨hroom, by rw [h]; rfl⟩
  · left
    rw [h, Outcome.reorder, List.length_cons,
      List.length_erase_of_mem (rule.mem_of_victim hv)]
    exact Nat.sub_add_cancel (List.length_pos_of_mem (rule.mem_of_victim hv))
  · left
    rw [h, Outcome.reorder]

theorem length_reorder_le {l : List α} (hl : l.length ≤ C) (p : α) :
    ((rule.outcome C l p).reorder p l).length ≤ C := by
  rcases rule.length_reorder l p with hsame | ⟨hroom, hgrow⟩
  · exact hsame.trans_le hl
  · exact hgrow.trans_le hroom

/-- No request ever empties a frame. -/
theorem length_le_length_reorder (l : List α) (p : α) :
    l.length ≤ ((rule.outcome C l p).reorder p l).length := by
  rcases rule.length_reorder l p with hsame | ⟨-, hgrow⟩
  · exact hsame.ge
  · exact hgrow ▸ Nat.le_succ l.length

/-- The frame list after one request. -/
def next (s : FrameList α C) (p : α) : FrameList α C where
  elems := (rule.outcome C s.elems p).reorder p s.elems
  nodup := rule.nodup_reorder s.nodup p
  length_le := rule.length_reorder_le s.length_le p

/-- The policy of an eviction rule with `C` frames. -/
def policy (C : ℕ) : Policy α (FrameList α C) where
  start := FrameList.empty α C
  resident s := s.elems.toFinset
  outcome s p := rule.outcome C s.elems p
  next := rule.next
  resident_start := rfl
  hit_iff s p := by
    rcases rule.outcome_cases C s.elems p with
      ⟨hp, h⟩ | ⟨hp, -, h⟩ | ⟨v, hp, -, -, h⟩ | ⟨hp, -, -, h⟩ <;>
      simp [h, hp, Outcome.isHit]
  resident_next s p := by
    rcases rule.outcome_cases C s.elems p with
      ⟨hp, h⟩ | ⟨-, -, h⟩ | ⟨v, -, -, -, h⟩ | ⟨-, -, -, h⟩
    · ext q
      by_cases hq : q = p
      · simp [next, h, Outcome.reorder, Outcome.apply, hq, hp]
      · simp [next, h, Outcome.reorder, Outcome.apply, hq]
    · simp [next, h, Outcome.reorder, Outcome.apply]
    · ext q
      simp [next, h, Outcome.reorder, Outcome.apply, s.nodup.mem_erase_iff]
    · simp [next, h, Outcome.reorder, Outcome.apply]
  victim_mem s p v hout := by
    rcases rule.outcome_cases C s.elems p with
      ⟨-, h⟩ | ⟨-, -, h⟩ | ⟨w, -, -, hw, h⟩ | ⟨-, -, -, h⟩
    · simp [h] at hout
    · simp [h] at hout
    · have hwv : w = v := by simpa [h] using hout
      exact List.mem_toFinset.mpr (rule.mem_of_victim (hwv ▸ hw))
    · simp [h] at hout

@[simp] theorem policy_start_elems : (rule.policy C).start.elems = [] := rfl

@[simp] theorem policy_resident (s : FrameList α C) :
    (rule.policy C).resident s = s.elems.toFinset := rfl

theorem policy_next_elems (s : FrameList α C) (p : α) :
    ((rule.policy C).next s p).elems =
      (rule.outcome C s.elems p).reorder p s.elems := rfl

/-- Only the victim of the rule leaves the frames. -/
theorem victim_of_leaves (s : FrameList α C) {p v : α} (hv : v ∈ s.elems)
    (hleaves : v ∉ ((rule.policy C).next s p).elems) :
    rule.victim s.elems = some v := by
  have hout : rule.outcome C s.elems p = .replace v :=
    ((rule.policy C).outcome_eq_replace_iff s p v).mpr
      ⟨List.mem_toFinset.mpr hv, mt List.mem_toFinset.mp hleaves⟩
  rcases rule.outcome_cases C s.elems p with
    ⟨-, h⟩ | ⟨-, -, h⟩ | ⟨w, -, -, hw, h⟩ | ⟨-, -, -, h⟩
  · simp [h] at hout
  · simp [h] at hout
  · have hwv : w = v := by simpa [h] using hout
    exact hwv ▸ hw
  · simp [h] at hout

/-! ## Facts that hold for every rule -/

/-- The frame list keeps the order of the recency list. -/
theorem elems_sublist_recency (history : List α) :
    ((rule.policy C).run history).elems.Sublist (recency history) := by
  refine (rule.policy C).run_induction
    (motive := fun history s => s.elems.Sublist (recency history)) ?_ ?_ history
  · exact List.nil_sublist _
  · intro history p ih
    set s := (rule.policy C).run history
    rw [policy_next_elems, recency_snoc]
    have herase : (s.elems.erase p).Sublist ((recency history).erase p) :=
      ih.erase p
    have hfresh : p ∉ s.elems → s.elems.Sublist ((recency history).erase p) := by
      intro hp
      rw [List.erase_of_not_mem hp] at herase
      exact herase
    rcases rule.outcome_cases C s.elems p with
      ⟨-, h⟩ | ⟨hp, -, h⟩ | ⟨v, hp, -, -, h⟩ | ⟨hp, -, -, h⟩
    · rw [h]
      exact herase.cons_cons p
    · rw [h]
      exact (hfresh hp).cons_cons p
    · rw [h]
      exact (List.erase_sublist.trans (hfresh hp)).cons_cons p
    · rw [h]
      exact (hfresh hp).cons p

/-- The resident elements are listed by strictly decreasing last request. -/
theorem pairwise_lastRequest_elems (history : List α) :
    ((rule.policy C).run history).elems.Pairwise
      (fun p q => lastRequest q history < lastRequest p history) :=
  (pairwise_lastRequest_recency history).sublist
    (rule.elems_sublist_recency history)

/-- Among some of the resident elements, the one listed last has the least
recent request. -/
theorem lastRequest_lt_of_getLast? (history : List α) {l : List α}
    (hl : l.Sublist ((rule.policy C).run history).elems) {v q : α}
    (hv : l.getLast? = some v) (hq : q ∈ l) (hne : q ≠ v) :
    lastRequest v history < lastRequest q history := by
  have hpairwise := (rule.pairwise_lastRequest_elems history).sublist hl
  obtain ⟨init, rfl⟩ := List.getLast?_eq_some_iff.mp hv
  have hinit : q ∈ init := by simpa [hne] using hq
  exact (List.pairwise_append.mp hpairwise).2.2 q hinit v
    (List.mem_singleton_self v)

theorem mem_of_mem_elems {history : List α} {p : α}
    (hp : p ∈ ((rule.policy C).run history).elems) : p ∈ history :=
  mem_recency.mp ((rule.elems_sublist_recency history).subset hp)

/-- While a frame is free, everything requested so far is resident. -/
theorem mem_elems_of_length_lt (history : List α)
    (hfree : ((rule.policy C).run history).elems.length < C) :
    ∀ p ∈ history, p ∈ ((rule.policy C).run history).elems := by
  revert hfree
  refine (rule.policy C).run_induction
    (motive := fun history s =>
      s.elems.length < C → ∀ p ∈ history, p ∈ s.elems) ?_ ?_ history
  · simp
  · intro history p ih hfree q hq
    set s := (rule.policy C).run history
    have hbefore : s.elems.length < C :=
      Nat.lt_of_le_of_lt (rule.length_le_length_reorder s.elems p) hfree
    have hold : q = p ∨ q ∈ s.elems := by
      rcases List.mem_append.mp hq with hq | hq
      · exact Or.inr (ih hbefore q hq)
      · exact Or.inl (List.mem_singleton.mp hq)
    rw [policy_next_elems]
    rcases rule.outcome_cases C s.elems p with
      ⟨-, h⟩ | ⟨-, -, h⟩ | ⟨v, -, hfull, -, h⟩ | ⟨-, hfull, -, h⟩
    · rw [h]
      by_cases hqp : q = p
      · simp [Outcome.reorder, hqp]
      · simp [Outcome.reorder, List.mem_erase_of_ne hqp,
          hold.resolve_left hqp]
    · rw [h]
      simpa [Outcome.reorder] using hold
    · exact absurd hbefore (Nat.not_lt.mpr hfull)
    · exact absurd hbefore (Nat.not_lt.mpr hfull)

/-- A rule that always finds a victim puts every request in front. -/
theorem head?_elems_of_never_reject
    (hvictim : ∀ l, C ≤ l.length → rule.victim l ≠ none) (history : List α) :
    ((rule.policy C).run history).elems.head? = history.getLast? := by
  refine (rule.policy C).run_induction
    (motive := fun history s => s.elems.head? = history.getLast?) rfl ?_ history
  intro history p _
  set s := (rule.policy C).run history
  rw [policy_next_elems, List.getLast?_concat]
  rcases rule.outcome_cases C s.elems p with
    ⟨-, h⟩ | ⟨-, -, h⟩ | ⟨v, -, -, -, h⟩ | ⟨-, hfull, hv, -⟩
  · rw [h]; rfl
  · rw [h]; rfl
  · rw [h]; rfl
  · exact absurd hv (hvictim _ hfull)

end EvictionRule
end Paging

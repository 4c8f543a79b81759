import BufferSim.Paging.Lru

/-!
# LRU with pinned elements

Some elements are pinned: once resident they are never given up.  Full frames
give up the least recently used element that is not pinned, and a request is
rejected when every frame is pinned.

The closed form of the frames separates the two kinds of elements.  The pinned
part is the first `C` pinned elements in the order of first request, and the
rest of the frames is an LRU list over the other elements, whose share of the
frames shrinks as pinned elements arrive.
-/

namespace Paging

variable {α : Type*}

/-- Give up the least recently used element that is not pinned. -/
def pinnedRule (pin : α → Bool) : EvictionRule α where
  victim l := l.reverse.find? (fun q => !pin q)
  mem_of_victim h := List.mem_reverse.mp (List.mem_of_find?_eq_some h)

theorem pinned_victim_eq (pin : α → Bool) (l : List α) :
    (pinnedRule pin).victim l = (l.filter (fun q => !pin q)).getLast? := by
  rw [List.getLast?_eq_head?_reverse, ← List.filter_reverse,
    List.head?_filter]
  rfl

theorem pin_of_pinned_victim {pin : α → Bool} {l : List α} {v : α}
    (hv : (pinnedRule pin).victim l = some v) : pin v = false := by
  simpa using List.find?_some hv

variable [DecidableEq α]

/-- The pinned elements that `C` frames hold after a history. -/
def pinnedElems (pin : α → Bool) (C : ℕ) (history : List α) : List α :=
  (firstSeen (history.filter pin)).take C

/-- The frames that pinned elements leave to the others. -/
def unpinnedShare (pin : α → Bool) (C : ℕ) (history : List α) : ℕ :=
  C - (pinnedElems pin C history).length

/-- The other elements that `C` frames hold after a history. -/
def unpinnedElems (pin : α → Bool) (C : ℕ) (history : List α) : List α :=
  (recency (history.filter (fun q => !pin q))).take
    (unpinnedShare pin C history)

variable {pin : α → Bool} {C : ℕ}

theorem nodup_pinnedElems (history : List α) :
    (pinnedElems pin C history).Nodup :=
  (nodup_firstSeen _).sublist (List.take_sublist _ _)

theorem length_pinnedElems (history : List α) :
    (pinnedElems pin C history).length =
      min C (history.filter pin).toFinset.card := by
  rw [pinnedElems, List.length_take, length_firstSeen]

theorem pin_of_mem_pinnedElems {history : List α} {p : α}
    (hp : p ∈ pinnedElems pin C history) : pin p = true := by
  have hmem := mem_firstSeen.mp (List.mem_of_mem_take hp)
  exact (List.mem_filter.mp hmem).2

theorem pin_of_mem_unpinnedElems {history : List α} {p : α}
    (hp : p ∈ unpinnedElems pin C history) : pin p = false := by
  have hmem := mem_recency.mp (List.mem_of_mem_take hp)
  simpa using (List.mem_filter.mp hmem).2

theorem pinnedElems_snoc_unpinned {p : α} (hp : pin p = false)
    (history : List α) :
    pinnedElems pin C (history ++ [p]) = pinnedElems pin C history := by
  simp [pinnedElems, List.filter_append, hp]

/-- A pinned element extends the pinned part only at its first request, and
only while fewer than `C` pinned elements are resident. -/
theorem pinnedElems_snoc_pinned {p : α} (hp : pin p = true)
    (history : List α) :
    pinnedElems pin C (history ++ [p]) =
      if p ∉ history ∧ (pinnedElems pin C history).length < C then
        pinnedElems pin C history ++ [p]
      else pinnedElems pin C history := by
  have hfilter : (history ++ [p]).filter pin = history.filter pin ++ [p] := by
    simp [List.filter_append, hp]
  have hmem : p ∈ history.filter pin ↔ p ∈ history := by simp [hp]
  rw [pinnedElems, hfilter, firstSeen_snoc, pinnedElems]
  simp only [hmem]
  set seen := firstSeen (history.filter pin)
  by_cases hseen : p ∈ history
  · simp [hseen]
  · rw [if_neg hseen]
    by_cases hroom : (seen.take C).length < C
    · have hlen : seen.length < C := by
        rw [List.length_take] at hroom
        omega
      rw [if_pos ⟨hseen, hroom⟩, List.take_of_length_le (by simp; omega),
        List.take_of_length_le hlen.le]
    · have hlen : C ≤ seen.length := by
        rw [List.length_take] at hroom
        omega
      rw [if_neg (fun h => hroom h.2), List.take_append_of_le_length hlen]

theorem filter_reorder {l : List α} (hl : l.Nodup) (keep : α → Bool) (p : α)
    (o : Outcome α) :
    (o.reorder p l).filter keep =
      if keep p then o.reorder p (l.filter keep)
      else
        match o with
        | .hit => (l.filter keep).erase p
        | .load => l.filter keep
        | .replace v => (l.filter keep).erase v
        | .reject => l.filter keep := by
  have herase : ∀ v, (l.erase v).filter keep = (l.filter keep).erase v := by
    intro v
    rw [hl.erase_eq_filter, (hl.filter keep).erase_eq_filter,
      List.filter_filter, List.filter_filter]
    simp only [Bool.and_comm]
  by_cases hp : keep p = true
  · rw [if_pos hp]
    cases o <;> simp [Outcome.reorder, hp, herase]
  · rw [if_neg hp]
    cases o <;> simp [Outcome.reorder, hp, herase]

/-! ## The closed form -/

/-- The frames agree with the closed form of a history. -/
structure PinnedForm (pin : α → Bool) (C : ℕ) (history : List α)
    (s : FrameList α C) : Prop where
  mem_pinned : ∀ q, pin q = true →
    (q ∈ s.elems ↔ q ∈ pinnedElems pin C history)
  filter_unpinned :
    s.elems.filter (fun q => !pin q) = unpinnedElems pin C history

namespace PinnedForm

variable {history : List α} {s : FrameList α C}

theorem length_eq (form : PinnedForm pin C history s) :
    s.elems.length =
      (pinnedElems pin C history).length +
        (unpinnedElems pin C history).length := by
  have hpinned : (s.elems.filter pin).length =
      (pinnedElems pin C history).length := by
    rw [← List.toFinset_card_of_nodup (s.nodup.filter pin),
      ← List.toFinset_card_of_nodup (nodup_pinnedElems history)]
    congr 1
    ext q
    simp only [List.mem_toFinset, List.mem_filter]
    constructor
    · rintro ⟨hq, hpin⟩
      exact (form.mem_pinned q hpin).mp hq
    · intro hq
      have hpin := pin_of_mem_pinnedElems hq
      exact ⟨(form.mem_pinned q hpin).mpr hq, hpin⟩
  rw [← hpinned, ← form.filter_unpinned, ← List.countP_eq_length_filter,
    ← List.countP_eq_length_filter, List.length_eq_countP_add_countP pin]
  congr 2
  funext q
  cases pin q <;> rfl

theorem length_unpinned_le (history : List α) :
    (unpinnedElems pin C history).length ≤ unpinnedShare pin C history :=
  List.length_take_le _ _

theorem length_lt_iff (form : PinnedForm pin C history s) :
    s.elems.length < C ↔
      (unpinnedElems pin C history).length < unpinnedShare pin C history := by
  have hlen := form.length_eq
  have hpins : (pinnedElems pin C history).length = _ :=
    length_pinnedElems history
  have hshare : unpinnedShare pin C history =
      C - (pinnedElems pin C history).length := rfl
  omega

theorem mem_unpinned (form : PinnedForm pin C history s) {p : α}
    (hp : pin p = false) :
    p ∈ s.elems ↔ p ∈ unpinnedElems pin C history := by
  rw [← form.filter_unpinned]
  simp [hp]

theorem victim_eq (form : PinnedForm pin C history s) :
    (pinnedRule pin).victim s.elems =
      (unpinnedElems pin C history).getLast? := by
  rw [pinned_victim_eq, form.filter_unpinned]

theorem nodup_unpinned (history : List α) :
    (unpinnedElems pin C history).Nodup :=
  (nodup_recency _).sublist (List.take_sublist _ _)

/-- A request for an element that is not pinned is an LRU request to the share
of the frames that is not pinned. -/
theorem outcome_unpinned (form : PinnedForm pin C history s) {p : α}
    (hp : pin p = false) :
    (pinnedRule pin).outcome C s.elems p =
      (lruRule α).outcome (unpinnedShare pin C history)
        (unpinnedElems pin C history) p := by
  rw [EvictionRule.outcome, EvictionRule.outcome, form.victim_eq]
  simp only [form.mem_unpinned hp, form.length_lt_iff]
  rfl

/-- A request keeps every pinned resident element. -/
theorem mem_reorder_pinned (form : PinnedForm pin C history s) {p q : α}
    (hq : pin q = true) (hqp : q ≠ p) :
    q ∈ ((pinnedRule pin).outcome C s.elems p).reorder p s.elems ↔
      q ∈ pinnedElems pin C history := by
  rw [← form.mem_pinned q hq]
  rcases (pinnedRule pin).outcome_cases C s.elems p with
    ⟨-, h⟩ | ⟨-, -, h⟩ | ⟨v, -, -, hv, h⟩ | ⟨-, -, -, h⟩
  · simp [h, Outcome.reorder, hqp, List.mem_erase_of_ne hqp]
  · simp [h, Outcome.reorder, hqp]
  · have hqv : q ≠ v := by
      intro hqv
      rw [hqv, pin_of_pinned_victim hv] at hq
      exact Bool.false_ne_true hq
    simp [h, Outcome.reorder, hqp, List.mem_erase_of_ne hqv]
  · simp [h, Outcome.reorder]

theorem next_unpinned (form : PinnedForm pin C history s) {p : α}
    (hp : pin p = false) :
    PinnedForm pin C (history ++ [p])
      (((pinnedRule pin).policy C).next s p) := by
  have hpins := pinnedElems_snoc_unpinned (C := C) hp history
  constructor
  · intro q hq
    have hqp : q ≠ p := by
      intro hqp
      rw [hqp, hp] at hq
      exact Bool.false_ne_true hq
    rw [EvictionRule.policy_next_elems, form.mem_reorder_pinned hq hqp, hpins]
  · have hfilter : (history ++ [p]).filter (fun q => !pin q) =
        history.filter (fun q => !pin q) ++ [p] := by
      simp [List.filter_append, hp]
    rw [EvictionRule.policy_next_elems, filter_reorder s.nodup,
      if_pos (by simp [hp]), form.filter_unpinned, form.outcome_unpinned hp,
      lru_reorder_eq_take (nodup_unpinned history)
        (length_unpinned_le history), unpinnedElems, take_cons_erase_take,
      unpinnedElems, hfilter, recency_snoc, unpinnedShare, unpinnedShare,
      hpins]

/-- When `C` pinned elements are resident, nothing else is. -/
theorem unpinned_eq_nil {history : List α}
    (hfull : C ≤ (pinnedElems pin C history).length) :
    unpinnedElems pin C history = [] := by
  rw [unpinnedElems, unpinnedShare, Nat.sub_eq_zero_of_le hfull,
    List.take_zero]

/-- A missing pinned element was never requested, unless the pinned part is
complete. -/
theorem not_mem_of_room (form : PinnedForm pin C history s) {p : α}
    (hp : pin p = true) (hmiss : p ∉ s.elems)
    (hroom : (pinnedElems pin C history).length < C) : p ∉ history := by
  intro hmem
  apply hmiss
  rw [form.mem_pinned p hp]
  have hseen : p ∈ firstSeen (history.filter pin) := by
    rw [mem_firstSeen]
    simp [hmem, hp]
  rw [pinnedElems, List.length_take] at hroom
  rw [pinnedElems, List.take_of_length_le (by omega)]
  exact hseen

omit [DecidableEq α] in
theorem filter_unpinned_snoc_pinned {p : α} (hp : pin p = true)
    (history : List α) :
    (history ++ [p]).filter (fun q => !pin q) =
      history.filter (fun q => !pin q) := by
  simp [List.filter_append, hp]

/-- A pinned request that leaves the pinned part as it is keeps the form if it
leaves the other part as it is too. -/
theorem next_same (form : PinnedForm pin C history s) {p : α}
    (hp : pin p = true)
    (hkeep : ¬(p ∉ history ∧ (pinnedElems pin C history).length < C))
    (hmem : p ∈ (((pinnedRule pin).policy C).next s p).elems ↔
      p ∈ pinnedElems pin C history)
    (hnext : (((pinnedRule pin).policy C).next s p).elems.filter
      (fun q => !pin q) = unpinnedElems pin C history) :
    PinnedForm pin C (history ++ [p])
      (((pinnedRule pin).policy C).next s p) := by
  have hsnoc := pinnedElems_snoc_pinned (C := C) hp history
  rw [if_neg hkeep] at hsnoc
  constructor
  · intro q hq
    rw [hsnoc]
    by_cases hqp : q = p
    · rw [hqp]
      exact hmem
    · exact form.mem_reorder_pinned hq hqp
  · rw [hnext, unpinnedElems, unpinnedElems, unpinnedShare, unpinnedShare,
      hsnoc, filter_unpinned_snoc_pinned hp]

/-- A missing pinned element that finds room in the pinned part takes a frame
from the other part. -/
theorem next_grow (form : PinnedForm pin C history s) {p : α}
    (hp : pin p = true) (hmiss : p ∉ s.elems)
    (hroom : (pinnedElems pin C history).length < C)
    (hmem : p ∈ (((pinnedRule pin).policy C).next s p).elems)
    (hnext : (((pinnedRule pin).policy C).next s p).elems.filter
      (fun q => !pin q) =
        (recency (history.filter (fun q => !pin q))).take
          (unpinnedShare pin C history - 1)) :
    PinnedForm pin C (history ++ [p])
      (((pinnedRule pin).policy C).next s p) := by
  have hsnoc := pinnedElems_snoc_pinned (C := C) hp history
  rw [if_pos ⟨form.not_mem_of_room hp hmiss hroom, hroom⟩] at hsnoc
  have hshare : unpinnedShare pin C (history ++ [p]) =
      unpinnedShare pin C history - 1 := by
    rw [unpinnedShare, unpinnedShare, hsnoc, List.length_append,
      List.length_singleton]
    omega
  constructor
  · intro q hq
    rw [hsnoc, List.mem_append, List.mem_singleton]
    by_cases hqp : q = p
    · rw [hqp]
      exact ⟨fun _ => Or.inr rfl, fun _ => hmem⟩
    · have hother := form.mem_reorder_pinned hq hqp
      rw [← EvictionRule.policy_next_elems] at hother
      rw [hother]
      exact ⟨Or.inl, fun h => h.resolve_right hqp⟩
  · rw [hnext, unpinnedElems, hshare, filter_unpinned_snoc_pinned hp]

/-- Full frames whose other part is not empty have room for a pinned element. -/
theorem room_of_victim (form : PinnedForm pin C history s)
    (hfull : C ≤ s.elems.length) {v : α}
    (hv : (unpinnedElems pin C history).getLast? = some v) :
    (unpinnedElems pin C history).length = unpinnedShare pin C history ∧
      (pinnedElems pin C history).length < C := by
  have hle : (unpinnedElems pin C history).length ≤ _ :=
    length_unpinned_le history
  have hlen := form.length_lt_iff.not.mp (Nat.not_lt.mpr hfull)
  have heq : (unpinnedElems pin C history).length =
      unpinnedShare pin C history := by omega
  have hpos : 0 < (unpinnedElems pin C history).length :=
    List.length_pos_of_mem (List.mem_of_getLast? hv)
  refine ⟨heq, ?_⟩
  rw [heq, unpinnedShare] at hpos
  omega

/-- A request for a pinned element. -/
theorem next_pinned (form : PinnedForm pin C history s) {p : α}
    (hp : pin p = true) :
    PinnedForm pin C (history ++ [p])
      (((pinnedRule pin).policy C).next s p) := by
  have hnotUnpinned : p ∉ unpinnedElems pin C history := by
    intro hmem
    rw [pin_of_mem_unpinnedElems hmem] at hp
    exact Bool.false_ne_true hp
  have hvictim := form.victim_eq
  have hnext := filter_reorder s.nodup (fun q => !pin q) p
    ((pinnedRule pin).outcome C s.elems p)
  rw [if_neg (by simp [hp]), form.filter_unpinned,
    ← EvictionRule.policy_next_elems] at hnext
  have helems := (pinnedRule pin).policy_next_elems s p
  rcases (pinnedRule pin).outcome_cases C s.elems p with
    ⟨hres, h⟩ | ⟨hmiss, hroom, h⟩ | ⟨v, hmiss, hfull, hv, h⟩ |
      ⟨hmiss, hfull, hv, h⟩
  · -- hit: neither part changes
    rw [h] at hnext helems
    have hmem : p ∈ pinnedElems pin C history :=
      (form.mem_pinned p hp).mp hres
    have hseen : p ∈ history := by
      have hfirst := mem_firstSeen.mp (List.mem_of_mem_take hmem)
      exact (List.mem_filter.mp hfirst).1
    refine form.next_same hp (fun hgrow => hgrow.1 hseen) ?_ ?_
    · simp [helems, Outcome.reorder, hmem]
    · rw [hnext]
      exact List.erase_of_not_mem hnotUnpinned
  · -- load: the other part had a free frame to give
    rw [h] at hnext helems
    have hunpinned := form.length_lt_iff.mp hroom
    have hpinRoom : (pinnedElems pin C history).length < C := by
      unfold unpinnedShare at hunpinned
      omega
    refine form.next_grow hp hmiss hpinRoom ?_ ?_
    · simp [helems, Outcome.reorder]
    · rw [unpinnedElems, List.length_take] at hunpinned
      rw [hnext, unpinnedElems, List.take_of_length_le (by omega),
        List.take_of_length_le (by omega)]
  · -- replace: the other part gives up its last element
    rw [h] at hnext helems
    rw [hv] at hvictim
    obtain ⟨hlen, hpinRoom⟩ := form.room_of_victim hfull hvictim.symm
    refine form.next_grow hp hmiss hpinRoom ?_ ?_
    · simp [helems, Outcome.reorder]
    · rw [hnext]
      simp only
      rw [erase_getLast_of_nodup (nodup_unpinned history) hvictim.symm,
        List.dropLast_eq_take, hlen, unpinnedElems, List.take_take,
        Nat.min_eq_left (Nat.sub_le _ 1)]
  · -- reject: the pinned part is already complete
    rw [h] at hnext helems
    rw [hv] at hvictim
    have hnil : unpinnedElems pin C history = [] :=
      List.getLast?_eq_none_iff.mp hvictim.symm
    have hpinFull : C ≤ (pinnedElems pin C history).length := by
      have hlen := form.length_eq
      rw [hnil, List.length_nil] at hlen
      omega
    refine form.next_same hp (fun hgrow => ?_) ?_ hnext
    · exact absurd hpinFull (Nat.not_le.mpr hgrow.2)
    · rw [helems]
      exact form.mem_pinned p hp

end PinnedForm

/-- The frames of the pinned policy agree with the closed form. -/
theorem pinnedForm_run (pin : α → Bool) (C : ℕ) (history : List α) :
    PinnedForm pin C history (((pinnedRule pin).policy C).run history) := by
  refine ((pinnedRule pin).policy C).run_induction
    (motive := fun history s => PinnedForm pin C history s) ?_ ?_ history
  · constructor
    · simp [pinnedElems]
    · simp [unpinnedElems]
  · intro history p form
    cases hp : pin p with
    | false => exact form.next_unpinned hp
    | true => exact form.next_pinned hp

/-- The resident set in closed form. -/
theorem pinned_resident_eq (pin : α → Bool) (C : ℕ) (history : List α) :
    ((pinnedRule pin).policy C).resident
        (((pinnedRule pin).policy C).run history) =
      (pinnedElems pin C history).toFinset ∪
        (unpinnedElems pin C history).toFinset := by
  have form := pinnedForm_run pin C history
  ext q
  rw [EvictionRule.policy_resident, Finset.mem_union, List.mem_toFinset,
    List.mem_toFinset, List.mem_toFinset]
  cases hq : pin q with
  | false =>
      rw [form.mem_unpinned hq]
      constructor
      · exact Or.inr
      · rintro (hmem | hmem)
        · rw [pin_of_mem_pinnedElems hmem] at hq
          exact absurd hq.symm Bool.false_ne_true
        · exact hmem
  | true =>
      rw [form.mem_pinned q hq]
      constructor
      · exact Or.inl
      · rintro (hmem | hmem)
        · exact hmem
        · rw [pin_of_mem_unpinnedElems hmem] at hq
          exact absurd hq Bool.false_ne_true

/-! ## Consequences of the closed form -/

theorem firstSeen_prefix_append (xs ys : List α) :
    firstSeen xs <+: firstSeen (xs ++ ys) := by
  induction ys using List.reverseRecOn with
  | nil => rw [List.append_nil]
  | append_singleton ys p ih =>
      rw [← List.append_assoc, firstSeen_snoc]
      split
      · exact ih
      · exact ih.trans (List.prefix_append _ [p])

/-- A pinned resident element stays resident. -/
theorem pinnedElems_subset_append (history later : List α) :
    pinnedElems pin C history ⊆ pinnedElems pin C (history ++ later) := by
  rw [pinnedElems, pinnedElems, List.filter_append]
  obtain ⟨rest, hrest⟩ :=
    firstSeen_prefix_append (history.filter pin) (later.filter pin)
  rw [← hrest, List.take_append]
  exact List.subset_append_left _ _

/-- Once `C` distinct pinned elements were requested, the resident set is
fixed. -/
theorem pinned_resident_append_of_full {history : List α}
    (hfull : C ≤ (history.filter pin).toFinset.card) (later : List α) :
    ((pinnedRule pin).policy C).resident
        (((pinnedRule pin).policy C).run (history ++ later)) =
      ((pinnedRule pin).policy C).resident
        (((pinnedRule pin).policy C).run history) := by
  have hlen : C ≤ (firstSeen (history.filter pin)).length := by
    rwa [length_firstSeen]
  have hpins : pinnedElems pin C (history ++ later) =
      pinnedElems pin C history := by
    obtain ⟨rest, hrest⟩ :=
      firstSeen_prefix_append (history.filter pin) (later.filter pin)
    rw [pinnedElems, pinnedElems, List.filter_append, ← hrest,
      List.take_append_of_le_length hlen]
  have hcount : C ≤ (pinnedElems pin C history).length := by
    rw [pinnedElems, List.length_take]
    omega
  rw [pinned_resident_eq, pinned_resident_eq, hpins,
    PinnedForm.unpinned_eq_nil hcount,
    PinnedForm.unpinned_eq_nil (hpins ▸ hcount)]

/-- More frames hold at least the same elements. -/
theorem pinned_resident_subset {C C' : ℕ} (hle : C ≤ C') (history : List α) :
    ((pinnedRule pin).policy C).resident
        (((pinnedRule pin).policy C).run history) ⊆
      ((pinnedRule pin).policy C').resident
        (((pinnedRule pin).policy C').run history) := by
  intro q hq
  rw [pinned_resident_eq, Finset.mem_union, List.mem_toFinset,
    List.mem_toFinset] at hq ⊢
  rcases hq with hq | hq
  · left
    exact (List.take_sublist_take_left hle).subset hq
  · right
    refine (List.take_sublist_take_left ?_).subset hq
    -- the share is positive, so every pinned element is resident in both
    have hshare : 0 < unpinnedShare pin C history := by
      have := List.length_pos_of_mem hq
      have hle : (unpinnedElems pin C history).length ≤ _ :=
        PinnedForm.length_unpinned_le history
      omega
    rw [unpinnedShare, length_pinnedElems] at hshare
    rw [unpinnedShare, unpinnedShare, length_pinnedElems, length_pinnedElems]
    omega

/-- With nothing pinned in the frames, full frames give up their last
element. -/
theorem pinned_outcome_eq_lru {l : List α} (hl : ∀ q ∈ l, pin q = false)
    (p : α) :
    (pinnedRule pin).outcome C l p = (lruRule α).outcome C l p := by
  have hfilter : l.filter (fun q => !pin q) = l := by
    rw [List.filter_eq_self]
    intro q hq
    simp [hl q hq]
  rw [EvictionRule.outcome, EvictionRule.outcome, pinned_victim_eq, hfilter]
  rfl

/-- On a history without pinned elements the policy is LRU. -/
theorem pinned_run_eq_lru {history : List α}
    (hnone : ∀ q ∈ history, pin q = false) :
    ((pinnedRule pin).policy C).run history =
      ((lruRule α).policy C).run history := by
  induction history using List.reverseRecOn with
  | nil => rfl
  | append_singleton history p ih =>
      have hold : ∀ q ∈ history, pin q = false := fun q hq =>
        hnone q (List.mem_append_left _ hq)
      apply FrameList.ext
      rw [Policy.run_snoc, Policy.run_snoc, EvictionRule.policy_next_elems,
        EvictionRule.policy_next_elems, ih hold, pinned_outcome_eq_lru]
      intro q hq
      exact hold q ((lruRule α).mem_of_mem_elems hq)

end Paging

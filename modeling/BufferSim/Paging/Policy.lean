import BufferSim.Paging.Recency

/-!
# Replacement policies

A replacement policy reacts to each request with an outcome: a hit, a load
into a free frame, the replacement of a resident element, or a rejection that
leaves the resident set alone.  The structure `Policy` carries the two laws
which make its counters meaningful: a request is a hit exactly when its
element is resident, and the outcome determines the next resident set.

The counters of a run are functions of its list of outcomes, so two policies
are compared by comparing resident sets along a history.
-/

namespace Paging

variable {α : Type*}

/-- What a policy does with one request. -/
inductive Outcome (α : Type*) where
  | hit
  | load
  | replace (victim : α)
  | reject
  deriving DecidableEq, Repr

namespace Outcome

def isHit : Outcome α → Bool
  | hit => true
  | _ => false

def isReplace : Outcome α → Bool
  | replace _ => true
  | _ => false

def isReject : Outcome α → Bool
  | reject => true
  | _ => false

variable [DecidableEq α]

/-- The resident set after a request for `p` with the given outcome. -/
def apply (p : α) (frames : Finset α) : Outcome α → Finset α
  | hit => frames
  | load => insert p frames
  | replace victim => insert p (frames.erase victim)
  | reject => frames

end Outcome

/-- A deterministic replacement policy that starts with empty frames. -/
structure Policy (α : Type*) [DecidableEq α] (σ : Type*) where
  start : σ
  resident : σ → Finset α
  outcome : σ → α → Outcome α
  next : σ → α → σ
  resident_start : resident start = ∅
  hit_iff : ∀ s p, (outcome s p).isHit = true ↔ p ∈ resident s
  resident_next : ∀ s p,
    resident (next s p) = (outcome s p).apply p (resident s)
  victim_mem : ∀ s p v, outcome s p = .replace v → v ∈ resident s

namespace Policy

variable [DecidableEq α] {σ τ : Type*} (P : Policy α σ)

/-- The state reached from `s` by serving a list of requests. -/
def runFrom (s : σ) (requests : List α) : σ :=
  requests.foldl P.next s

/-- The state reached from empty frames. -/
def run (history : List α) : σ :=
  P.runFrom P.start history

/-- The outcomes of a list of requests served from `s`. -/
def outcomes : σ → List α → List (Outcome α)
  | _, [] => []
  | s, p :: requests => P.outcome s p :: outcomes (P.next s p) requests

/-- The requests that miss, in order, when a list is served from `s`. -/
def missLog : σ → List α → List α
  | _, [] => []
  | s, p :: requests =>
      if p ∈ P.resident s then missLog (P.next s p) requests
      else p :: missLog (P.next s p) requests

def hits (history : List α) : ℕ :=
  (P.outcomes P.start history).countP Outcome.isHit

def misses (history : List α) : ℕ :=
  (P.missLog P.start history).length

def evictions (history : List α) : ℕ :=
  (P.outcomes P.start history).countP Outcome.isReplace

/-- The misses whose element was not made resident. -/
def rejections (history : List α) : ℕ :=
  (P.outcomes P.start history).countP Outcome.isReject

@[simp] theorem runFrom_cons (s : σ) (p : α) (requests : List α) :
    P.runFrom s (p :: requests) = P.runFrom (P.next s p) requests := rfl

theorem runFrom_append (s : σ) (xs ys : List α) :
    P.runFrom s (xs ++ ys) = P.runFrom (P.runFrom s xs) ys :=
  List.foldl_append

@[simp] theorem run_nil : P.run [] = P.start := rfl

theorem run_append (xs ys : List α) :
    P.run (xs ++ ys) = P.runFrom (P.run xs) ys :=
  P.runFrom_append P.start xs ys

theorem run_snoc (history : List α) (p : α) :
    P.run (history ++ [p]) = P.next (P.run history) p :=
  P.run_append history [p]

/-- The victims of a request are the elements that leave the frames. -/
theorem outcome_eq_replace_iff (s : σ) (p v : α) :
    P.outcome s p = .replace v ↔
      v ∈ P.resident s ∧ v ∉ P.resident (P.next s p) := by
  have hhit := P.hit_iff s p
  rw [P.resident_next]
  cases hout : P.outcome s p with
  | hit => simp [Outcome.apply]
  | load =>
      simp only [reduceCtorEq, Outcome.apply, Finset.mem_insert, not_or,
        false_iff]
      tauto
  | replace w =>
      have hw := P.victim_mem s p w hout
      have hmiss : p ∉ P.resident s := by
        rw [← hhit, hout]
        simp [Outcome.isHit]
      simp only [Outcome.replace.injEq, Outcome.apply, Finset.mem_insert,
        Finset.mem_erase, not_or, not_and]
      constructor
      · rintro rfl
        exact ⟨hw, fun hwp => hmiss (hwp ▸ hw), fun h => absurd rfl h⟩
      · rintro ⟨hv, -, himp⟩
        by_contra hwv
        exact himp (Ne.symm hwv) hv
  | reject => simp [Outcome.apply]

/-- A property of states and histories that one request preserves holds along
every run. -/
theorem run_induction {motive : List α → σ → Prop}
    (nil : motive [] P.start)
    (snoc : ∀ history p, motive history (P.run history) →
      motive (history ++ [p]) (P.next (P.run history) p))
    (history : List α) : motive history (P.run history) := by
  induction history using List.reverseRecOn with
  | nil => exact nil
  | append_singleton history p ih =>
      rw [run_snoc]
      exact snoc history p ih

theorem missLog_append (s : σ) (xs ys : List α) :
    P.missLog s (xs ++ ys) =
      P.missLog s xs ++ P.missLog (P.runFrom s xs) ys := by
  induction xs generalizing s with
  | nil => rfl
  | cons p xs ih =>
      simp only [List.cons_append, missLog, runFrom_cons]
      rw [ih]
      split <;> rfl

theorem missLog_sublist (s : σ) (requests : List α) :
    (P.missLog s requests).Sublist requests := by
  induction requests generalizing s with
  | nil => exact List.Sublist.refl []
  | cons p requests ih =>
      rw [missLog]
      split
      · exact (ih (P.next s p)).cons p
      · exact (ih (P.next s p)).cons_cons p

theorem length_outcomes (s : σ) (requests : List α) :
    (P.outcomes s requests).length = requests.length := by
  induction requests generalizing s with
  | nil => rfl
  | cons p requests ih => simp [outcomes, ih]

/-- The misses are the outcomes other than hits. -/
theorem length_missLog (s : σ) (requests : List α) :
    (P.missLog s requests).length =
      (P.outcomes s requests).countP (fun o => !o.isHit) := by
  induction requests generalizing s with
  | nil => rfl
  | cons p requests ih =>
      rw [missLog, outcomes, List.countP_cons, ← ih]
      by_cases hp : p ∈ P.resident s
      · rw [if_pos hp, (P.hit_iff s p).mpr hp]
        simp
      · have hmiss : (P.outcome s p).isHit = false := by
          rw [Bool.eq_false_iff, ne_eq, P.hit_iff]
          exact hp
        rw [if_neg hp, hmiss]
        simp

theorem hits_add_misses (history : List α) :
    P.hits history + P.misses history = history.length := by
  rw [hits, misses, length_missLog, ← P.length_outcomes P.start history,
    List.length_eq_countP_add_countP Outcome.isHit]
  congr 2
  funext o
  cases o.isHit <;> rfl

theorem misses_append (xs ys : List α) :
    P.misses (xs ++ ys) =
      P.misses xs + (P.missLog (P.run xs) ys).length := by
  rw [misses, missLog_append, List.length_append]
  rfl

theorem misses_snoc (history : List α) (p : α) :
    P.misses (history ++ [p]) =
      P.misses history + if p ∈ P.resident (P.run history) then 0 else 1 := by
  rw [misses_append]
  congr 1
  rw [missLog, missLog]
  split <;> rfl

/-! ## Conservation of frames -/

theorem outcomes_append (s : σ) (xs ys : List α) :
    P.outcomes s (xs ++ ys) =
      P.outcomes s xs ++ P.outcomes (P.runFrom s xs) ys := by
  induction xs generalizing s with
  | nil => rfl
  | cons p xs ih => simp [outcomes, ih]

theorem outcomes_snoc (history : List α) (p : α) :
    P.outcomes P.start (history ++ [p]) =
      P.outcomes P.start history ++ [P.outcome (P.run history) p] :=
  P.outcomes_append P.start history [p]

theorem evictions_snoc (history : List α) (p : α) :
    P.evictions (history ++ [p]) = P.evictions history +
      if (P.outcome (P.run history) p).isReplace then 1 else 0 := by
  simp only [evictions, outcomes_snoc, List.countP_append, List.countP_cons,
    List.countP_nil, Nat.zero_add]

theorem rejections_snoc (history : List α) (p : α) :
    P.rejections (history ++ [p]) = P.rejections history +
      if (P.outcome (P.run history) p).isReject then 1 else 0 := by
  simp only [rejections, outcomes_snoc, List.countP_append, List.countP_cons,
    List.countP_nil, Nat.zero_add]

/-- A policy that makes every missing element resident rejects nothing. -/
theorem rejections_eq_zero (hloads : ∀ s p, P.outcome s p ≠ .reject)
    (history : List α) : P.rejections history = 0 := by
  induction history using List.reverseRecOn with
  | nil => rfl
  | append_singleton history p ih =>
      have hkeep : (P.outcome (P.run history) p).isReject = false := by
        cases hout : P.outcome (P.run history) p with
        | reject => exact absurd hout (hloads _ p)
        | _ => rfl
      simp [rejections_snoc, ih, hkeep]

/-- A miss fills a frame, or is paid for by an eviction or a rejection. -/
theorem card_resident_next (s : σ) (p : α) :
    (if (P.outcome s p).isReplace then 1 else 0) +
        (P.resident (P.next s p)).card +
        (if (P.outcome s p).isReject then 1 else 0) =
      (P.resident s).card + if p ∈ P.resident s then 0 else 1 := by
  have hhit := P.hit_iff s p
  have hnext := P.resident_next s p
  cases hout : P.outcome s p with
  | hit =>
      have hp : p ∈ P.resident s := by
        simpa [hout, Outcome.isHit] using hhit
      simp [hnext, hout, hp, Outcome.apply, Outcome.isReplace,
        Outcome.isReject]
  | load =>
      have hp : p ∉ P.resident s := by
        simpa [hout, Outcome.isHit] using hhit
      simp [hnext, hout, hp, Outcome.apply, Outcome.isReplace,
        Outcome.isReject]
  | replace v =>
      have hp : p ∉ P.resident s := by
        simpa [hout, Outcome.isHit] using hhit
      have hv := P.victim_mem s p v hout
      have hpos := Finset.card_pos.mpr ⟨v, hv⟩
      have hfresh : p ∉ (P.resident s).erase v :=
        fun hmem => hp (Finset.mem_of_mem_erase hmem)
      simp only [hnext, hout, hp, Outcome.apply, Outcome.isReplace,
        Outcome.isReject, Finset.card_insert_of_notMem hfresh,
        Finset.card_erase_of_mem hv, if_true, if_false, Bool.false_eq_true]
      omega
  | reject =>
      have hp : p ∉ P.resident s := by
        simpa [hout, Outcome.isHit] using hhit
      simp [hnext, hout, hp, Outcome.apply, Outcome.isReplace,
        Outcome.isReject]

/-- Every miss was evicted again, is still resident, or was rejected. -/
theorem misses_eq (history : List α) :
    P.misses history =
      P.evictions history + (P.resident (P.run history)).card +
        P.rejections history := by
  induction history using List.reverseRecOn with
  | nil => simp [misses, missLog, evictions, rejections, outcomes,
      P.resident_start]
  | append_singleton history p ih =>
      have hstep := P.card_resident_next (P.run history) p
      simp only [misses_snoc, evictions_snoc, rejections_snoc, run_snoc]
      omega

/-- A policy whose resident set always includes that of another misses no more
often, and hits no less often. -/
theorem misses_le_of_resident_subset (Q : Policy α τ)
    (hsub : ∀ history,
      P.resident (P.run history) ⊆ Q.resident (Q.run history))
    (history : List α) :
    Q.misses history ≤ P.misses history := by
  induction history using List.reverseRecOn with
  | nil => exact Nat.le_refl 0
  | append_singleton history p ih =>
      rw [misses_snoc, misses_snoc]
      by_cases hp : p ∈ P.resident (P.run history)
      · rw [if_pos hp, if_pos (hsub history hp)]
        exact ih
      · rw [if_neg hp]
        refine Nat.add_le_add ih ?_
        split <;> omega

theorem hits_le_of_resident_subset (Q : Policy α τ)
    (hsub : ∀ history,
      P.resident (P.run history) ⊆ Q.resident (Q.run history))
    (history : List α) :
    P.hits history ≤ Q.hits history := by
  have hmisses := P.misses_le_of_resident_subset Q hsub history
  have hP := P.hits_add_misses history
  have hQ := Q.hits_add_misses history
  omega

end Policy
end Paging

import BufferSim.Paging.Policy
import Mathlib.Tactic.Ring

/-!
# Conservative policies and their competitive ratio

A policy is conservative with `C` frames if it misses at most once on each
element of any stretch of requests with at most `C` distinct elements.  The
main theorem compares the misses of such a policy with those of an arbitrary
demand-paging schedule with `h ≤ C` frames, which may know the whole trace.

The comparison cuts the trace into phases of `C` distinct elements.  Instead of
building the list of phases, `PhaseBound` records what is known after a prefix
of the trace: the number of finished phases, the requests of the current one,
and a set that covers both the current phase and the frames of the schedule and
is paid for by the schedule's misses.
-/

namespace Paging

variable {α σ : Type*} [DecidableEq α]

namespace Policy

/-- At most one miss on each element of every stretch with at most `C` distinct
elements, whatever was served before it. -/
def Conservative (P : Policy α σ) (C : ℕ) : Prop :=
  ∀ history segment : List α, segment.toFinset.card ≤ C →
    (P.missLog (P.run history) segment).Nodup

variable {P : Policy α σ} {C : ℕ}

/-- It is enough that an element which missed in a stretch stays resident as
long as the stretch has at most `C` distinct elements. -/
theorem conservative_of_missed_resident
    (hstay : ∀ history segment p, segment.toFinset.card ≤ C →
      p ∈ P.missLog (P.run history) segment →
      p ∈ P.resident (P.run (history ++ segment))) :
    P.Conservative C := by
  intro history segment
  induction segment using List.reverseRecOn with
  | nil => intro _; exact List.nodup_nil
  | append_singleton segment p ih =>
      intro hcard
      have hsub : segment.toFinset ⊆ (segment ++ [p]).toFinset := by
        intro q hq
        simp only [List.mem_toFinset, List.mem_append] at hq ⊢
        exact Or.inl hq
      have hcard' := (Finset.card_le_card hsub).trans hcard
      rw [missLog_append, ← run_append, missLog, missLog]
      by_cases hp : p ∈ P.resident (P.run (history ++ segment))
      · rw [if_pos hp, List.append_nil]
        exact ih hcard'
      · rw [if_neg hp, List.nodup_append]
        refine ⟨ih hcard', List.nodup_singleton p, ?_⟩
        intro q hq r hr hqr
        rw [List.mem_singleton.mp hr] at hqr
        exact hp (hstay history segment p hcard' (hqr ▸ hq))

theorem Conservative.length_missLog_le (hP : P.Conservative C)
    (history segment : List α) (hcard : segment.toFinset.card ≤ C) :
    (P.missLog (P.run history) segment).length ≤ segment.toFinset.card := by
  rw [← List.toFinset_card_of_nodup (hP history segment hcard)]
  apply Finset.card_le_card
  intro p hp
  rw [List.mem_toFinset] at hp ⊢
  exact (P.missLog_sublist _ _).subset hp

end Policy

/-! ## Demand-paging schedules -/

/-- A demand-paging schedule with `h` frames for a trace: the resident sets
after each number of requests.  It starts empty, and after each request it
holds the requested element and otherwise only elements it held before. -/
structure Schedule (h : ℕ) (requests : List α) where
  resident : ℕ → Finset α
  resident_zero : resident 0 = ∅
  card_le : ∀ i, (resident i).card ≤ h
  serves : ∀ i p, requests[i]? = some p → p ∈ resident (i + 1)
  demand : ∀ i p, requests[i]? = some p →
    resident (i + 1) ⊆ insert p (resident i)

namespace Schedule

variable {h : ℕ} {requests : List α}

/-- The misses of a schedule on the first `n` requests. -/
def missesBefore (S : Schedule h requests) : ℕ → ℕ
  | 0 => 0
  | n + 1 =>
      missesBefore S n +
        match requests[n]? with
        | some p => if p ∈ S.resident n then 0 else 1
        | none => 0

/-- The misses of a schedule on its whole trace. -/
def misses (S : Schedule h requests) : ℕ :=
  S.missesBefore requests.length

theorem missesBefore_succ (S : Schedule h requests) {n : ℕ} {p : α}
    (hp : requests[n]? = some p) :
    S.missesBefore (n + 1) =
      S.missesBefore n + if p ∈ S.resident n then 0 else 1 := by
  rw [missesBefore, hp]

end Schedule

omit [DecidableEq α] in
theorem take_succ_of_getElem?_eq_some {requests : List α} {n : ℕ} {p : α}
    (hp : requests[n]? = some p) : requests.take (n + 1) = requests.take n ++ [p] := by
  rw [List.take_add_one, hp]
  rfl

/-- A policy that never rejects, with at most `h` resident elements, is itself
a demand-paging schedule with the same misses. -/
theorem Policy.exists_schedule (P : Policy α σ) {h : ℕ}
    (hloads : ∀ s p, P.outcome s p ≠ .reject)
    (hcard : ∀ s, (P.resident s).card ≤ h) (requests : List α) :
    ∃ S : Schedule h requests, S.misses = P.misses requests := by
  let S : Schedule h requests :=
    { resident := fun i => P.resident (P.run (requests.take i))
      resident_zero := P.resident_start
      card_le := fun i => hcard _
      serves := by
        intro i p hp
        rw [take_succ_of_getElem?_eq_some hp, P.run_snoc, P.resident_next]
        cases hout : P.outcome (P.run (requests.take i)) p with
        | hit => exact (P.hit_iff _ p).mp (by rw [hout]; rfl)
        | load => simp [Outcome.apply]
        | replace victim => simp [Outcome.apply]
        | reject => exact absurd hout (hloads _ p)
      demand := by
        intro i p hp q hq
        rw [take_succ_of_getElem?_eq_some hp, P.run_snoc, P.resident_next] at hq
        cases hout : P.outcome (P.run (requests.take i)) p with
        | hit =>
            rw [hout] at hq
            exact Finset.mem_insert_of_mem hq
        | load =>
            rw [hout] at hq
            exact hq
        | replace victim =>
            rw [hout, Outcome.apply, Finset.mem_insert] at hq
            rw [Finset.mem_insert]
            exact hq.imp_right Finset.mem_of_mem_erase
        | reject => exact absurd hout (hloads _ p) }
  have hcount : ∀ n, n ≤ requests.length →
      S.missesBefore n = P.misses (requests.take n) := by
    intro n
    induction n with
    | zero => intro _; rfl
    | succ n ih =>
        intro hn
        have hp : requests[n]? = some requests[n] :=
          List.getElem?_eq_getElem (Nat.lt_of_succ_le hn)
        rw [S.missesBefore_succ hp, take_succ_of_getElem?_eq_some hp,
          P.misses_snoc, ih (Nat.le_of_succ_le hn)]
  refine ⟨S, ?_⟩
  rw [Schedule.misses, hcount _ (Nat.le_refl _), List.take_length]

/-! ## The phase argument -/

/-- What the phase argument knows after `n` requests: the finished phases cost
the policy at most `C` misses each, and the schedule has paid for `C - h + 1`
misses for each of them and for all of `covered` besides. -/
structure PhaseBound (P : Policy α σ) (C : ℕ) {h : ℕ} {requests : List α}
    (S : Schedule h requests) (n phases : ℕ) where
  finished : List α
  current : List α
  covered : Finset α
  split : requests.take n = finished ++ current
  distinct : current.toFinset.card ≤ C
  finished_le : P.misses finished ≤ phases * C
  resident_covered : S.resident n ⊆ covered
  current_covered : current.toFinset ⊆ covered
  paid : phases * (C - h + 1) + covered.card ≤ S.missesBefore n

variable {P : Policy α σ} {C h : ℕ} {requests : List α}

def PhaseBound.initial (P : Policy α σ) (C : ℕ) (S : Schedule h requests) :
    PhaseBound P C S 0 0 where
  finished := []
  current := []
  covered := ∅
  split := rfl
  distinct := by simp
  finished_le := by simp [Policy.misses, Policy.missLog]
  resident_covered := by rw [S.resident_zero]
  current_covered := by simp
  paid := by simp [Schedule.missesBefore]

/-- The covering set after one more request is still paid for, and it covers
the new resident set and the requested element. -/
theorem PhaseBound.exists_covered_succ {S : Schedule h requests} {n phases : ℕ}
    (bound : PhaseBound P C S n phases) {p : α} (hp : requests[n]? = some p) :
    ∃ covered : Finset α,
      insert p bound.covered ⊆ covered ∧ S.resident (n + 1) ⊆ covered ∧
      phases * (C - h + 1) + covered.card ≤ S.missesBefore (n + 1) := by
  have hpaid := bound.paid
  have hdemand := S.demand n p hp
  refine ⟨insert p bound.covered, Finset.Subset.refl _, ?_, ?_⟩
  · exact hdemand.trans (Finset.insert_subset_insert p bound.resident_covered)
  · rw [S.missesBefore_succ hp]
    by_cases hres : p ∈ S.resident n
    · rw [if_pos hres, Finset.insert_eq_of_mem (bound.resident_covered hres)]
      exact hpaid
    · have := Finset.card_insert_le p bound.covered
      rw [if_neg hres]
      omega

/-- One request extends the current phase, or starts the next one when it
would be the element number `C + 1` of the current phase. -/
theorem PhaseBound.exists_succ (hP : P.Conservative C) (hC : 1 ≤ C)
    (hle : h ≤ C) {S : Schedule h requests} {n phases : ℕ}
    (bound : PhaseBound P C S n phases) {p : α} (hp : requests[n]? = some p) :
    ∃ phases', Nonempty (PhaseBound P C S (n + 1) phases') := by
  obtain ⟨covered, hinsert, hresident, hpaid⟩ := bound.exists_covered_succ hp
  have hpcov : p ∈ covered := hinsert (Finset.mem_insert_self p _)
  have hcurrent : bound.current.toFinset ⊆ covered :=
    bound.current_covered.trans
      ((Finset.subset_insert p _).trans hinsert)
  have htake : requests.take (n + 1) =
      bound.finished ++ (bound.current ++ [p]) := by
    rw [take_succ_of_getElem?_eq_some hp, bound.split, List.append_assoc]
  have htoFinset : (bound.current ++ [p]).toFinset =
      insert p bound.current.toFinset := by
    ext q
    simp
  by_cases hfits : (bound.current ++ [p]).toFinset.card ≤ C
  · refine ⟨phases, ⟨{
      finished := bound.finished
      current := bound.current ++ [p]
      covered := covered
      split := htake
      distinct := hfits
      finished_le := bound.finished_le
      resident_covered := hresident
      current_covered := ?_
      paid := hpaid }⟩⟩
    rw [htoFinset]
    exact Finset.insert_subset hpcov hcurrent
  · -- the phase is complete, and `covered` has at least `C + 1` elements
    have hlarge : C + 1 ≤ covered.card := by
      rw [htoFinset] at hfits
      exact (Nat.lt_of_not_le hfits).trans_le
        (Finset.card_le_card (Finset.insert_subset hpcov hcurrent))
    have hphase := hP.length_missLog_le bound.finished bound.current
      bound.distinct
    have hframes := S.card_le (n + 1)
    refine ⟨phases + 1, ⟨{
      finished := bound.finished ++ bound.current
      current := [p]
      covered := S.resident (n + 1)
      split := by rw [htake, List.append_assoc]
      distinct := by simpa using hC
      finished_le := ?_
      resident_covered := Finset.Subset.refl _
      current_covered := by simpa using S.serves n p hp
      paid := ?_ }⟩⟩
    · rw [P.misses_append, Nat.succ_mul]
      exact Nat.add_le_add bound.finished_le (hphase.trans bound.distinct)
    · rw [Nat.succ_mul]
      omega

theorem exists_phaseBound (hP : P.Conservative C) (hC : 1 ≤ C) (hle : h ≤ C)
    (S : Schedule h requests) :
    ∀ n, n ≤ requests.length → ∃ phases, Nonempty (PhaseBound P C S n phases) := by
  intro n
  induction n with
  | zero => intro _; exact ⟨0, ⟨PhaseBound.initial P C S⟩⟩
  | succ n ih =>
      intro hn
      obtain ⟨phases, ⟨bound⟩⟩ := ih (Nat.le_of_succ_le hn)
      exact bound.exists_succ hP hC hle
        (List.getElem?_eq_getElem (Nat.lt_of_succ_le hn))

/-- A conservative policy with `C` frames misses at most `C / (C - h + 1)`
times as often as any demand-paging schedule with `h ≤ C` frames. -/
theorem Policy.Conservative.competitive (hP : P.Conservative C) (h1 : 1 ≤ h)
    (hle : h ≤ C) (S : Schedule h requests) :
    (C - h + 1) * P.misses requests ≤ C * S.misses := by
  obtain ⟨phases, ⟨bound⟩⟩ :=
    exists_phaseBound hP (h1.trans hle) hle S requests.length (Nat.le_refl _)
  have hsplit := bound.split
  rw [List.take_length] at hsplit
  have hmisses : P.misses requests ≤
      phases * C + bound.current.toFinset.card := by
    calc P.misses requests
        = P.misses (bound.finished ++ bound.current) := congrArg _ hsplit
      _ = P.misses bound.finished +
            (P.missLog (P.run bound.finished) bound.current).length :=
          P.misses_append _ _
      _ ≤ phases * C + bound.current.toFinset.card :=
          Nat.add_le_add bound.finished_le
            (hP.length_missLog_le _ _ bound.distinct)
  have hpaid : phases * (C - h + 1) + bound.current.toFinset.card ≤
      S.misses :=
    (Nat.add_le_add_left (Finset.card_le_card bound.current_covered) _).trans
      bound.paid
  have hratio : C - h + 1 ≤ C := by omega
  calc (C - h + 1) * P.misses requests
      ≤ (C - h + 1) * (phases * C + bound.current.toFinset.card) :=
        Nat.mul_le_mul_left _ hmisses
    _ = C * (phases * (C - h + 1)) +
          (C - h + 1) * bound.current.toFinset.card := by ring
    _ ≤ C * (phases * (C - h + 1)) + C * bound.current.toFinset.card :=
        Nat.add_le_add_left (Nat.mul_le_mul_right _ hratio) _
    _ = C * (phases * (C - h + 1) + bound.current.toFinset.card) := by ring
    _ ≤ C * S.misses := Nat.mul_le_mul_left _ hpaid

end Paging

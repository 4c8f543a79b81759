import BufferSim.Polling.SplitPoll

/-!
# What a reader in two steps delivers

The stamps of the writes increase here.  The reader delivers writes in their
order, each of them at most twice.  Three of its steps without a write in
between settle it: it has read the cell, and further steps change nothing.  If
every write is followed by at least two steps of a settled reader, it reads each
write exactly once.
-/

namespace Polling
namespace Reader

variable {α τ : Type*} [DecidableEq τ] {absent : τ} {s : Reader α τ}
  {turns : List (Turn α τ)}

/-! ## Settled readers -/

/-- The reader looks next, and remembers the stamp of the cell. -/
def Settled (s : Reader α τ) : Prop :=
  s.reading = false ∧ s.cell.stamp = s.remembered

theorem step_reading (h : s.reading = true) :
    s.step absent .reader = s.read := by
  rw [step, if_pos h]

theorem step_looking (h : s.reading = false) :
    s.step absent .reader = s.look absent := by
  rw [step, if_neg (by simp [h])]

/-- A settled reader finds no change. -/
theorem Settled.step_reader (h : s.Settled) : s.step absent .reader = s := by
  have hsame : ¬ s.Changed absent := fun hchanged => hchanged.1 h.2
  rw [step_looking h.1, look, if_neg hsame]

theorem Settled.run_readers (h : s.Settled) (n : ℕ) :
    s.run absent (List.replicate n .reader) = s := by
  induction n with
  | zero => rfl
  | succ n ih =>
      rw [List.replicate_succ', run_snoc, ih, h.step_reader]

/-- A reader that looks is settled after two steps, and has read the cell in
them unless it was settled before. -/
theorem run_two_of_looking (hlooking : s.reading = false)
    (hpresent : s.cell.stamp ≠ absent) :
    s.run absent [.reader, .reader] =
      if s.cell.stamp = s.remembered then s
      else { s with remembered := s.cell.stamp, reads := s.reads ++ [s.cell] } := by
  have htwo : s.run absent [.reader, .reader] =
      (s.step absent .reader).step absent .reader := rfl
  by_cases hsame : s.cell.stamp = s.remembered
  · have hsettled : s.Settled := ⟨hlooking, hsame⟩
    rw [htwo, hsettled.step_reader, hsettled.step_reader, if_pos hsame]
  · have hchanged : s.Changed absent := ⟨hsame, hpresent⟩
    rw [htwo, step_looking hlooking, look, if_pos hchanged, if_neg hsame,
      step_reading rfl, read, hlooking]

/-- Further steps change nothing. -/
theorem run_readers_of_looking (hlooking : s.reading = false)
    (hpresent : s.cell.stamp ≠ absent) {n : ℕ} (hn : 2 ≤ n) :
    s.run absent (List.replicate n .reader) =
      s.run absent [.reader, .reader] := by
  obtain ⟨m, rfl⟩ := Nat.exists_eq_add_of_le hn
  have hsettled : (s.run absent [.reader, .reader]).Settled := by
    rw [run_two_of_looking hlooking hpresent]
    split
    · next hsame => exact ⟨hlooking, hsame⟩
    · exact ⟨hlooking, rfl⟩
  rw [← List.replicate_append_replicate, run_append]
  exact hsettled.run_readers m

/-- A read that has begun is over after the first of three steps. -/
theorem run_three (hpresent : s.cell.stamp ≠ absent) :
    s.run absent [.reader, .reader, .reader] =
      (if s.reading = true then s.read else s).run absent
        [.reader, .reader] := by
  split
  · next hreading =>
      have hread : s.step absent .reader = s.read := step_reading hreading
      rw [← hread]
      rfl
  · next hreading =>
      exact run_readers_of_looking (by simpa using hreading) hpresent
        (by decide : 2 ≤ 3)

/-- Any reader is settled after three steps. -/
theorem settled_run_three (hpresent : s.cell.stamp ≠ absent) :
    (s.run absent [.reader, .reader, .reader]).Settled := by
  have hlook : ∀ t : Reader α τ, t.reading = false → t.cell = s.cell →
      (t.run absent [.reader, .reader]).Settled := by
    intro t ht hcell
    rw [run_two_of_looking ht (hcell ▸ hpresent)]
    split
    · next hsame => exact ⟨ht, hsame⟩
    · exact ⟨ht, rfl⟩
  rw [run_three hpresent]
  split
  · exact hlook s.read rfl rfl
  · next hreading => exact hlook s (by simpa using hreading) rfl

/-- A reader that finds a change has read the cell last after three steps. -/
theorem getLast?_reads_of_changed (hchanged : s.Changed absent) :
    (s.run absent [.reader, .reader, .reader]).reads.getLast? =
      some s.cell := by
  have hlook : ∀ t : Reader α τ, t.reading = false → t.Changed absent →
      (t.run absent [.reader, .reader]).reads.getLast? = some t.cell := by
    intro t ht hnew
    rw [run_two_of_looking ht hnew.2, if_neg hnew.1, List.getLast?_concat]
  rw [run_three hchanged.2]
  split
  · exact hlook s.read rfl hchanged
  · next hreading => exact hlook s (by simpa using hreading) hchanged

/-- Everything that was read stood in the cell at the start or was written. -/
theorem mem_reads_run (hreads : ∀ c ∈ s.reads, c = s.cell)
    (turns : List (Turn α τ)) :
    ∀ c, c ∈ (s.run absent turns).reads ∨ c = (s.run absent turns).cell →
      c = s.cell ∨ .write c ∈ turns := by
  induction turns using List.reverseRecOn with
  | nil =>
      rintro c (hc | hc)
      · exact Or.inl (hreads c hc)
      · exact Or.inl hc
  | append_singleton turns e ih =>
      rw [run_snoc]
      intro c hc
      have hold : c ∈ (s.run absent turns).reads ∨
          c = (s.run absent turns).cell →
          c = s.cell ∨ .write c ∈ turns ++ [e] := fun h =>
        (ih c h).imp_right (List.mem_append_left _)
      cases e with
      | write new =>
          rcases hc with hc | rfl
          · exact hold (Or.inl hc)
          · exact Or.inr (by simp)
      | reader =>
          cases hreading : (s.run absent turns).reading with
          | true =>
              rw [step_reading hreading] at hc
              rcases hc with hc | hc
              · rcases List.mem_append.mp hc with hc | hc
                · exact hold (Or.inl hc)
                · exact hold (Or.inr (List.mem_singleton.mp hc))
              · exact hold (Or.inr hc)
          | false =>
              rw [step_looking hreading, Reader.look] at hc
              split at hc
              · exact hold hc
              · exact hold hc

/-! ## The order of the reads -/

variable [Preorder τ]

theorem Increasing.of_append {more : List (Turn α τ)}
    (h : s.Increasing absent (turns ++ more)) : s.Increasing absent turns := by
  rintro before new after rfl
  exact h before new (after ++ more) (by simp)

theorem Increasing.stamp_le (h : s.Increasing absent turns) :
    s.cell.stamp ≤ (s.run absent turns).cell.stamp := by
  induction turns using List.reverseRecOn with
  | nil => exact le_rfl
  | append_singleton turns e ih =>
      refine (ih h.of_append).trans ?_
      rw [run_snoc]
      cases e with
      | write new => exact (h turns new [] rfl).le
      | reader => rw [step_reader_cell]

/-- The reads are in the order of their stamps, up to that of the cell; and the
cell has been read once at most while it is unread or about to be read again,
and not at all when a read of it is overtaken. -/
structure InOrder (s : Reader α τ) : Prop where
  sorted : s.reads.Pairwise (fun c d => c.stamp ≤ d.stamp)
  stamp_le : ∀ c ∈ s.reads, c.stamp ≤ s.cell.stamp
  remembered_le : s.remembered ≤ s.cell.stamp
  last_read : s.Settled → s.reads.getLast? = some s.cell
  count_le : ∀ t, (s.reads.map Cell.stamp).count t ≤ 2
  count_cell : (s.reads.map Cell.stamp).count s.cell.stamp +
    (if s.reading then 1 else 0) +
    (if s.cell.stamp = s.remembered then 0 else 1) ≤ 2

namespace InOrder

theorem write (h : s.InOrder) {new : Cell α τ}
    (hnew : s.cell.stamp < new.stamp) : { s with cell := new }.InOrder := by
  have hunread : (s.reads.map Cell.stamp).count new.stamp = 0 := by
    refine List.count_eq_zero_of_not_mem fun hmem => ?_
    obtain ⟨c, hc, heq⟩ := List.mem_map.mp hmem
    exact (heq ▸ h.stamp_le c hc).not_gt hnew
  have hne : new.stamp ≠ s.remembered :=
    (h.remembered_le.trans_lt hnew).ne'
  refine ⟨h.sorted, fun c hc => (h.stamp_le c hc).trans hnew.le,
    h.remembered_le.trans hnew.le, fun hsettled => absurd hsettled.2 hne,
    h.count_le, ?_⟩
  show (s.reads.map Cell.stamp).count new.stamp + _ + _ ≤ 2
  rw [hunread, if_neg hne]
  split <;> decide

theorem look (h : s.InOrder) (hlooking : s.reading = false) :
    (s.look absent).InOrder := by
  rw [Reader.look]
  split
  · next hchanged =>
      have hcount := h.count_cell
      rw [hlooking, if_neg hchanged.1] at hcount
      refine ⟨h.sorted, h.stamp_le, le_rfl, fun hsettled => ?_, h.count_le, ?_⟩
      · exact absurd hsettled.1 (by simp)
      · simpa using hcount
  · exact h

theorem read (h : s.InOrder) (hreading : s.reading = true) :
    s.read.InOrder := by
  have hcount := h.count_cell
  rw [hreading] at hcount
  have hself : ((s.reads ++ [s.cell]).map Cell.stamp).count s.cell.stamp =
      (s.reads.map Cell.stamp).count s.cell.stamp + 1 := by
    rw [List.map_append, List.count_append]
    simp
  refine ⟨?_, ?_, h.remembered_le, fun _ => by simp [Reader.read], ?_, ?_⟩
  · rw [Reader.read, List.pairwise_append]
    refine ⟨h.sorted, List.pairwise_singleton _ _, ?_⟩
    intro c hc d hd
    rw [List.mem_singleton.mp hd]
    exact h.stamp_le c hc
  · intro c hc
    rcases List.mem_append.mp hc with hold | hlast
    · exact h.stamp_le c hold
    · rw [List.mem_singleton.mp hlast]
      exact le_rfl
  · intro t
    by_cases ht : t = s.cell.stamp
    · rw [ht, Reader.read, hself]
      simp only [if_true] at hcount
      omega
    · have hother : ((s.reads ++ [s.cell]).map Cell.stamp).count t =
          (s.reads.map Cell.stamp).count t := by
        rw [List.map_append, List.count_append]
        simp [Ne.symm ht]
      rw [Reader.read, hother]
      exact h.count_le t
  · rw [Reader.read, hself]
    simpa [Nat.add_right_comm] using hcount

theorem step_reader (h : s.InOrder) : (s.step absent .reader).InOrder := by
  cases hreading : s.reading with
  | true =>
      rw [step_reading hreading]
      exact h.read hreading
  | false =>
      rw [step_looking hreading]
      exact h.look hreading

theorem run (h : s.InOrder) (hinc : s.Increasing absent turns) :
    (s.run absent turns).InOrder := by
  induction turns using List.reverseRecOn with
  | nil => exact h
  | append_singleton turns e ih =>
      have hbefore := ih hinc.of_append
      rw [run_snoc]
      cases e with
      | write new => exact hbefore.write (hinc turns new [] rfl)
      | reader => exact hbefore.step_reader

end InOrder

/-- A reader that has read nothing and looks at a cell with a new stamp. -/
theorem inOrder_of_fresh (hlooking : s.reading = false) (hreads : s.reads = [])
    (hstamp : s.remembered < s.cell.stamp) : s.InOrder where
  sorted := by simp [hreads]
  stamp_le := by simp [hreads]
  remembered_le := hstamp.le
  last_read hsettled := absurd hsettled.2 hstamp.ne'
  count_le := by simp [hreads]
  count_cell := by
    rw [hlooking, hreads, if_neg hstamp.ne']
    simp

/-! ## Enough steps between the writes -/

/-- A write to a settled reader and at least two steps of it. -/
theorem Settled.run_round (h : s.Settled) {new : Cell α τ}
    (hnew : s.cell.stamp < new.stamp) (hpresent : new.stamp ≠ absent)
    {n : ℕ} (hn : 2 ≤ n) :
    s.run absent (.write new :: List.replicate n .reader) =
      { cell := new
        remembered := new.stamp
        reading := false
        reads := s.reads ++ [new] } := by
  set t : Reader α τ := { s with cell := new }
  have hlooking : t.reading = false := h.1
  have hne : new.stamp ≠ s.remembered := h.2 ▸ hnew.ne'
  have hsplit : s.run absent (.write new :: List.replicate n .reader) =
      t.run absent (List.replicate n .reader) := rfl
  rw [hsplit, run_readers_of_looking hlooking hpresent hn,
    run_two_of_looking hlooking hpresent, if_neg hne, Reader.mk.injEq]
  exact ⟨rfl, rfl, h.1, rfl⟩

/-- Writes, each with a number of steps of the reader after it. -/
def rounds (writes : List (Cell α τ × ℕ)) : List (Turn α τ) :=
  writes.flatMap (fun w => .write w.1 :: List.replicate w.2 .reader)

/-- With at least two steps after each write, a settled reader reads every write
exactly once and in order. -/
theorem Settled.reads_rounds (h : s.Settled) {writes : List (Cell α τ × ℕ)}
    (hsteps : ∀ w ∈ writes, 2 ≤ w.2)
    (hpresent : ∀ w ∈ writes, w.1.stamp ≠ absent)
    (hinc : (s.cell :: writes.map Prod.fst).IsChain
      (fun c d => c.stamp < d.stamp)) :
    (s.run absent (rounds writes)).Settled ∧
      (s.run absent (rounds writes)).reads =
        s.reads ++ writes.map Prod.fst := by
  induction writes generalizing s with
  | nil => exact ⟨h, (List.append_nil _).symm⟩
  | cons w writes ih =>
      obtain ⟨hw, hsteps'⟩ := List.forall_mem_cons.mp hsteps
      obtain ⟨hp, hpresent'⟩ := List.forall_mem_cons.mp hpresent
      rw [List.map_cons, List.isChain_cons_cons] at hinc
      have hround := h.run_round hinc.1 hp hw
      have hrun : s.run absent (rounds (w :: writes)) =
          (s.run absent (.write w.1 :: List.replicate w.2 .reader)).run absent
            (rounds writes) := by
        rw [← run_append]
        rfl
      have hnext := ih (s := s.run absent
        (.write w.1 :: List.replicate w.2 .reader)) (by
          rw [hround]
          exact ⟨rfl, rfl⟩) hsteps' hpresent' (by
          rw [hround]
          exact hinc.2)
      rw [hrun]
      refine ⟨hnext.1, hnext.2.trans ?_⟩
      rw [hround, List.map_cons, List.append_assoc, List.singleton_append]

end Reader
end Polling

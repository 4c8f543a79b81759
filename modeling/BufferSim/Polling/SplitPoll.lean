import BufferSim.Polling.StampedCell
import Mathlib.Data.List.Nodup

/-!
# Polls in two steps

A reader that looks at the stamp of a cell and, if the stamp has changed, reads
the cell in a step of its own.  A write can come between the two steps: the
reader then gets the new content under the old stamp, and its next look finds
the new stamp.

Even if every write has a larger stamp than the one before, a write can be read
twice.  `reads_nodup_iff` says exactly when this happens to a write that counts:
a read was overtaken by it, and the next poll is over before another write
comes.
-/

namespace Polling

variable {α τ : Type*}

/-- The next step of the writer or of the reader. -/
inductive Turn (α τ : Type*) where
  | write (cell : Cell α τ)
  | reader
  deriving DecidableEq, Repr

/-- The cell, the stamp that the reader remembers, whether the reader has seen
a change and reads next, and all that it has read. -/
structure Reader (α τ : Type*) where
  cell : Cell α τ
  remembered : τ
  reading : Bool
  reads : List (Cell α τ)

namespace Reader

variable [DecidableEq τ] (absent : τ)

/-- The stamp is not the remembered one, and is not that of a missing cell. -/
def Changed (s : Reader α τ) : Prop :=
  s.cell.stamp ≠ s.remembered ∧ s.cell.stamp ≠ absent

instance (s : Reader α τ) : Decidable (s.Changed absent) :=
  inferInstanceAs
    (Decidable (s.cell.stamp ≠ s.remembered ∧ s.cell.stamp ≠ absent))

def look (s : Reader α τ) : Reader α τ :=
  if s.Changed absent then
    { s with remembered := s.cell.stamp, reading := true }
  else s

def read (s : Reader α τ) : Reader α τ :=
  { s with reading := false, reads := s.reads ++ [s.cell] }

def step (s : Reader α τ) : Turn α τ → Reader α τ
  | .write new => { s with cell := new }
  | .reader => if s.reading then s.read else s.look absent

def run (s : Reader α τ) (turns : List (Turn α τ)) : Reader α τ :=
  turns.foldl (step absent) s

theorem run_append (s : Reader α τ) (xs ys : List (Turn α τ)) :
    s.run absent (xs ++ ys) = (s.run absent xs).run absent ys :=
  List.foldl_append

theorem run_snoc (s : Reader α τ) (turns : List (Turn α τ)) (e : Turn α τ) :
    s.run absent (turns ++ [e]) = (s.run absent turns).step absent e :=
  s.run_append absent turns [e]

/-- The reader reads next, but the cell has changed since it looked. -/
def Overtaken (s : Reader α τ) : Prop :=
  s.reading = true ∧ s.Changed absent

/-- An overtaken read of a cell that counts is followed by a whole poll before
another write. -/
def Repeats (counts : Cell α τ → Bool) (s : Reader α τ)
    (turns : List (Turn α τ)) : Prop :=
  ∃ before after,
    turns = before ++ [.reader, .reader, .reader] ++ after ∧
      (s.run absent before).Overtaken absent ∧
      counts (s.run absent before).cell = true

variable {absent} {counts : Cell α τ → Bool} {s : Reader α τ}
  {turns : List (Turn α τ)}

@[simp] theorem step_reader_cell (s : Reader α τ) :
    (s.step absent .reader).cell = s.cell := by
  simp only [step, read, look]
  split
  · rfl
  · split <;> rfl

theorem Repeats.append (h : s.Repeats absent counts turns)
    (more : List (Turn α τ)) : s.Repeats absent counts (turns ++ more) := by
  obtain ⟨before, after, rfl, hover⟩ := h
  exact ⟨before, after ++ more, by simp, hover⟩

/-- What was read stays on record. -/
theorem reads_prefix_run (s : Reader α τ) (turns : List (Turn α τ)) :
    s.reads <+: (s.run absent turns).reads := by
  induction turns using List.reverseRecOn with
  | nil => exact List.prefix_refl _
  | append_singleton turns e ih =>
      refine ih.trans ?_
      rw [run_snoc]
      cases e with
      | write new => exact List.prefix_refl _
      | reader =>
          by_cases hreading : (s.run absent turns).reading = true
          · simp [step, hreading, read]
          · simp only [step, hreading, look, Bool.false_eq_true, if_false]
            split <;> exact List.prefix_refl _

/-- After an overtaken read the next poll reads the same cell again. -/
theorem Overtaken.reads_twice (h : s.Overtaken absent) :
    (s.run absent [.reader, .reader, .reader]).reads =
      s.reads ++ [s.cell, s.cell] := by
  obtain ⟨hreading, hchanged⟩ := h
  have hread : s.step absent .reader = s.read := by
    simp [step, hreading]
  have hlook : s.read.step absent .reader =
      { s.read with remembered := s.cell.stamp, reading := true } :=
    if_pos hchanged
  show (((s.step absent .reader).step absent .reader).step absent
    .reader).reads = _
  rw [hread, hlook]
  simp [step, read]

theorem Repeats.not_nodup (h : s.Repeats absent counts turns) :
    ¬ ((s.run absent turns).reads.filter counts).Nodup := by
  obtain ⟨before, after, rfl, hover, hcounts⟩ := h
  rw [run_append, run_append]
  intro hnodup
  have hreads : (((s.run absent before).run absent
        [.reader, .reader, .reader]).reads.filter counts).Sublist
      ((((s.run absent before).run absent
        [.reader, .reader, .reader]).run absent after).reads.filter counts) :=
    (reads_prefix_run _ after).sublist.filter counts
  rw [hover.reads_twice, List.filter_append] at hreads
  have htwice := (List.nodup_append.mp (hnodup.sublist hreads)).2.1
  simp [hcounts] at htwice

/-! ## Without repeats -/

/-- Every write has a larger stamp than the cell that it replaces. -/
def Increasing [LT τ] (absent : τ) (s : Reader α τ)
    (turns : List (Turn α τ)) : Prop :=
  ∀ before new after, turns = before ++ .write new :: after →
    (s.run absent before).cell.stamp < new.stamp

variable [Preorder τ]

/-- What holds after `turns` as long as nothing that counts is repeated.  The
cell is still unread, unless it does not count, its stamp is the remembered one,
or an overtaken read has just taken it. -/
structure ReadOnce (absent : τ) (counts : Cell α τ → Bool) (s : Reader α τ)
    (turns : List (Turn α τ)) : Prop where
  nodup : ((s.run absent turns).reads.filter counts).Nodup
  stamp_le : ∀ c ∈ (s.run absent turns).reads,
    c.stamp ≤ (s.run absent turns).cell.stamp
  unread_of_reading : (s.run absent turns).reading = true →
    counts (s.run absent turns).cell = true →
    (s.run absent turns).cell ∉ (s.run absent turns).reads ∨
      ∃ before, turns = before ++ [.reader, .reader] ∧
        (s.run absent before).Overtaken absent
  unread_of_changed : (s.run absent turns).reading = false →
    (s.run absent turns).Changed absent →
    counts (s.run absent turns).cell = true →
    (s.run absent turns).cell ∉ (s.run absent turns).reads ∨
      ∃ before, turns = before ++ [.reader] ∧
        (s.run absent before).Overtaken absent

namespace ReadOnce

theorem write (h : ReadOnce absent counts s turns) {new : Cell α τ}
    (hnew : (s.run absent turns).cell.stamp < new.stamp) :
    ReadOnce absent counts s (turns ++ [.write new]) := by
  have hrun : s.run absent (turns ++ [.write new]) =
      { s.run absent turns with cell := new } := s.run_snoc absent turns _
  have hunread : new ∉ (s.run absent turns).reads := by
    intro hmem
    exact (h.stamp_le new hmem).not_gt hnew
  constructor
  · simpa only [hrun] using h.nodup
  · intro c hc
    simp only [hrun] at hc ⊢
    exact (h.stamp_le c hc).trans hnew.le
  · intro _ _
    simpa only [hrun] using Or.inl hunread
  · intro _ _ _
    simpa only [hrun] using Or.inl hunread

theorem look (h : ReadOnce absent counts s turns)
    (hreading : (s.run absent turns).reading = false) :
    ReadOnce absent counts s (turns ++ [.reader]) := by
  have hrun : s.run absent (turns ++ [.reader]) =
      (s.run absent turns).look absent := by
    simp [run_snoc, step, hreading]
  by_cases hchanged : (s.run absent turns).Changed absent
  · rw [Reader.look, if_pos hchanged] at hrun
    constructor
    · simpa only [hrun] using h.nodup
    · simpa only [hrun] using h.stamp_le
    · intro _ hcounts
      simp only [hrun] at hcounts ⊢
      refine (h.unread_of_changed hreading hchanged hcounts).imp_right ?_
      rintro ⟨before, rfl, hover⟩
      exact ⟨before, by simp, hover⟩
    · intro hlooking
      simp [hrun] at hlooking
  · rw [Reader.look, if_neg hchanged] at hrun
    constructor
    · simpa only [hrun] using h.nodup
    · simpa only [hrun] using h.stamp_le
    · intro hnow
      simp [hrun, hreading] at hnow
    · intro _ hnow _
      exact absurd (hrun ▸ hnow) hchanged

theorem read (h : ReadOnce absent counts s turns)
    (hreading : (s.run absent turns).reading = true)
    (hnever : ¬ s.Repeats absent counts (turns ++ [.reader])) :
    ReadOnce absent counts s (turns ++ [.reader]) := by
  have hrun : s.run absent (turns ++ [.reader]) =
      (s.run absent turns).read := by
    simp [run_snoc, step, hreading]
  have hunread : counts (s.run absent turns).cell = true →
      (s.run absent turns).cell ∉ (s.run absent turns).reads := by
    intro hcounts
    refine (h.unread_of_reading hreading hcounts).resolve_right ?_
    rintro ⟨before, rfl, hover⟩
    refine hnever ⟨before, [], by simp, hover, ?_⟩
    simpa [run_append, run] using hcounts
  constructor
  · simp only [hrun, Reader.read, List.filter_append, List.nodup_append]
    refine ⟨h.nodup, (List.nodup_singleton _).filter counts, ?_⟩
    rintro c hc d hd rfl
    obtain ⟨hcell, hcounts⟩ := List.mem_filter.mp hd
    obtain rfl := List.mem_singleton.mp hcell
    exact hunread hcounts (List.mem_filter.mp hc).1
  · intro c hc
    simp only [hrun, Reader.read, List.mem_append, List.mem_singleton]
      at hc ⊢
    rcases hc with hc | rfl
    · exact h.stamp_le c hc
    · exact le_refl _
  · intro hnow
    simp [hrun, Reader.read] at hnow
  · -- the read was overtaken if the stamp still differs
    intro _ hchanged _
    rw [hrun] at hchanged
    exact Or.inr ⟨turns, rfl, hreading, hchanged⟩

end ReadOnce

theorem readOnce_run (hlooking : s.reading = false) (hreads : s.reads = [])
    (hinc : s.Increasing absent turns)
    (hnever : ¬ s.Repeats absent counts turns) :
    ReadOnce absent counts s turns := by
  induction turns using List.reverseRecOn with
  | nil =>
      constructor
      · simp [run, hreads]
      · simp [run, hreads]
      · intro hreading
        simp [run, hlooking] at hreading
      · simp [run, hreads]
  | append_singleton turns e ih =>
      have hinc' : s.Increasing absent turns := by
        rintro before new after rfl
        exact hinc before new (after ++ [e]) (by simp)
      have hbefore := ih hinc' (fun h => hnever (h.append [e]))
      cases e with
      | write new => exact hbefore.write (hinc turns new [] rfl)
      | reader =>
          cases hreading : (s.run absent turns).reading with
          | false => exact hbefore.look hreading
          | true => exact hbefore.read hreading hnever

/-- No write that counts is read twice exactly when no overtaken read of one is
followed by a poll of the same cell. -/
theorem reads_nodup_iff (hlooking : s.reading = false) (hreads : s.reads = [])
    (hinc : s.Increasing absent turns) :
    ((s.run absent turns).reads.filter counts).Nodup ↔
      ¬ s.Repeats absent counts turns := by
  constructor
  · intro hnodup hrepeats
    exact hrepeats.not_nodup hnodup
  · intro hnever
    exact (readOnce_run hlooking hreads hinc hnever).nodup

end Reader
end Polling

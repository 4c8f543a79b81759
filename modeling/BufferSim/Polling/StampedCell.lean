import Mathlib.Data.List.Induction
import Mathlib.Order.Basic

/-!
# Polling a stamped cell

A writer and a reader share one cell.  Every write replaces the content and
sets a stamp.  The reader remembers a stamp; a poll reads the cell only when
its stamp is not the remembered one.

Stamps may repeat, so a poll can miss a write.  `upToDate_iff` says exactly when
none is missed: between two consecutive polls, equal stamps must mean equal
contents.
-/

namespace Polling

variable {α τ : Type*}

/-- A content and the stamp of the write that stored it. -/
structure Cell (α τ : Type*) where
  content : α
  stamp : τ
  deriving DecidableEq, Repr

inductive Event (α τ : Type*) where
  | write (cell : Cell α τ)
  | poll
  deriving DecidableEq, Repr

/-- The cell, and what the reader remembers of it. -/
structure State (α τ : Type*) where
  cell : Cell α τ
  remembered : τ
  lastRead : Option α

/-- Follow the cell, and the cell as it stood at the last poll. -/
def observe (seen : Cell α τ × Option (Cell α τ)) :
    Event α τ → Cell α τ × Option (Cell α τ)
  | .write new => (new, seen.2)
  | .poll => (seen.1, some seen.1)

/-- The cell after some events. -/
def cellAfter (start : Cell α τ) (events : List (Event α τ)) : Cell α τ :=
  (events.foldl observe (start, none)).1

/-- The cell as it stood at the last of the polls, if there was one. -/
def lastPolled (start : Cell α τ) (events : List (Event α τ)) :
    Option (Cell α τ) :=
  (events.foldl observe (start, none)).2

@[simp] theorem cellAfter_snoc_write (start new : Cell α τ)
    (events : List (Event α τ)) :
    cellAfter start (events ++ [.write new]) = new := by
  simp [cellAfter, observe]

@[simp] theorem cellAfter_snoc_poll (start : Cell α τ)
    (events : List (Event α τ)) :
    cellAfter start (events ++ [.poll]) = cellAfter start events := by
  simp [cellAfter, observe]

@[simp] theorem lastPolled_nil (start : Cell α τ) :
    lastPolled start [] = none := rfl

@[simp] theorem lastPolled_snoc_write (start new : Cell α τ)
    (events : List (Event α τ)) :
    lastPolled start (events ++ [.write new]) = lastPolled start events := by
  simp [lastPolled, observe]

@[simp] theorem lastPolled_snoc_poll (start : Cell α τ)
    (events : List (Event α τ)) :
    lastPolled start (events ++ [.poll]) = some (cellAfter start events) := by
  simp [lastPolled, cellAfter, observe]

/-- At every poll, a stamp that has not changed since the previous poll belongs
to a content that has not changed either. -/
def Distinguishes (start : Cell α τ) (events : List (Event α τ)) : Prop :=
  ∀ before after, events = before ++ .poll :: after →
    ∀ old ∈ lastPolled start before,
      old.stamp = (cellAfter start before).stamp →
        old.content = (cellAfter start before).content

variable [DecidableEq τ]

namespace State

/-- Read the cell unless its stamp is the remembered one. -/
def poll (s : State α τ) : State α τ :=
  if s.cell.stamp = s.remembered then s
  else { s with remembered := s.cell.stamp, lastRead := some s.cell.content }

def step (s : State α τ) : Event α τ → State α τ
  | .write new => { s with cell := new }
  | .poll => s.poll

def run (s : State α τ) (events : List (Event α τ)) : State α τ :=
  events.foldl step s

@[simp] theorem run_nil (s : State α τ) : s.run [] = s := rfl

theorem run_snoc (s : State α τ) (events : List (Event α τ))
    (e : Event α τ) : s.run (events ++ [e]) = (s.run events).step e := by
  simp [run]

theorem run_cell (s : State α τ) (events : List (Event α τ)) :
    (s.run events).cell = cellAfter s.cell events := by
  induction events using List.reverseRecOn with
  | nil => rfl
  | append_singleton events e ih =>
      rw [run_snoc]
      cases e with
      | write new => simp [step]
      | poll =>
          rw [cellAfter_snoc_poll, ← ih, step, poll]
          split <;> rfl

/-- After every poll the content read last is the content of the cell. -/
def UpToDate (s : State α τ) (events : List (Event α τ)) : Prop :=
  ∀ before after, events = before ++ .poll :: after →
    (s.run (before ++ [.poll])).lastRead =
      some (cellAfter s.cell before).content

theorem UpToDate.of_append {s : State α τ} {before after : List (Event α τ)}
    (h : s.UpToDate (before ++ after)) : s.UpToDate before := by
  rintro xs ys rfl
  exact h xs (ys ++ after) (by simp)

/-- The reader remembers the stamp of the cell at the last poll. -/
theorem remembered_of_lastPolled (s : State α τ) (events : List (Event α τ))
    {old : Cell α τ} (hold : old ∈ lastPolled s.cell events) :
    (s.run events).remembered = old.stamp := by
  induction events using List.reverseRecOn with
  | nil => simp at hold
  | append_singleton events e ih =>
      rw [run_snoc]
      cases e with
      | write new =>
          rw [lastPolled_snoc_write] at hold
          exact ih hold
      | poll =>
          rw [lastPolled_snoc_poll, Option.mem_some_iff] at hold
          rw [← hold, ← run_cell, step, poll]
          split
          · next hsame => exact hsame.symm
          · rfl

/-- Without any poll the reader remembers what it remembered at the start. -/
theorem remembered_of_not_polled (s : State α τ) (events : List (Event α τ))
    (hnone : lastPolled s.cell events = none) :
    (s.run events).remembered = s.remembered := by
  induction events using List.reverseRecOn with
  | nil => rfl
  | append_singleton events e ih =>
      cases e with
      | write new =>
          rw [lastPolled_snoc_write] at hnone
          rw [run_snoc]
          exact ih hnone
      | poll => simp at hnone

/-- If no poll missed a write, the reader has read the cell of the last one. -/
theorem UpToDate.lastRead_eq {s : State α τ} {events : List (Event α τ)}
    (h : s.UpToDate events) {old : Cell α τ}
    (hold : old ∈ lastPolled s.cell events) :
    (s.run events).lastRead = some old.content := by
  induction events using List.reverseRecOn with
  | nil => simp at hold
  | append_singleton events e ih =>
      cases e with
      | write new =>
          rw [lastPolled_snoc_write] at hold
          rw [run_snoc]
          exact ih h.of_append hold
      | poll =>
          rw [lastPolled_snoc_poll, Option.mem_some_iff] at hold
          rw [← hold]
          exact h events [] rfl

/-- One more poll misses no write exactly when an unchanged stamp means an
unchanged content. -/
theorem lastRead_snoc_poll_iff {s : State α τ} {events : List (Event α τ)}
    (hfresh : (cellAfter s.cell events).stamp ≠ s.remembered)
    (h : s.UpToDate events) :
    (s.run (events ++ [.poll])).lastRead =
        some (cellAfter s.cell events).content ↔
      ∀ old ∈ lastPolled s.cell events,
        old.stamp = (cellAfter s.cell events).stamp →
          old.content = (cellAfter s.cell events).content := by
  have hcell := run_cell s events
  rw [run_snoc, step, poll, hcell]
  cases hpolled : lastPolled s.cell events with
  | none =>
      have hremembered := remembered_of_not_polled s events hpolled
      rw [hremembered, if_neg hfresh]
      simp
  | some old =>
      have hremembered := remembered_of_lastPolled s events hpolled
      have hread := h.lastRead_eq hpolled
      by_cases hstamp : (cellAfter s.cell events).stamp = old.stamp
      · rw [hremembered, if_pos hstamp, hread]
        simp [hstamp]
      · rw [hremembered, if_neg hstamp]
        simp [Ne.symm hstamp]

/-- No poll misses a write exactly when the stamps distinguish the contents at
consecutive polls. -/
theorem upToDate_iff (s : State α τ) (events : List (Event α τ))
    (hfresh : ∀ before after, events = before ++ after →
      (cellAfter s.cell before).stamp ≠ s.remembered) :
    s.UpToDate events ↔ Distinguishes s.cell events := by
  constructor
  · rintro h before after rfl
    exact (lastRead_snoc_poll_iff (hfresh before _ rfl) h.of_append).mp
      (h before after rfl)
  · induction events using List.reverseRecOn with
    | nil =>
        intro _ before after hsplit
        simp at hsplit
    | append_singleton events e ih =>
        intro h
        have hinit : s.UpToDate events := by
          apply ih
          · rintro before after rfl
            exact hfresh before (after ++ [e]) (by simp)
          · rintro before after rfl
            exact h before (after ++ [e]) (by simp)
        intro before after hsplit
        rcases List.eq_nil_or_concat after with rfl | ⟨init, last, rfl⟩
        · -- the poll is the last event
          obtain ⟨rfl, rfl⟩ : events = before ∧ e = .poll := by
            simpa using hsplit
          exact (lastRead_snoc_poll_iff (hfresh events _ rfl) hinit).mpr
            (h events [] rfl)
        · apply hinit before init
          have hsplit' : events ++ [e] = (before ++ .poll :: init) ++ [last] := by
            simpa using hsplit
          exact (List.append_inj' hsplit' rfl).1

end State
end Polling

import Mathlib.Data.List.Rotate

/-!
# Arrays read circularly from a hand

An array and a hand index are read as the list that starts at the hand and
wraps around.  Overwriting the cell under the hand and advancing the hand by
one, modulo the length, moves the head of that list to its back.  A hand that
passes over some cells updates these cells only.
-/

namespace Cxx

variable {α : Type*}

/-- The cells other than the one under the hand, in circular order. -/
def behindHand (cells : List α) (hand : ℕ) : List α :=
  cells.drop (hand + 1) ++ cells.take hand

theorem rotate_eq_cons {cells : List α} {hand : ℕ}
    (hhand : hand < cells.length) :
    cells.rotate hand = cells[hand] :: behindHand cells hand := by
  rw [List.rotate_eq_drop_append_take hhand.le,
    List.drop_eq_getElem_cons hhand, List.cons_append, behindHand]

/-- Overwrite the cell under the hand and advance the hand. -/
theorem rotate_set_succ {cells : List α} {hand : ℕ}
    (hhand : hand < cells.length) (x : α) :
    (cells.set hand x).rotate ((hand + 1) % cells.length) =
      behindHand cells hand ++ [x] := by
  have hsplit : cells.set hand x =
      (cells.take hand ++ [x]) ++ cells.drop (hand + 1) := by
    rw [List.set_eq_take_cons_drop x hhand]
    simp
  have hlen : (cells.take hand ++ [x]).length = hand + 1 := by
    rw [List.length_append, List.length_take, List.length_singleton]
    omega
  have hmod : (cells.set hand x).rotate ((hand + 1) % cells.length) =
      (cells.set hand x).rotate (hand + 1) := by
    have hlen' : (cells.set hand x).length = cells.length := List.length_set
    rw [← hlen', List.rotate_mod]
  rw [hmod, hsplit, ← hlen, List.rotate_append_length_eq, behindHand, hlen,
    List.append_assoc]

/-! ## Updates in circular order -/

/-- The cells after a hand that starts at `hand` has passed over `n` cells and
updated each of them. -/
def updateFrom (f : α → α) (cells : List α) (hand : ℕ) : ℕ → List α
  | 0 => cells
  | n + 1 => (updateFrom f cells hand n).modify ((hand + n) % cells.length) f

variable {f : α → α} {cells : List α} {hand : ℕ}

theorem set_eq_modify {i : ℕ} {a : α} (h : cells[i]? = some a) :
    cells.set i (f a) = cells.modify i f := by
  obtain ⟨hlt, hget⟩ := List.getElem?_eq_some_iff.mp h
  rw [List.set_eq_take_cons_drop _ hlt, List.modify_eq_take_cons_drop hlt, hget]

/-- The positions of one turn are different. -/
theorem circular_ne {size i j : ℕ} (hij : i < j) (hj : j < i + size) :
    (hand + i) % size ≠ (hand + j) % size := by
  intro heq
  have hzero := Nat.sub_mod_eq_zero_of_mod_eq heq.symm
  rw [Nat.add_sub_add_left, Nat.mod_eq_of_lt (by omega)] at hzero
  omega

/-- The cells that the hand does not pass keep their contents. -/
theorem getElem?_updateFrom_of_ne {n i : ℕ}
    (h : ∀ j < n, (hand + j) % cells.length ≠ i) :
    (updateFrom f cells hand n)[i]? = cells[i]? := by
  induction n with
  | zero => rfl
  | succ n ih =>
      rw [updateFrom, List.getElem?_modify_ne _ _ (h n (Nat.lt_succ_self n))]
      exact ih (fun j hj => h j (Nat.lt_succ_of_lt hj))

/-- In one turn each cell that the hand passes is updated once. -/
theorem getElem?_updateFrom_of_lt {n j : ℕ} (hn : n ≤ cells.length)
    (hj : j < n) :
    (updateFrom f cells hand n)[(hand + j) % cells.length]? =
      cells[(hand + j) % cells.length]?.map f := by
  induction n with
  | zero => exact absurd hj (Nat.not_lt_zero j)
  | succ n ih =>
      rw [updateFrom]
      rcases Nat.lt_succ_iff_lt_or_eq.mp hj with hlt | rfl
      · have hturn : n < j + cells.length := by omega
        have hne : (hand + j) % cells.length ≠ (hand + n) % cells.length :=
          circular_ne hlt hturn
        rw [List.getElem?_modify_ne _ _ hne.symm]
        exact ih (Nat.le_of_lt hn) hlt
      · have hpassed : ∀ i < j,
            (hand + i) % cells.length ≠ (hand + j) % cells.length := by
          intro i hi
          exact circular_ne hi (by omega)
        rw [List.getElem?_modify_eq, getElem?_updateFrom_of_ne hpassed]
        rfl

/-- What the updates keep of each cell is kept of the array. -/
theorem map_updateFrom {β : Type*} {g : α → β} (hg : ∀ a, g (f a) = g a)
    (n : ℕ) : (updateFrom f cells hand n).map g = cells.map g := by
  induction n with
  | zero => rfl
  | succ n ih =>
      rw [updateFrom, ← ih]
      refine List.ext_getElem? fun i => ?_
      rw [List.getElem?_map, List.getElem?_map, List.getElem?_modify]
      split
      · next heq =>
          subst heq
          cases (updateFrom f cells hand n)[(hand + n) % cells.length]? with
          | none => rfl
          | some a => simp [hg]
      · simp

end Cxx

import Mathlib.Data.Finmap

/-!
# A map that inverts an array

A map from values to indices next to an array of which the first `count` cells
are filled.  It is the inverse of the filled part when it sends each value to
the one filled cell that holds it, and nothing else anywhere.  Filling the next
cell and replacing a filled one keep it so.
-/

namespace Cxx

variable {α : Type*}

abbrev IndexMap (α : Type*) := Finmap (fun _ : α => ℕ)

variable [DecidableEq α]

/-- The map is the inverse of the first `count` cells. -/
def Indexes (m : IndexMap α) (cells : List α) (count : ℕ) : Prop :=
  ∀ p i, m.lookup p = some i ↔ i < count ∧ cells[i]? = some p

namespace Indexes

variable {m : IndexMap α} {cells : List α} {count : ℕ} {p : α}

/-- Fill the next cell with a value that is not in the map. -/
theorem load (h : Indexes m cells count) (hlt : count < cells.length)
    (hnew : m.lookup p = none) :
    Indexes (m.insert p count) (cells.set count p) (count + 1) := by
  intro q j
  by_cases hqp : q = p
  · subst hqp
    rw [Finmap.lookup_insert, Option.some.injEq]
    constructor
    · rintro rfl
      exact ⟨Nat.lt_succ_self _, List.getElem?_set_self hlt⟩
    · rintro ⟨hj, hget⟩
      by_contra hne
      rw [List.getElem?_set_ne hne] at hget
      have hold := (h q j).mpr ⟨by omega, hget⟩
      rw [hnew] at hold
      exact absurd hold (by simp)
  · rw [Finmap.lookup_insert_of_ne _ hqp, h q j]
    constructor
    · rintro ⟨hj, hget⟩
      exact ⟨by omega, by rw [List.getElem?_set_ne (by omega)]; exact hget⟩
    · rintro ⟨hj, hget⟩
      have hne : count ≠ j := by
        rintro rfl
        rw [List.getElem?_set_self hlt, Option.some.injEq] at hget
        exact hqp hget.symm
      rw [List.getElem?_set_ne hne] at hget
      exact ⟨by omega, hget⟩

/-- Replace the value of a filled cell by one that is not in the map. -/
theorem replace (h : Indexes m cells count) {i : ℕ} {v : α}
    (hi : i < count) (hv : cells[i]? = some v) (hnew : m.lookup p = none) :
    Indexes ((m.erase v).insert p i) (cells.set i p) count := by
  have hlt : i < cells.length := (List.getElem?_eq_some_iff.mp hv).1
  intro q j
  by_cases hqp : q = p
  · subst hqp
    rw [Finmap.lookup_insert, Option.some.injEq]
    constructor
    · rintro rfl
      exact ⟨hi, List.getElem?_set_self hlt⟩
    · rintro ⟨hj, hget⟩
      by_contra hne
      rw [List.getElem?_set_ne hne] at hget
      have hold := (h q j).mpr ⟨hj, hget⟩
      rw [hnew] at hold
      exact absurd hold (by simp)
  · rw [Finmap.lookup_insert_of_ne _ hqp]
    by_cases hqv : q = v
    · subst hqv
      rw [Finmap.lookup_erase]
      constructor
      · simp
      · rintro ⟨hj, hget⟩
        -- the only cell that held the old value is overwritten
        have hne : i ≠ j := by
          rintro rfl
          rw [List.getElem?_set_self hlt, Option.some.injEq] at hget
          exact hqp hget.symm
        rw [List.getElem?_set_ne hne] at hget
        have hsame := ((h q i).mpr ⟨hi, hv⟩).symm.trans ((h q j).mpr ⟨hj, hget⟩)
        exact absurd (Option.some.inj hsame) hne
    · rw [Finmap.lookup_erase_ne hqv, h q j]
      by_cases hij : i = j
      · subst hij
        rw [List.getElem?_set_self hlt, hv]
        simp [Ne.symm hqp, Ne.symm hqv]
      · rw [List.getElem?_set_ne hij]

end Indexes
end Cxx

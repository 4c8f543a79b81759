import Mathlib.Algebra.Order.Group.Int
import Mathlib.Data.List.Pairwise

/-!
# Consecutive extents

An allocator that hands out one extent of integers after the other, in the
order of the requests.  Extents of requests without negative size are ordered,
so two different ones have no integer in common.
-/

namespace Allocation

variable {κ : Type*}

/-- The integers from `offset` up to, but not including, `offset + size`. -/
structure Extent (κ : Type*) where
  key : κ
  offset : Int
  size : Int
  deriving DecidableEq, Repr

def Extent.Contains (e : Extent κ) (p : Int) : Prop :=
  e.offset ≤ p ∧ p < e.offset + e.size

/-- The integers of an extent in increasing order. -/
def Extent.toList (e : Extent κ) : List Int :=
  (List.range e.size.toNat).map (fun i : ℕ => e.offset + i)

/-- Allocate the requested sizes one after the other, from `next` on. -/
def place (next : Int) : List (κ × Int) → List (Extent κ)
  | [] => []
  | (key, size) :: requests =>
      { key, offset := next, size } :: place (next + size) requests

/-- The first integer that is still free after the requests. -/
def placeEnd (next : Int) : List (κ × Int) → Int
  | [] => next
  | (_, size) :: requests => placeEnd (next + size) requests

@[simp] theorem place_nil (next : Int) :
    place next ([] : List (κ × Int)) = [] := rfl

theorem map_key_place (next : Int) (requests : List (κ × Int)) :
    (place next requests).map Extent.key = requests.map Prod.fst := by
  induction requests generalizing next with
  | nil => rfl
  | cons request requests ih => simp [place, ih]

theorem le_placeEnd (next : Int) {requests : List (κ × Int)}
    (hsize : ∀ r ∈ requests, 0 ≤ r.2) : next ≤ placeEnd next requests := by
  induction requests generalizing next with
  | nil => exact Int.le_refl next
  | cons request requests ih =>
      obtain ⟨key, size⟩ := request
      have hhead : 0 ≤ size := hsize (key, size) List.mem_cons_self
      have := ih (next + size) (fun r hr => hsize r (List.mem_cons_of_mem _ hr))
      simp only [placeEnd]
      omega

/-- Every extent was requested with its size. -/
theorem mem_requests_of_mem_place {next : Int} {requests : List (κ × Int)}
    {e : Extent κ} (he : e ∈ place next requests) :
    (e.key, e.size) ∈ requests := by
  induction requests generalizing next with
  | nil => simp at he
  | cons request requests ih =>
      obtain ⟨key, size⟩ := request
      rcases List.mem_cons.mp he with rfl | hrest
      · exact List.mem_cons_self
      · exact List.mem_cons_of_mem _ (ih hrest)

theorem le_offset_of_mem_place {next : Int} {requests : List (κ × Int)}
    (hsize : ∀ r ∈ requests, 0 ≤ r.2) {e : Extent κ}
    (he : e ∈ place next requests) : next ≤ e.offset := by
  induction requests generalizing next with
  | nil => simp at he
  | cons request requests ih =>
      obtain ⟨key, size⟩ := request
      have hhead : 0 ≤ size := hsize (key, size) List.mem_cons_self
      rcases List.mem_cons.mp he with rfl | hrest
      · exact Int.le_refl next
      · have := ih (fun r hr => hsize r (List.mem_cons_of_mem _ hr)) hrest
        omega

/-- No extent ends behind the last one. -/
theorem add_size_le_placeEnd {next : Int} {requests : List (κ × Int)}
    (hsize : ∀ r ∈ requests, 0 ≤ r.2) {e : Extent κ}
    (he : e ∈ place next requests) :
    e.offset + e.size ≤ placeEnd next requests := by
  induction requests generalizing next with
  | nil => simp at he
  | cons request requests ih =>
      obtain ⟨key, size⟩ := request
      have hrest : ∀ r ∈ requests, 0 ≤ r.2 :=
        fun r hr => hsize r (List.mem_cons_of_mem _ hr)
      rcases List.mem_cons.mp he with rfl | hlater
      · exact le_placeEnd (next + size) hrest
      · exact ih hrest hlater

/-- Each extent ends before the later ones begin. -/
theorem pairwise_place (next : Int) {requests : List (κ × Int)}
    (hsize : ∀ r ∈ requests, 0 ≤ r.2) :
    (place next requests).Pairwise
      (fun a b => a.offset + a.size ≤ b.offset) := by
  induction requests generalizing next with
  | nil => exact List.Pairwise.nil
  | cons request requests ih =>
      obtain ⟨key, size⟩ := request
      have hrest : ∀ r ∈ requests, 0 ≤ r.2 :=
        fun r hr => hsize r (List.mem_cons_of_mem _ hr)
      refine List.pairwise_cons.mpr ⟨?_, ih (next + size) hrest⟩
      intro e he
      exact le_offset_of_mem_place hrest he

/-- The extents leave no gap. -/
theorem exists_contains_iff (next : Int) {requests : List (κ × Int)}
    (hsize : ∀ r ∈ requests, 0 ≤ r.2) (p : Int) :
    (∃ e ∈ place next requests, e.Contains p) ↔
      next ≤ p ∧ p < placeEnd next requests := by
  induction requests generalizing next with
  | nil => simp [placeEnd]
  | cons request requests ih =>
      obtain ⟨key, size⟩ := request
      have hhead : 0 ≤ size := hsize (key, size) List.mem_cons_self
      have hrest : ∀ r ∈ requests, 0 ≤ r.2 :=
        fun r hr => hsize r (List.mem_cons_of_mem _ hr)
      have hend := le_placeEnd (next + size) hrest
      have hfirst : ({ key, offset := next, size } : Extent κ).Contains p ↔
          next ≤ p ∧ p < next + size := Iff.rfl
      simp only [place, placeEnd, List.mem_cons, exists_eq_or_imp,
        ih (next + size) hrest, hfirst]
      omega

/-- An integer belongs to at most one extent. -/
theorem eq_of_contains {next : Int} {requests : List (κ × Int)}
    (hsize : ∀ r ∈ requests, 0 ≤ r.2) {a b : Extent κ}
    (ha : a ∈ place next requests) (hb : b ∈ place next requests)
    {p : Int} (hap : a.Contains p) (hbp : b.Contains p) : a = b := by
  have hpairwise : (place next requests).Pairwise
      (fun a b => ¬(a.Contains p ∧ b.Contains p)) := by
    refine (pairwise_place next hsize).imp ?_
    rintro a b hle ⟨ha, hb⟩
    have hlt := ha.2
    have hge := hb.1
    omega
  by_contra hne
  have hsymm : Std.Symm
      (fun a b : Extent κ => ¬(a.Contains p ∧ b.Contains p)) :=
    ⟨fun a b h => fun hab => h hab.symm⟩
  exact hpairwise.forall ha hb hne ⟨hap, hbp⟩

end Allocation

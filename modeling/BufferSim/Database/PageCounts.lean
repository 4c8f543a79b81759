import BufferSim.Cxx.Double
import BufferSim.Database.PageOffsets

/-!
# Page counts in floating point

The program computes page counts with a floating-point division and
`std::ceil`.  The division rounds, so it could come out above or below an
integer that the exact quotient does not reach.  It never does for values of
type `int`, so page sequences and registry are those of integer arithmetic.
-/

namespace BufferSim

open Cxx

/-- `static_cast<int>(std::ceil(static_cast<double>(n) / d))`. -/
def ceilDouble (n d : Int) : Int :=
  ⌈divDouble (doubleOfInt n) (doubleOfInt d)⌉

/-- `Helpers::generatePageSequence` in the arithmetic of the source. -/
def generatePageSequenceDouble (recordCount pageSize basePageId : Int) :
    List Int :=
  if recordCount ≤ 0 ∨ pageSize ≤ 0 then []
  else
    (List.range (ceilDouble recordCount pageSize).toNat).map
      (fun i : ℕ => int32 (basePageId + i))

/-- The page count of `initPageOffsets` in the arithmetic of the source. -/
def numPagesDouble (rowCount pageSize : Int) : Int :=
  let pages := ceilDouble rowCount pageSize
  if pages = 0 then 1 else pages

/-- The exact quotient rounded up. -/
theorem ceil_div_eq_ceilDiv {n d : Int} (hd : 0 < d) :
    ⌈(n : ℚ) / d⌉ = ceilDiv n d := by
  have hd' : (0 : ℚ) < d := Int.cast_pos.mpr hd
  apply le_antisymm
  · rw [Int.ceil_le, div_le_iff₀ hd']
    have hle := (ceilDiv_le_iff (n := n) (m := ceilDiv n d) hd).mp le_rfl
    rw [mul_comm] at hle
    exact_mod_cast hle
  · rw [ceilDiv_le_iff hd, mul_comm]
    have hle := Int.le_ceil ((n : ℚ) / d)
    rw [div_le_iff₀ hd'] at hle
    exact_mod_cast hle

theorem ceilDouble_eq {n d : Int} (hpos : 0 < d) (hn : |n| ≤ 2 ^ 31)
    (hd : |d| ≤ 2 ^ 31) : ceilDouble n d = ceilDiv n d := by
  rw [ceilDouble, ceil_divDouble hpos, ceil_div_eq_ceilDiv hpos]
  · exact hn.trans_lt (by decide)
  · exact hd.trans_lt (by decide)

/-- For values of type `int` the page counts in floating point are the exact
ones, both of a query and of a table. -/
theorem page_counts_exact {n d : Int} (hn : |n| ≤ 2 ^ 31)
    (hd : |d| ≤ 2 ^ 31) :
    (∀ basePageId, generatePageSequenceDouble n d basePageId =
      generatePageSequence n d basePageId) ∧
    (0 < d → numPagesDouble n d = numPages n d) := by
  constructor
  · intro basePageId
    rw [generatePageSequenceDouble, generatePageSequence]
    by_cases hnone : n ≤ 0 ∨ d ≤ 0
    · rw [if_pos hnone, if_pos hnone]
    · have hpos : 0 < d := not_le.mp fun hle => hnone (Or.inr hle)
      rw [if_neg hnone, if_neg hnone, ceilDouble_eq hpos hn hd]
  · intro hpos
    rw [numPagesDouble, numPages, ceilDouble_eq hpos hn hd]

theorem page_counts_exact_twenty_one :
    generatePageSequenceDouble 21 5 40 = [40, 41, 42, 43, 44] :=
  ((page_counts_exact (by decide : |(21 : Int)| ≤ 2 ^ 31)
    (by decide : |(5 : Int)| ≤ 2 ^ 31)).1 40).trans (by decide)

end BufferSim

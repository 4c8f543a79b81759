import BufferSim.Buffer.Manager
import BufferSim.Cxx.Double

/-!
# Hit and miss ratios

`Metrics::hitRatio` and `Metrics::missRatio` divide two counters as doubles, and
the report prints the quotients with four decimals.  Both steps round.  The
printed number is nevertheless a nearest one to the exact ratio, and the two
printed ratios of a manager add up to one unless the exact ratio lies halfway
between two numbers with four decimals.
-/

namespace BufferSim

open Cxx Numeric

namespace Metrics

/-- `Metrics::hitRatio`. -/
def hitRatio (m : Metrics) : ℚ :=
  if m.totalRequests = 0 then 0
  else divDouble (doubleOfInt m.bufferHits) (doubleOfInt m.totalRequests)

/-- `Metrics::missRatio`. -/
def missRatio (m : Metrics) : ℚ :=
  if m.totalRequests = 0 then 0
  else divDouble (doubleOfInt m.bufferMisses) (doubleOfInt m.totalRequests)

end Metrics

theorem divDouble_nonneg (a b : ℕ) :
    0 ≤ divDouble (doubleOfInt a) (doubleOfInt b) := by
  have hint : ∀ k : ℕ, 0 ≤ doubleOfInt k := fun k =>
    roundBinary_nonneg 53 (by positivity)
  exact roundBinary_nonneg 53 (div_nonneg (hint a) (hint b))

theorem Metrics.hitRatio_nonneg (m : Metrics) : 0 ≤ m.hitRatio := by
  rw [Metrics.hitRatio]
  split
  · exact le_rfl
  · exact divDouble_nonneg _ _

theorem Metrics.missRatio_nonneg (m : Metrics) : 0 ≤ m.missRatio := by
  rw [Metrics.missRatio]
  split
  · exact le_rfl
  · exact divDouble_nonneg _ _

/-- The quotient of two counts in ten-thousandths, as it is printed, is a
nearest one to the exact quotient. -/
theorem fixedUnits_divDouble {a b : ℕ} (hb : 0 < b) (hlt : b < 2 ^ 31)
    (hle : a ≤ b) :
    2 * |((10 ^ 4 * a : ℕ) : Int) -
      (Text.fixedUnits 4 (divDouble (doubleOfInt a) (doubleOfInt b)) : Int) *
        b| ≤ b := by
  have hb' : (0 : ℚ) < b := Nat.cast_pos.mpr hb
  have hsmall : ∀ k : ℕ, k ≤ b → |(k : Int)| < 2 ^ 53 := by
    intro k hk
    rw [abs_of_nonneg (Int.natCast_nonneg k)]
    exact_mod_cast (hk.trans_lt hlt).trans (by decide)
  have herror := abs_divDouble_sub_le (hsmall a hle) (hsmall b le_rfl)
  set y := divDouble (doubleOfInt a) (doubleOfInt b)
  set x : ℚ := (a : Int) / (b : Int) with hx
  have hx0 : 0 ≤ x := div_nonneg (by positivity) (by positivity)
  have hx1 : x ≤ 1 := by
    rw [hx, div_le_one (by exact_mod_cast hb)]
    exact_mod_cast hle
  rw [Text.fixedUnits_eq]
  refine abs_sub_roundEven_mul_le (K := ℚ) (by exact_mod_cast hb) ?_
  have hexact : (((10 ^ 4 * a : ℕ) : Int) : ℚ) / ((b : Int) : ℚ) =
      10 ^ 4 * x := by
    push_cast
    exact mul_div_assoc _ _ _
  have habs : |(|y|) - x| ≤ x / 2 ^ 53 := by
    have hle' := (abs_abs_sub_abs_le y x).trans herror
    rwa [abs_of_nonneg hx0] at hle'
  rw [hexact, ← mul_sub, abs_mul, abs_of_pos (by positivity)]
  calc (10 : ℚ) ^ 4 * |(|y| - x)|
      ≤ 10 ^ 4 * (1 / 2 ^ 53) := by
        refine mul_le_mul_of_nonneg_left (habs.trans ?_) (by positivity)
        exact div_le_div_of_nonneg_right hx1 (by positivity)
    _ < 1 / (2 * 2 ^ 31) := by norm_num
    _ ≤ 1 / (2 * ((b : Int) : ℚ)) := by
        refine one_div_le_one_div_of_le (by positivity) ?_
        exact_mod_cast Nat.mul_le_mul_left 2 hlt.le

/-- The printed ratios of balanced counters are nearest ones to the exact
ratios.  They add up to one, except that they can be off by one unit of the last
decimal if the exact hit ratio lies halfway between two such numbers. -/
theorem Metrics.printed_ratios {m : Metrics}
    (hbalance : m.bufferHits + m.bufferMisses = m.totalRequests)
    (hpos : 0 < m.totalRequests) (hlt : m.totalRequests < 2 ^ 31) :
    2 * |((10 ^ 4 * m.bufferHits : ℕ) : Int) -
        (Text.fixedUnits 4 m.hitRatio : Int) * m.totalRequests| ≤
      m.totalRequests ∧
    2 * |((10 ^ 4 * m.bufferMisses : ℕ) : Int) -
        (Text.fixedUnits 4 m.missRatio : Int) * m.totalRequests| ≤
      m.totalRequests ∧
    |(Text.fixedUnits 4 m.hitRatio : Int) + Text.fixedUnits 4 m.missRatio -
      10 ^ 4| ≤ 1 ∧
    ((∀ j : ℕ, 2 * (10 ^ 4 * m.bufferHits) ≠ (2 * j + 1) * m.totalRequests) →
      Text.fixedUnits 4 m.hitRatio + Text.fixedUnits 4 m.missRatio =
        10 ^ 4) := by
  have hhits : m.bufferHits ≤ m.totalRequests :=
    hbalance ▸ Nat.le_add_right _ _
  have hmisses : m.bufferMisses ≤ m.totalRequests :=
    hbalance ▸ Nat.le_add_left _ _
  have hhit := fixedUnits_divDouble hpos hlt hhits
  have hmiss := fixedUnits_divDouble hpos hlt hmisses
  rw [Metrics.hitRatio, Metrics.missRatio, if_neg hpos.ne', if_neg hpos.ne']
  have hsum : ((10 ^ 4 * m.bufferHits : ℕ) : Int) +
      ((10 ^ 4 * m.bufferMisses : ℕ) : Int) = 10 ^ 4 * m.totalRequests := by
    rw [← hbalance]
    push_cast
    ring
  obtain ⟨hone, hexact⟩ :=
    nearest_add_nearest (by exact_mod_cast hpos) hhit hmiss hsum
  refine ⟨hhit, hmiss, hone, fun hties => ?_⟩
  have htotal := hexact (fun j hj => ?_)
  · exact_mod_cast htotal
  · -- a quotient of counters is halfway only between natural numbers
    have hj0 : 0 ≤ j := by
      by_contra hneg
      have hle : (2 * j + 1) * (m.totalRequests : Int) ≤ 0 :=
        mul_nonpos_of_nonpos_of_nonneg (by omega) (Int.natCast_nonneg _)
      have hzero : m.bufferHits = 0 := by
        push_cast at hj
        omega
      rw [hzero] at hj
      have hne : (m.totalRequests : Int) ≠ 0 := by exact_mod_cast hpos.ne'
      rcases mul_eq_zero.mp (hj.symm.trans (by simp)) with h | h
      · omega
      · exact hne h
    obtain ⟨k, rfl⟩ := Int.eq_ofNat_of_zero_le hj0
    exact hties k (by exact_mod_cast hj)

end BufferSim

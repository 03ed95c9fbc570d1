import Workflow.Proofs.Binary64.Rounding

/-!
# The range of the format for integers

An integer has a nearest number of the format unless it is rounded beyond the largest one.
The largest number has an odd significand, so that the integers out of range begin halfway
from it to the next point of the grid (`Binary64.isSome_ofInt?_iff`).
-/

namespace Workflow

/-- Where the significand of a point of the grid is odd, what lies halfway to the next point
is rounded up. -/
theorem RoundsTo.next_le_iff {v : ℚ} {p q : Nat} (h : RoundsTo v q) (hp : OnGrid p)
    (hnext : OnGrid (p + grain p)) (hodd : p / grain p % 2 = 1) :
    p + grain p ≤ q ↔ (p + (p + grain p : Nat) : ℚ) ≤ 2 * v := by
  have hgrain : (p : ℚ) < (p + grain p : Nat) := by
    exact_mod_cast Nat.lt_add_of_pos_right (grain_pos p)
  constructor
  · intro hle
    have hcast : ((p + grain p : Nat) : ℚ) ≤ q := by exact_mod_cast hle
    by_contra hbelow
    have hcloser : |v - p| < q - v := abs_lt.mpr ⟨by linarith, by linarith⟩
    have hnearest := h.nearest p hp
    rw [abs_sub_comm, abs_of_nonneg (by linarith)] at hnearest
    linarith
  · intro hhalf
    by_contra hbelow
    have hle : q ≤ p := by
      by_contra hmore
      exact hbelow (hp.add_grain_le h.grid (Nat.lt_of_not_le hmore))
    have hcast : (q : ℚ) ≤ p := by exact_mod_cast hle
    have hdistance : |v - q| = v - q := abs_of_nonneg (by linarith)
    have hnot : |v - (p + grain p : Nat)| ≤ v - p := abs_le.mpr ⟨by linarith, by linarith⟩
    have hnearest := h.nearest _ hnext
    have hsame : q = p := by
      have : (p : ℚ) ≤ q := by linarith
      exact Nat.le_antisymm hle (by exact_mod_cast this)
    subst hsame
    have hequal := le_antisymm hnearest (hnot.trans_eq hdistance.symm)
    have heven := h.even _ hnext (Nat.ne_of_gt (Nat.lt_add_of_pos_right (grain_pos q))) hequal
    omega

/-- The first magnitude of an integer that is beyond the largest number of the format. -/
def integerLimit : Nat := Nat.pow 2 1024 - Nat.pow 2 970

/-- The largest number of the format, in quanta. -/
def largestQuanta : Nat := quantaLimit - Nat.pow 2 2045

theorem largestQuanta_add : largestQuanta + grain largestQuanta = quantaLimit := by
  decide +kernel

theorem integerLimit_mul :
    2 * (integerLimit * quantaPerUnit) = largestQuanta + quantaLimit := by decide +kernel

/-- An integer has a nearest number of the format if it is within the range. -/
theorem Binary64.isSome_ofInt?_iff {n : Int} :
    (ofInt? n).isSome ↔ n.natAbs < integerLimit := by
  have hround := roundsTo_roundToGrain (n.natAbs * quantaPerUnit) Nat.one_pos
  have hgrid : OnGrid largestQuanta := by
    show grain largestQuanta ∣ largestQuanta
    decide +kernel
  have hodd : largestQuanta / grain largestQuanta % 2 = 1 := by decide +kernel
  have hbeyond := hround.next_le_iff hgrid (largestQuanta_add ▸ onGrid_quantaLimit) hodd
  have hrange : (ofInt? n).isSome ↔ roundToGrain (n.natAbs * quantaPerUnit) 1 < quantaLimit := by
    have hmod := Nat.mod_eq_zero_of_dvd hround.grid
    unfold ofInt?
    dsimp only
    by_cases hless : roundToGrain (n.natAbs * quantaPerUnit) 1 < quantaLimit
    · rw [dif_pos ⟨hless, hmod⟩]
      exact iff_of_true rfl hless
    · rw [dif_neg fun h => hless h.1]
      exact iff_of_false Bool.false_ne_true hless
  have hhalf : (largestQuanta + (largestQuanta + grain largestQuanta : Nat) : ℚ)
        ≤ 2 * ((n.natAbs * quantaPerUnit : Nat) / (1 : Nat))
      ↔ largestQuanta + quantaLimit ≤ 2 * (n.natAbs * quantaPerUnit) := by
    rw [Nat.cast_one, div_one, largestQuanta_add]
    exact_mod_cast Iff.rfl
  rw [hrange, ← not_le, ← not_le, not_iff_not, ← largestQuanta_add, hbeyond, hhalf,
    ← integerLimit_mul, Nat.mul_le_mul_left_iff Nat.two_pos,
    Nat.mul_le_mul_right_iff quantaPerUnit_pos]

end Workflow

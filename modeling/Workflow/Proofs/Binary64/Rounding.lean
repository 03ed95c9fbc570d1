import Mathlib.Algebra.Order.Field.Rat
import Mathlib.Algebra.Order.Ring.Abs
import Mathlib.Data.Nat.Cast.Order.Field
import Mathlib.Tactic.Linarith
import Mathlib.Tactic.FieldSimp
import Mathlib.Tactic.Ring
import Workflow.Proofs.Binary64.Decimal

/-!
# Rounding to the nearest number of the format

Were there no largest one, the numbers of the format would be those that lie on the grid: a
number of quanta lies on it if the grain at its place divides it. `RoundsTo` says which point
of the grid a rational number is rounded to, without saying how it is found: no other point
is nearer, and of two equally near the one with the even significand is meant. There is just
one such point (`RoundsTo.unique`), and rounding a quotient finds it
(`roundsTo_roundToGrain`).

So a decimal reads as the number nearest to its value (`Decimal.isRead_iff`). The bounds on
the exponent, beyond which a decimal reads as zero or as infinity, make no difference
(`Decimal.toBinary64_eq_nearest`).
-/

namespace Workflow

open Text

/-! ## The grid -/

/-- The numbers of quanta where the numbers of the format lie, but for the largest one. -/
def OnGrid (quanta : Nat) : Prop := grain quanta ∣ quanta

theorem grain_dvd_of_log2_le {quanta k : Nat} (h : quanta.log2 ≤ 52 + k) :
    grain quanta ∣ 2 ^ k :=
  Nat.pow_dvd_pow 2 (by omega)

theorem grain_dvd_grain {p q : Nat} (h : p ≤ q) : grain p ∣ grain q := by
  refine Nat.pow_dvd_pow 2 (Nat.sub_le_sub_right ?_ 52)
  rcases Nat.eq_zero_or_pos p with rfl | hp
  · exact Nat.zero_le _
  · have hq : q ≠ 0 := by omega
    exact (Nat.le_log2 hq).mpr (Nat.le_trans (Nat.log2_self_le (by omega)) h)

/-- At its place, a short multiple of a power of two is no finer than this power. -/
theorem grain_mul_dvd {m : Nat} (hm : m < 2 ^ 53) (k : Nat) : grain (m * 2 ^ k) ∣ 2 ^ k := by
  refine grain_dvd_of_log2_le ?_
  rcases Nat.eq_zero_or_pos m with rfl | hpos
  · rw [Nat.zero_mul]
    exact Nat.zero_le _
  · have hne : m * 2 ^ k ≠ 0 := Nat.mul_ne_zero (by omega) (Nat.ne_of_gt (Nat.two_pow_pos k))
    have hless : m * 2 ^ k < 2 ^ (53 + k) := by
      rw [Nat.pow_add]
      exact Nat.mul_lt_mul_of_pos_right hm (Nat.two_pow_pos k)
    have := (Nat.log2_lt hne).mpr hless
    omega

theorem grain_two_pow (k : Nat) : grain (2 ^ 53 * 2 ^ k) = 2 ^ (k + 1) := by
  rw [← Nat.pow_add, grain, Nat.log2_two_pow, show 53 + k - 52 = k + 1 by omega]
  rfl

theorem onGrid_mul {m : Nat} (hm : m ≤ 2 ^ 53) (k : Nat) : OnGrid (m * 2 ^ k) := by
  unfold OnGrid
  rcases Nat.lt_or_eq_of_le hm with hlt | rfl
  · exact Nat.dvd_mul_left_of_dvd (grain_mul_dvd hlt k) m
  · rw [grain_two_pow, ← Nat.pow_add]
    exact Nat.pow_dvd_pow 2 (by omega)

theorem even_significand {m : Nat} (hm : m ≤ 2 ^ 53) (heven : m % 2 = 0) (k : Nat) :
    m * 2 ^ k / grain (m * 2 ^ k) % 2 = 0 := by
  rcases Nat.lt_or_eq_of_le hm with hlt | rfl
  · rw [Nat.mul_div_assoc m (grain_mul_dvd hlt k), Nat.mul_mod, heven, Nat.zero_mul, Nat.zero_mod]
  · have hsplit : 2 ^ 53 * 2 ^ k = 2 ^ 52 * 2 ^ (k + 1) := by
      rw [← Nat.pow_add, ← Nat.pow_add]
      congr 1
      omega
    rw [grain_two_pow, hsplit, Nat.mul_div_cancel _ (Nat.two_pow_pos _)]
    rfl

/-! ## Rounding -/

/-- The point of the grid to which a number of quanta is rounded: no other is nearer, and it
has an even significand if another is as near. -/
structure RoundsTo (v : ℚ) (q : Nat) : Prop where
  grid : OnGrid q
  nearest : ∀ p, OnGrid p → |v - q| ≤ |v - p|
  even : ∀ p, OnGrid p → p ≠ q → |v - q| = |v - p| → q / grain q % 2 = 0

theorem lt_mul_grain (q : Nat) : q < 2 ^ 53 * grain q := by
  have hgrain : grain q = 2 ^ (q.log2 - 52) := rfl
  rw [hgrain, ← Nat.pow_add]
  exact Nat.lt_of_lt_of_le Nat.lt_log2_self (Nat.pow_le_pow_right (by decide) (by omega))

/-- A point of the grid as a significand and the grain at its place. -/
theorem OnGrid.exists_eq {q : Nat} (h : OnGrid q) :
    ∃ m k, m < 2 ^ 53 ∧ q = m * 2 ^ k ∧ grain q = 2 ^ k := by
  refine ⟨q / grain q, q.log2 - 52, ?_, (Nat.div_mul_cancel h).symm, rfl⟩
  exact (Nat.div_lt_iff_lt_mul (grain_pos q)).mpr (lt_mul_grain q)

/-- Between a point of the grid and the next one there is a grain. -/
theorem OnGrid.add_grain_le {p q : Nat} (hp : OnGrid p) (hq : OnGrid q) (hless : p < q) :
    p + grain p ≤ q := by
  have hdvd : grain p ∣ q - p := Nat.dvd_sub ((grain_dvd_grain hless.le).trans hq) hp
  have := Nat.le_of_dvd (by omega) hdvd
  omega

theorem RoundsTo.not_lt {v : ℚ} {p q : Nat} (h : RoundsTo v p) (h' : RoundsTo v q) :
    ¬ p < q := by
  intro hless
  have hcast : (p : ℚ) < q := by exact_mod_cast hless
  have heq : |v - p| = |v - q| := le_antisymm (h.nearest q h'.grid) (h'.nearest p h.grid)
  have hmiddle : v - p = (q - p) / 2 := by
    rcases abs_eq_abs.mp heq with hsame | hopposite <;> linarith
  obtain ⟨m, k, hm, hpm, hgrain⟩ := h.grid.exists_eq
  have hnext : p + grain p = (m + 1) * 2 ^ k := by
    rw [hgrain, hpm]
    ring
  have hongrid : OnGrid (p + grain p) := hnext ▸ onGrid_mul hm k
  -- There is no point between the two, for it would be nearer.
  have hneighbour : p + grain p = q := by
    refine Nat.le_antisymm (h.grid.add_grain_le h'.grid hless) (Nat.not_lt.mp fun hbetween => ?_)
    have hlow : (p : ℚ) < (p + grain p : Nat) := by
      exact_mod_cast Nat.lt_add_of_pos_right (grain_pos p)
    have hhigh : ((p + grain p : Nat) : ℚ) < q := by exact_mod_cast hbetween
    have hnearer : |v - (p + grain p : Nat)| < |v - p| := by
      rw [hmiddle, abs_of_pos (by linarith : (0 : ℚ) < (q - p) / 2), abs_lt]
      constructor <;> linarith
    exact absurd (h.nearest _ hongrid) (not_le.mpr hnearer)
  have hpeven : m % 2 = 0 := by
    have := h.even q h'.grid (Nat.ne_of_gt hless) heq
    rwa [hgrain, hpm, Nat.mul_div_cancel _ (Nat.two_pow_pos k)] at this
  have hodd : m + 1 < 2 ^ 53 := by omega
  have hqm : q = (m + 1) * 2 ^ k := by omega
  have hqgrain : grain q = 2 ^ k := by
    refine Nat.dvd_antisymm (hqm ▸ grain_mul_dvd hodd k) ?_
    rw [← hgrain]
    exact grain_dvd_grain hless.le
  have hqeven := h'.even p h.grid (Nat.ne_of_lt hless) heq.symm
  rw [hqgrain, hqm, Nat.mul_div_cancel _ (Nat.two_pow_pos k)] at hqeven
  omega

theorem RoundsTo.unique {v : ℚ} {p q : Nat} (h : RoundsTo v p) (h' : RoundsTo v q) : p = q :=
  Nat.le_antisymm (Nat.not_lt.mp (h'.not_lt h)) (Nat.not_lt.mp (h.not_lt h'))

/-! ## Rounding a quotient -/

/-- A quotient is rounded down or up, and to an even number in the middle. -/
theorem roundQuotient_cases (num den : Nat) :
    roundQuotient num den = num / den ∧ 2 * (num % den) ≤ den
        ∧ (2 * (num % den) = den → roundQuotient num den % 2 = 0)
      ∨ roundQuotient num den = num / den + 1 ∧ den ≤ 2 * (num % den)
        ∧ (2 * (num % den) = den → roundQuotient num den % 2 = 0) := by
  unfold roundQuotient
  dsimp only
  split
  · omega
  · split
    · omega
    · split <;> omega

/-- How far a number is from the multiples of another one, below and above. -/
theorem abs_sub_mul (num : Nat) {den : Nat} (hden : 0 < den) (m : Nat) :
    (∃ steps : Nat, m + steps = num / den
        ∧ |(num : ℤ) - m * den| = (num % den : Nat) + steps * den)
      ∨ ∃ steps : Nat, m = num / den + 1 + steps
        ∧ |(num : ℤ) - m * den| = den - (num % den : Nat) + steps * den := by
  have hsplit : (num : ℤ) = (num / den : Nat) * den + (num % den : Nat) := by
    exact_mod_cast (Nat.div_add_mod' num den).symm
  have hless : ((num % den : Nat) : ℤ) < den := by exact_mod_cast Nat.mod_lt num hden
  generalize num / den = q at *
  generalize num % den = r at *
  rcases Nat.lt_or_ge q m with habove | hbelow
  · obtain ⟨steps, rfl⟩ := Nat.exists_eq_add_of_le habove
    have hsteps : (0 : ℤ) ≤ steps * den := by positivity
    refine Or.inr ⟨steps, rfl, ?_⟩
    rw [hsplit, abs_of_nonpos] <;> push_cast <;> linarith
  · obtain ⟨steps, rfl⟩ := Nat.exists_eq_add_of_le hbelow
    have hsteps : (0 : ℤ) ≤ steps * den := by positivity
    refine Or.inl ⟨steps, rfl, ?_⟩
    rw [hsplit, abs_of_nonneg] <;> push_cast <;> linarith

/-- Of all whole numbers the rounded quotient is nearest, and even if another is as near. -/
theorem roundQuotient_nearest (num : Nat) {den : Nat} (hden : 0 < den) (m : Nat) :
    |(num : ℤ) - roundQuotient num den * den| ≤ |(num : ℤ) - m * den|
      ∧ (m ≠ roundQuotient num den →
        |(num : ℤ) - roundQuotient num den * den| = |(num : ℤ) - m * den| →
          roundQuotient num den % 2 = 0) := by
  have hmany : ∀ steps : Nat, (0 : ℤ) ≤ steps * den ∧ (steps ≠ 0 → (den : ℤ) ≤ steps * den) :=
    fun steps => ⟨by positivity, fun hsome => by
      exact_mod_cast Nat.le_mul_of_pos_left den (Nat.pos_of_ne_zero hsome)⟩
  rcases roundQuotient_cases num den with ⟨hdown, hhalf, heven⟩ | ⟨hup, hhalf, heven⟩
  · have hrounded : |(num : ℤ) - roundQuotient num den * den| = (num % den : Nat) := by
      rcases abs_sub_mul num hden (roundQuotient num den) with ⟨s, hs, h⟩ | ⟨s, hs, h⟩
      · obtain rfl : s = 0 := by omega
        simpa using h
      · omega
    rw [hrounded]
    rcases abs_sub_mul num hden m with ⟨s, hs, h⟩ | ⟨s, hs, h⟩
    · obtain ⟨hnonneg, hfar⟩ := hmany s
      refine ⟨by omega, fun hother hsame => heven ?_⟩
      have := hfar (by omega)
      omega
    · obtain ⟨hnonneg, -⟩ := hmany s
      exact ⟨by omega, fun _ hsame => heven (by omega)⟩
  · have hrounded : |(num : ℤ) - roundQuotient num den * den| = den - (num % den : Nat) := by
      rcases abs_sub_mul num hden (roundQuotient num den) with ⟨s, hs, h⟩ | ⟨s, hs, h⟩
      · omega
      · obtain rfl : s = 0 := by omega
        simpa using h
    rw [hrounded]
    rcases abs_sub_mul num hden m with ⟨s, hs, h⟩ | ⟨s, hs, h⟩
    · obtain ⟨hnonneg, -⟩ := hmany s
      exact ⟨by omega, fun _ hsame => heven (by omega)⟩
    · obtain ⟨hnonneg, hfar⟩ := hmany s
      refine ⟨by omega, fun hother hsame => heven ?_⟩
      have := hfar (by omega)
      omega

/-- A point of the grid that is not a multiple of the grain at a place lies below one that
is, and this one not above the place. -/
theorem OnGrid.exists_multiple {n p : Nat} (hp : OnGrid p) (hnot : ¬ grain n ∣ p) :
    ∃ m, p < m * grain n ∧ m * grain n ≤ n := by
  have hleading : 52 ≤ n.log2 := by
    by_contra hsmall
    have hone : grain n = 1 := by
      rw [grain, show n.log2 - 52 = 0 by omega]
    exact hnot (hone ▸ one_dvd p)
  have hn : n ≠ 0 := by
    rintro rfl
    exact absurd hleading (by decide)
  have hplace : 2 ^ 52 * grain n = 2 ^ n.log2 := by
    rw [grain, show (2 : Nat).pow (n.log2 - 52) = 2 ^ (n.log2 - 52) from rfl, ← Nat.pow_add]
    congr 1
    omega
  refine ⟨2 ^ 52, Nat.lt_of_not_le fun hle => hnot ?_, hplace ▸ Nat.log2_self_le hn⟩
  have hpne : p ≠ 0 := by
    rintro rfl
    exact hnot (dvd_zero _)
  rw [hplace] at hle
  exact (Nat.pow_dvd_pow 2 (Nat.sub_le_sub_right ((Nat.le_log2 hpne).mpr hle) 52)).trans hp

/-- How far a quotient is from a multiple of the grain, in units of its divisor. -/
theorem abs_div_sub (num : Nat) {den : Nat} (hden : 0 < den) (m g : Nat) :
    |(num / den : ℚ) - (m * g : Nat)| = |(num : ℤ) - m * (den * g : Nat)| / (den : ℚ) := by
  have hcast : (0 : ℚ) < den := by exact_mod_cast hden
  rw [eq_div_iff hcast.ne', ← abs_of_pos hcast, ← abs_mul, abs_of_pos hcast]
  push_cast
  congr 1
  field_simp

/-- **Rounding finds the point of the grid to which a quotient is rounded.** -/
theorem roundsTo_roundToGrain (num : Nat) {den : Nat} (hden : 0 < den) :
    RoundsTo (num / den) (roundToGrain num den) := by
  have hcast : (0 : ℚ) < den := by exact_mod_cast hden
  have hfloor : ((num / den : Nat) : ℚ) ≤ num / den := Nat.cast_div_le
  have hgrain : grain (num / den) = 2 ^ ((num / den).log2 - 52) := rfl
  have hshort : num / (den * grain (num / den)) < 2 ^ 53 := by
    rw [← Nat.div_div_eq_div_mul]
    exact (Nat.div_lt_iff_lt_mul (grain_pos _)).mpr (lt_mul_grain _)
  unfold roundToGrain
  dsimp only
  generalize num / den = n at *
  have hwidth : 0 < den * grain n := Nat.mul_pos hden (grain_pos n)
  have hnearest := roundQuotient_nearest num hwidth
  have hrounded : roundQuotient num (den * grain n) ≤ 2 ^ 53 := by
    rcases roundQuotient_cases num (den * grain n) with ⟨h, -⟩ | ⟨h, -⟩ <;> omega
  generalize roundQuotient num (den * grain n) = rounded at *
  have hmultiple : ∀ m : Nat,
      |(num / den : ℚ) - (rounded * grain n : Nat)| ≤ |(num / den : ℚ) - (m * grain n : Nat)| := by
    intro m
    rw [abs_div_sub num hden, abs_div_sub num hden]
    exact div_le_div_of_nonneg_right (by exact_mod_cast (hnearest m).1) hcast.le
  -- All other points of the grid are farther than some multiple of the grain.
  have hother : ∀ p, OnGrid p → ¬ grain n ∣ p →
      |(num / den : ℚ) - (rounded * grain n : Nat)| < |(num / den : ℚ) - p| := by
    intro p hp hnot
    obtain ⟨m, hbelow, hplace⟩ := hp.exists_multiple hnot
    have hless : (p : ℚ) < (m * grain n : Nat) := by exact_mod_cast hbelow
    have hle : ((m * grain n : Nat) : ℚ) ≤ n := by exact_mod_cast hplace
    refine lt_of_le_of_lt (hmultiple m) ?_
    rw [abs_of_nonneg (by linarith), abs_of_nonneg (by linarith)]
    linarith
  rw [hgrain] at *
  refine ⟨onGrid_mul hrounded _, fun p hp => ?_, fun p hp hne heq => ?_⟩
  · by_cases hdvd : 2 ^ (n.log2 - 52) ∣ p
    · obtain ⟨m, rfl⟩ := hdvd
      rw [Nat.mul_comm (2 ^ (n.log2 - 52)) m]
      exact hmultiple m
    · exact (hother p hp hdvd).le
  · refine even_significand hrounded ?_ _
    by_cases hdvd : 2 ^ (n.log2 - 52) ∣ p
    · obtain ⟨m, rfl⟩ := hdvd
      rw [Nat.mul_comm (2 ^ (n.log2 - 52)) m] at hne heq
      refine (hnearest m).2 (fun hsame => hne (by rw [hsame])) ?_
      rw [abs_div_sub num hden, abs_div_sub num hden, div_left_inj' hcast.ne'] at heq
      exact_mod_cast heq
    · exact absurd heq (ne_of_lt (hother p hp hdvd))

/-! ## Reading decimals -/

theorem roundToGrain_eq_zero {num den : Nat} (h : 2 * num < den) :
    roundToGrain num den = 0 := by
  have hless : num < den := by omega
  have hone : grain 0 = 1 := rfl
  unfold roundToGrain roundQuotient
  simp only [Nat.div_eq_of_lt hless, hone, Nat.mul_one, Nat.mod_eq_of_lt hless, if_pos h]

/-- A quotient that is not below a point of the grid is not rounded below it. -/
theorem le_roundToGrain {p num den : Nat} (hp : OnGrid p) (hden : 0 < den)
    (h : p * den ≤ num) :
    p ≤ roundToGrain num den := by
  by_contra hbelow
  have hcast : (0 : ℚ) < den := by exact_mod_cast hden
  have hless : (roundToGrain num den : ℚ) < p := by exact_mod_cast not_le.mp hbelow
  have hle : (p : ℚ) ≤ num / den := by
    rw [le_div_iff₀ hcast]
    exact_mod_cast h
  have hnearest := (roundsTo_roundToGrain num hden).nearest p hp
  rw [abs_of_nonneg (by linarith), abs_of_nonneg (by linarith)] at hnearest
  linarith

theorem onGrid_quantaLimit : OnGrid quantaLimit := by
  have hlimit : quantaLimit = 2 ^ 53 * 2 ^ 2045 := by decide +kernel
  rw [hlimit]
  exact onGrid_mul le_rfl 2045

namespace Decimal

def magnitude (d : Decimal) : ℚ := d.coefficient * 10 ^ d.exponent * quantaPerUnit

/-- The number that a decimal stands for in the format: the value of the decimal, rounded, or
infinity if that is out of range. -/
def IsRead (d : Decimal) (x : Binary64) : Prop :=
  ∃ q, RoundsTo d.magnitude q ∧ x = .ofQuanta d.negative q

/-- The magnitude as a quotient of whole numbers. -/
def numerator (d : Decimal) : Nat :=
  d.coefficient * Nat.pow 10 d.exponent.toNat * quantaPerUnit

def denominator (d : Decimal) : Nat := Nat.pow 10 (-d.exponent).toNat

theorem denominator_pos (d : Decimal) : 0 < d.denominator := Nat.pow_pos (by decide)

theorem magnitude_eq (d : Decimal) : d.magnitude = d.numerator / d.denominator := by
  have hten : (10 : ℚ) ≠ 0 := by norm_num
  have hexponent : (10 : ℚ) ^ d.exponent = 10 ^ d.exponent.toNat / 10 ^ (-d.exponent).toNat := by
    rw [← zpow_natCast, ← zpow_natCast, ← zpow_sub₀ hten]
    congr 1
    omega
  have hnumerator : (d.numerator : ℚ) = d.coefficient * 10 ^ d.exponent.toNat * quantaPerUnit := by
    rw [numerator, Nat.cast_mul, Nat.cast_mul]
    congr 2
    exact Nat.cast_pow 10 _
  have hdenominator : (d.denominator : ℚ) = 10 ^ (-d.exponent).toNat := Nat.cast_pow 10 _
  rw [magnitude, hexponent, hnumerator, hdenominator]
  ring

theorem nearest_eq (d : Decimal) :
    d.nearest = .ofRatio d.negative d.numerator d.denominator := by
  unfold nearest numerator denominator
  split
  · rw [show (-d.exponent).toNat = 0 by omega]
  · rw [show d.exponent.toNat = 0 by omega, show Nat.pow 10 0 = 1 from rfl, Nat.mul_one]

theorem ten_pow_mul (m n : Nat) : Nat.pow 10 m * Nat.pow 10 n = Nat.pow 10 (m + n) :=
  (Nat.pow_add 10 m n).symm

theorem pow_le_of_decimalWidth {c : Nat} (hc : c ≠ 0) :
    Nat.pow 10 (decimalWidth c - 1) ≤ c := by
  rcases Nat.eq_zero_or_pos (decimalWidth c - 1) with hone | hmore
  · rw [hone]
    exact Nat.pos_of_ne_zero hc
  · by_contra hless
    have hshorter := (decimalWidth_le_iff hmore).mpr (Nat.lt_of_not_le hless)
    omega

theorem nearest_of_small {d : Decimal} (h : d.leadingExponent < -exponentBound) :
    d.nearest = .zero d.negative := by
  have hsmall : 2 * d.numerator < d.denominator := by
    obtain ⟨k, hk, hbound⟩ : ∃ k, k = 400 ∧ 2 * quantaPerUnit ≤ Nat.pow 10 k :=
      ⟨400, rfl, by decide +kernel⟩
    have hwidth : d.coefficient < Nat.pow 10 (decimalWidth d.coefficient) :=
      (decimalWidth_le_iff (decimalWidth_pos _)).mp le_rfl
    unfold leadingExponent exponentBound at h
    unfold numerator denominator
    rw [show d.exponent.toNat = 0 by omega, show Nat.pow 10 0 = 1 from rfl, Nat.mul_one]
    calc 2 * (d.coefficient * quantaPerUnit)
        = d.coefficient * (2 * quantaPerUnit) := Nat.mul_left_comm _ _ _
      _ < Nat.pow 10 (decimalWidth d.coefficient) * (2 * quantaPerUnit) :=
          Nat.mul_lt_mul_of_pos_right hwidth (Nat.mul_pos (by decide) Binary64.quantaPerUnit_pos)
      _ ≤ Nat.pow 10 (decimalWidth d.coefficient) * Nat.pow 10 k := Nat.mul_le_mul_left _ hbound
      _ = Nat.pow 10 (decimalWidth d.coefficient + k) := ten_pow_mul _ _
      _ ≤ Nat.pow 10 (-d.exponent).toNat := Nat.pow_le_pow_right (by decide) (by omega)
  rw [nearest_eq, Binary64.ofRatio, roundToGrain_eq_zero hsmall]
  exact Binary64.ofQuanta_of_representable _ _

theorem nearest_of_large {d : Decimal} (hsome : d.coefficient ≠ 0)
    (h : exponentBound < d.leadingExponent) : d.nearest = .infinite d.negative := by
  have hlarge : quantaLimit * d.denominator ≤ d.numerator := by
    obtain ⟨k, hk, hbound⟩ : ∃ k, k = 400 ∧ quantaLimit ≤ Nat.pow 10 k * quantaPerUnit :=
      ⟨400, rfl, by decide +kernel⟩
    have hwidth := pow_le_of_decimalWidth hsome
    have hpos := decimalWidth_pos d.coefficient
    unfold leadingExponent exponentBound at h
    unfold numerator denominator
    calc quantaLimit * Nat.pow 10 (-d.exponent).toNat
        ≤ Nat.pow 10 k * quantaPerUnit * Nat.pow 10 (-d.exponent).toNat :=
          Nat.mul_le_mul_right _ hbound
      _ = Nat.pow 10 k * Nat.pow 10 (-d.exponent).toNat * quantaPerUnit :=
          Nat.mul_right_comm _ _ _
      _ = Nat.pow 10 (k + (-d.exponent).toNat) * quantaPerUnit :=
          congrArg (· * quantaPerUnit) (ten_pow_mul _ _)
      _ ≤ Nat.pow 10 (decimalWidth d.coefficient - 1 + d.exponent.toNat) * quantaPerUnit :=
          Nat.mul_le_mul_right _ (Nat.pow_le_pow_right (by decide) (by omega))
      _ = Nat.pow 10 (decimalWidth d.coefficient - 1) * Nat.pow 10 d.exponent.toNat
            * quantaPerUnit := congrArg (· * quantaPerUnit) (ten_pow_mul _ _).symm
      _ ≤ d.coefficient * Nat.pow 10 d.exponent.toNat * quantaPerUnit :=
          Nat.mul_le_mul_right _ (Nat.mul_le_mul_right _ hwidth)
  have hbeyond := le_roundToGrain onGrid_quantaLimit d.denominator_pos hlarge
  rw [nearest_eq, Binary64.ofRatio]
  exact dif_neg fun hrepresentable => absurd hrepresentable.1 (Nat.not_lt.mpr hbeyond)

/-- The bounds on the exponent of the leading digit make no difference. -/
theorem toBinary64_eq_nearest (d : Decimal) : d.toBinary64 = d.nearest := by
  rw [toBinary64_eq]
  split
  · rename_i h
    rcases Bool.or_eq_true_iff.mp h with hzero | hsmall
    · have hnumerator : d.numerator = 0 := by
        rw [numerator, of_decide_eq_true hzero, Nat.zero_mul, Nat.zero_mul]
      have hnone : 2 * d.numerator < d.denominator := hnumerator ▸ d.denominator_pos
      rw [nearest_eq, Binary64.ofRatio, roundToGrain_eq_zero hnone]
      exact (Binary64.ofQuanta_of_representable _ _).symm
    · exact (nearest_of_small (of_decide_eq_true hsmall)).symm
  · rename_i h
    split
    · rename_i hlarge
      refine (nearest_of_large (fun hzero => h ?_) hlarge).symm
      rw [hzero]
      rfl
    · rfl

/-- **A decimal reads as the number nearest to its value.** -/
theorem isRead_iff {d : Decimal} {x : Binary64} : d.IsRead x ↔ x = d.toBinary64 := by
  have hrounds : RoundsTo d.magnitude (roundToGrain d.numerator d.denominator) := by
    rw [magnitude_eq]
    exact roundsTo_roundToGrain _ d.denominator_pos
  rw [toBinary64_eq_nearest, nearest_eq, Binary64.ofRatio]
  constructor
  · rintro ⟨q, hq, hx⟩
    rw [hx, hq.unique hrounds]
  · exact fun hx => ⟨_, hrounds, hx⟩

end Decimal
end Workflow

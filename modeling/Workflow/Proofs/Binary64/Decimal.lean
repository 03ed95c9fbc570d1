import Workflow.Binary64.Decimal
import Workflow.Proofs.Text.Digit

/-!
# Decimals that read as a number

Rounding sees a quotient only by its value (`ofRatio_mul`), so a decimal reads as the same
number when a zero is moved between its coefficient and its exponent (`toBinary64_ten_mul`),
and a number of the format that is a quotient is read as itself (`ofRatio_exact`). With these
the shortest decimal of a finite number reads as this number (`toBinary64_shortest`): the
search only stops at a decimal that does, and the decimal with all digits, where it gives up,
does as well.
-/

namespace Workflow

open Text

/-! ## Rounding -/

theorem roundQuotient_mul {k : Nat} (hk : 0 < k) (num den : Nat) :
    roundQuotient (k * num) (k * den) = roundQuotient num den := by
  have hless : 2 * (k * (num % den)) < k * den ↔ 2 * (num % den) < den := by
    rw [Nat.mul_left_comm, Nat.mul_lt_mul_left hk]
  have hmore : k * den < 2 * (k * (num % den)) ↔ den < 2 * (num % den) := by
    rw [Nat.mul_left_comm, Nat.mul_lt_mul_left hk]
  unfold roundQuotient
  simp only [Nat.mul_div_mul_left _ _ hk, Nat.mul_mod_mul_left, hless, hmore]

theorem roundQuotient_exact {den : Nat} (hden : 0 < den) (q : Nat) :
    roundQuotient (q * den) den = q := by
  unfold roundQuotient
  simp only [Nat.mul_div_cancel q hden, Nat.mul_mod_left, Nat.mul_zero, if_pos hden]

theorem roundToGrain_mul {k : Nat} (hk : 0 < k) (num den : Nat) :
    roundToGrain (k * num) (k * den) = roundToGrain num den := by
  unfold roundToGrain
  simp only [Nat.mul_div_mul_left _ _ hk, Nat.mul_assoc, roundQuotient_mul hk]

theorem grain_pos (quanta : Nat) : 0 < grain quanta := Nat.pow_pos (by decide)

theorem roundToGrain_exact {quanta den : Nat} (h : Representable quanta) (hden : 0 < den) :
    roundToGrain (quanta * den) den = quanta := by
  have hgrain := Nat.div_mul_cancel (Nat.dvd_of_mod_eq_zero h.2)
  have hpos : 0 < den * grain quanta := Nat.mul_pos hden (grain_pos quanta)
  have hsplit : quanta * den = quanta / grain quanta * (den * grain quanta) := by
    rw [Nat.mul_left_comm, hgrain, Nat.mul_comm]
  unfold roundToGrain
  simp only [Nat.mul_div_cancel quanta hden]
  rw [hsplit, roundQuotient_exact hpos, hgrain]

namespace Binary64

theorem ofQuanta_of_representable (negative : Bool) {quanta : Nat} (h : Representable quanta) :
    ofQuanta negative quanta = .finite negative quanta h :=
  dif_pos h

theorem ofRatio_mul (negative : Bool) {k : Nat} (hk : 0 < k) (num den : Nat) :
    ofRatio negative (k * num) (k * den) = ofRatio negative num den := by
  rw [ofRatio, roundToGrain_mul hk, ofRatio]

theorem ofRatio_exact (negative : Bool) {quanta den : Nat} (h : Representable quanta)
    (hden : 0 < den) : ofRatio negative (quanta * den) den = .finite negative quanta h := by
  rw [ofRatio, roundToGrain_exact h hden, ofQuanta_of_representable]

end Binary64

/-! ## Decimals of one value -/

namespace Decimal

theorem toBinary64_zero (negative : Bool) (exponent : Int) :
    toBinary64 ⟨negative, 0, exponent⟩ = .zero negative :=
  if_pos rfl

/-- The number nearest to a decimal that is neither too large nor too small. -/
def nearest (d : Decimal) : Binary64 :=
  if 0 ≤ d.exponent then
    Binary64.ofRatio d.negative (d.coefficient * Nat.pow 10 d.exponent.toNat * quantaPerUnit) 1
  else
    Binary64.ofRatio d.negative (d.coefficient * quantaPerUnit) (Nat.pow 10 (-d.exponent).toNat)

theorem toBinary64_eq (d : Decimal) : d.toBinary64 =
    if d.coefficient = 0 || d.leadingExponent < -exponentBound then .zero d.negative
    else if exponentBound < d.leadingExponent then .infinite d.negative
    else d.nearest :=
  rfl

theorem negative_of_toBinary64 {d : Decimal} {negative : Bool} {quanta : Nat}
    {h : Representable quanta} (hreads : d.toBinary64 = .finite negative quanta h) :
    d.negative = negative := by
  have hquanta : ∀ n, Binary64.ofQuanta d.negative n = .finite negative quanta h →
      d.negative = negative := by
    intro n hn
    unfold Binary64.ofQuanta at hn
    split at hn
    · exact (Binary64.finite.inj hn).1
    · cases hn
  rw [toBinary64_eq] at hreads
  split at hreads
  · exact (Binary64.finite.inj hreads).1
  · split at hreads
    · cases hreads
    · unfold nearest at hreads
      split at hreads
      · exact hquanta _ hreads
      · exact hquanta _ hreads

theorem nearest_ten_mul (negative : Bool) (c : Nat) (e : Int) :
    nearest ⟨negative, 10 * c, e⟩ = nearest ⟨negative, c, e + 1⟩ := by
  unfold nearest
  dsimp only
  rcases Int.lt_trichotomy e (-1) with hlt | rfl | hgt
  · have hdigits : (-e).toNat = (-(e + 1)).toNat + 1 := by omega
    have hden : Nat.pow 10 (-e).toNat = 10 * Nat.pow 10 (-(e + 1)).toNat := by
      rw [hdigits]
      exact Nat.pow_succ'
    rw [if_neg (by omega), if_neg (by omega)]
    simp only [hden, Nat.mul_assoc]
    exact Binary64.ofRatio_mul negative (by decide) _ _
  · rw [if_neg (by decide), if_pos (by decide)]
    have hunit : c * Nat.pow 10 (-1 + 1 : Int).toNat * quantaPerUnit = c * quantaPerUnit := by
      rw [show Nat.pow 10 (-1 + 1 : Int).toNat = 1 from rfl, Nat.mul_one]
    simp only [hunit, Nat.mul_assoc]
    exact Binary64.ofRatio_mul negative (by decide) _ 1
  · have hdigits : (e + 1).toNat = e.toNat + 1 := by omega
    have hpow : Nat.pow 10 (e + 1).toNat = 10 * Nat.pow 10 e.toNat := by
      rw [hdigits]
      exact Nat.pow_succ'
    rw [if_pos (by omega), if_pos (by omega)]
    simp only [hpow, Nat.mul_assoc, Nat.mul_left_comm c 10]

theorem toBinary64_ten_mul (negative : Bool) (c : Nat) (e : Int) :
    toBinary64 ⟨negative, 10 * c, e⟩ = toBinary64 ⟨negative, c, e + 1⟩ := by
  rcases Nat.eq_zero_or_pos c with rfl | hc
  · rw [Nat.mul_zero, toBinary64_zero, toBinary64_zero]
  · have hlead : leadingExponent ⟨negative, 10 * c, e⟩ = leadingExponent ⟨negative, c, e + 1⟩ := by
      simp only [leadingExponent, decimalWidth_ten_mul hc]
      omega
    have hzero : (10 * c = 0) ↔ (c = 0) := by omega
    simp only [toBinary64_eq, hlead, hzero, nearest_ten_mul]

theorem toBinary64_mul_pow (negative : Bool) (c k : Nat) (e : Int) :
    toBinary64 ⟨negative, c * Nat.pow 10 k, e⟩ = toBinary64 ⟨negative, c, e + k⟩ := by
  induction k generalizing e with
  | zero => simp
  | succ k ih =>
      have hsplit : c * Nat.pow 10 (k + 1) = 10 * (c * Nat.pow 10 k) := by
        rw [show Nat.pow 10 (k + 1) = 10 * Nat.pow 10 k from Nat.pow_succ', Nat.mul_left_comm]
      have hexponent : e + 1 + (k : Int) = e + ((k + 1 : Nat) : Int) := by omega
      rw [hsplit, toBinary64_ten_mul, ih, hexponent]

theorem toBinary64_dropZeros (fuel : Nat) (d : Decimal) :
    (d.dropZeros fuel).toBinary64 = d.toBinary64 := by
  induction fuel generalizing d with
  | zero => rfl
  | succ fuel ih =>
      unfold dropZeros
      split
      · rename_i h
        have hten : 10 * (d.coefficient / 10) = d.coefficient := by omega
        rw [ih, ← toBinary64_ten_mul, hten]
      · rfl

end Decimal

/-! ## The shortest decimal -/

namespace Binary64

theorem five_pow_ge : Nat.pow 10 674 ≤ Nat.pow 5 1074 := by decide +kernel

theorem five_pow_pos : 0 < Nat.pow 5 1074 := by decide +kernel

theorem quantaPerUnit_pos : 0 < quantaPerUnit := by decide +kernel

theorem limit_mul_le : quantaLimit * Nat.pow 5 1074 ≤ Nat.pow 10 1475 := by decide +kernel

theorem ten_pow_eq : Nat.pow 10 (- -1074 : Int).toNat = quantaPerUnit * Nat.pow 5 1074 := by
  decide +kernel

theorem toBinary64_exactDecimal (negative : Bool) {quanta : Nat} (h : Representable quanta)
    (hpos : 0 < quanta) :
    (exactDecimal negative quanta).toBinary64 = .finite negative quanta h := by
  have hwide : ¬ decimalWidth (quanta * Nat.pow 5 1074) ≤ 674 := by
    rw [decimalWidth_le_iff (by decide), Nat.not_lt]
    exact Nat.le_trans five_pow_ge (Nat.le_mul_of_pos_left _ hpos)
  have hnarrow : decimalWidth (quanta * Nat.pow 5 1074) ≤ 1475 := by
    rw [decimalWidth_le_iff (by decide)]
    exact Nat.lt_of_lt_of_le (Nat.mul_lt_mul_of_pos_right h.1 five_pow_pos) limit_mul_le
  have hnonzero : ¬ quanta * Nat.pow 5 1074 = 0 :=
    Nat.mul_ne_zero (Nat.ne_of_gt hpos) (Nat.ne_of_gt five_pow_pos)
  have hratio : (exactDecimal negative quanta).nearest = .finite negative quanta h := by
    have hnum : quanta * Nat.pow 5 1074 * quantaPerUnit
        = quanta * (quantaPerUnit * Nat.pow 5 1074) := by
      rw [Nat.mul_assoc, Nat.mul_comm quantaPerUnit]
    unfold Decimal.nearest exactDecimal
    dsimp only
    rw [if_neg (by decide), hnum, ten_pow_eq]
    exact ofRatio_exact negative h (Nat.mul_pos quantaPerUnit_pos five_pow_pos)
  have hlead : (exactDecimal negative quanta).leadingExponent
      = -1074 + decimalWidth (quanta * Nat.pow 5 1074) - 1 := rfl
  rw [Decimal.toBinary64_eq, hratio, hlead, Decimal.exponentBound]
  generalize decimalWidth (quanta * Nat.pow 5 1074) = width at hwide hnarrow
  rw [if_neg, if_neg]
  · omega
  · rw [Bool.or_eq_true, decide_eq_true_eq, decide_eq_true_eq]
    exact not_or.mpr ⟨hnonzero, by omega⟩

theorem toBinary64_shortestFrom (negative : Bool) {quanta : Nat} (h : Representable quanta)
    (hpos : 0 < quanta) (lead : Int) (fuel digits : Nat) :
    (shortestFrom negative quanta lead fuel digits).toBinary64 = .finite negative quanta h := by
  induction fuel generalizing digits with
  | zero => exact toBinary64_exactDecimal negative h hpos
  | succ fuel ih =>
      unfold shortestFrom
      split
      · rename_i d hfound
        have hreads := List.find?_some hfound
        rw [decide_eq_true_eq, ofQuanta_of_representable negative h] at hreads
        exact hreads
      · exact ih _

/-- **The shortest decimal of a finite number reads as this number.** -/
theorem toBinary64_shortest (negative : Bool) {quanta : Nat} (h : Representable quanta) :
    (shortest negative quanta).toBinary64 = .finite negative quanta h := by
  unfold shortest
  split
  · rename_i hzero
    subst hzero
    exact Decimal.toBinary64_zero negative 0
  · rename_i hnonzero
    rw [Decimal.toBinary64_dropZeros]
    exact toBinary64_shortestFrom negative h (Nat.pos_of_ne_zero hnonzero) _ _ _

end Binary64
end Workflow

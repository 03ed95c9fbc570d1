import Mathlib.Algebra.Order.Field.Rat
import Mathlib.Algebra.Order.Ring.Cast
import Mathlib.Order.WithBot
import Workflow.Number.Basic
import Workflow.Proofs.Binary64.Decimal

/-!
# The exact values of numbers

A number that is defined has a value among the rational numbers and their two ends: an
integer is its own, and a finite floating-point number is so many quanta of a unit. Numbers
of both kinds are compared by these values, without any rounding (`Number.eq_iff`,
`Number.lt_eq`, `Number.le_eq`), and an undefined number compares with none
(`Number.comparing_eq_false`).
-/

namespace Workflow

/-- The rational numbers with an end on both sides. -/
abbrev ExtendedRat := WithBot (WithTop ℚ)

namespace ExtendedRat

def ofRat (q : ℚ) : ExtendedRat := ((q : WithTop ℚ) : WithBot (WithTop ℚ))

theorem ofRat_le_ofRat {p q : ℚ} : ofRat p ≤ ofRat q ↔ p ≤ q := by
  unfold ofRat
  rw [WithBot.coe_le_coe, WithTop.coe_le_coe]

theorem ofRat_inj {p q : ℚ} : ofRat p = ofRat q ↔ p = q :=
  ⟨fun h => le_antisymm (ofRat_le_ofRat.mp h.le) (ofRat_le_ofRat.mp h.ge), congrArg ofRat⟩

theorem ofRat_ne_bot (q : ℚ) : ofRat q ≠ ⊥ := WithBot.coe_ne_bot

theorem ofRat_ne_top (q : ℚ) : ofRat q ≠ ⊤ :=
  fun h => WithTop.coe_ne_top (WithBot.coe_injective h)

end ExtendedRat

open ExtendedRat (ofRat ofRat_le_ofRat ofRat_ne_bot ofRat_ne_top)

/-- The exact value of a number. An undefined number has none. -/
def Number.value? : Number → Option ExtendedRat
  | .int n => some (ofRat n)
  | .float (.nan _) => none
  | .float (.infinite negative) => some (if negative then ⊥ else ⊤)
  | .float (.finite negative quanta _) =>
    some (ofRat (Binary64.signed negative quanta / quantaPerUnit))

/-! ## Places -/

namespace Place

def value : Place → ExtendedRat
  | .bottom => ⊥
  | .at quanta => ofRat (quanta / quantaPerUnit)
  | .top => ⊤

theorem le_iff {p q : Place} : p.le q = true ↔ p.value ≤ q.value := by
  have hunit : (0 : ℚ) < quantaPerUnit := by exact_mod_cast Binary64.quantaPerUnit_pos
  cases p with
  | bottom => exact iff_of_true rfl bot_le
  | top =>
      cases q with
      | bottom => exact iff_of_false nofun (not_le.mpr bot_lt_top)
      | top => exact iff_of_true rfl le_top
      | «at» b => exact iff_of_false nofun fun h => ofRat_ne_top _ (top_le_iff.mp h)
  | «at» a =>
      cases q with
      | bottom => exact iff_of_false nofun fun h => ofRat_ne_bot _ (le_bot_iff.mp h)
      | top => exact iff_of_true rfl le_top
      | «at» b =>
          unfold value
          rw [ofRat_le_ofRat, div_le_div_iff_of_pos_right hunit, Int.cast_le]
          exact decide_eq_true_iff

theorem value_inj {p q : Place} : p.value = q.value ↔ p = q := by
  refine ⟨fun h => ?_, congrArg value⟩
  have hle : p.le q = true := le_iff.mpr h.le
  have hge : q.le p = true := le_iff.mpr h.ge
  cases p with
  | bottom =>
      cases q with
      | bottom => rfl
      | top | «at» _ => cases hge
  | top =>
      cases q with
      | top => rfl
      | bottom | «at» _ => cases hle
  | «at» a =>
      cases q with
      | bottom => cases hle
      | top => cases hge
      | «at» b =>
          exact congrArg Place.at (Int.le_antisymm (of_decide_eq_true hle) (of_decide_eq_true hge))

end Place

/-! ## Comparisons -/

namespace Number

variable {a b : Number} {x y : ExtendedRat}

theorem value?_eq (n : Number) : n.value? = n.place?.map Place.value := by
  have hunit : (quantaPerUnit : ℚ) ≠ 0 := by exact_mod_cast Binary64.quantaPerUnit_pos.ne'
  cases n with
  | int n =>
      show some (ofRat n) = some (ofRat (((n * quantaPerUnit : Int) : ℚ) / quantaPerUnit))
      rw [Int.cast_mul, Int.cast_natCast, mul_div_cancel_right₀ _ hunit]
  | float f =>
      cases f with
      | nan named => rfl
      | infinite negative => cases negative <;> rfl
      | finite negative quanta h => rfl

/-- Two numbers that are defined are compared by their places, which lie as their values
do. -/
theorem comparing_of_values (ha : a.value? = some x) (hb : b.value? = some y) :
    ∃ p q : Place, p.value = x ∧ q.value = y ∧ ∀ test, comparing test a b = test p q := by
  rw [value?_eq] at ha hb
  obtain ⟨p, hp, rfl⟩ := Option.map_eq_some_iff.mp ha
  obtain ⟨q, hq, rfl⟩ := Option.map_eq_some_iff.mp hb
  refine ⟨p, q, rfl, rfl, fun test => ?_⟩
  unfold comparing
  rw [hp, hq]

theorem comparing_eq_false (test : Place → Place → Bool)
    (h : a.value? = none ∨ b.value? = none) :
    comparing test a b = false := by
  rw [value?_eq, value?_eq, Option.map_eq_none_iff, Option.map_eq_none_iff] at h
  unfold comparing
  rcases h with h | h
  · rw [h]
  · rw [h]
    cases a.place? <;> rfl

theorem le_eq (ha : a.value? = some x) (hb : b.value? = some y) :
    a.le b = decide (x ≤ y) := by
  obtain ⟨p, q, rfl, rfl, htest⟩ := comparing_of_values ha hb
  rw [le, htest, Bool.eq_iff_iff, decide_eq_true_iff, Place.le_iff]

theorem lt_eq (ha : a.value? = some x) (hb : b.value? = some y) :
    a.lt b = decide (x < y) := by
  obtain ⟨p, q, rfl, rfl, htest⟩ := comparing_of_values ha hb
  rw [lt, htest, Bool.eq_iff_iff, decide_eq_true_iff, Place.lt, Bool.not_eq_true',
    Bool.eq_false_iff, ne_eq, Place.le_iff, not_le]

theorem exists_values {test : Place → Place → Bool} (h : comparing test a b = true) :
    ∃ x y, a.value? = some x ∧ b.value? = some y := by
  have hdefined : ¬ (a.value? = none ∨ b.value? = none) := fun hnone => by
    rw [comparing_eq_false test hnone] at h
    cases h
  obtain ⟨ha, hb⟩ := not_or.mp hdefined
  obtain ⟨x, hx⟩ := Option.ne_none_iff_exists'.mp ha
  obtain ⟨y, hy⟩ := Option.ne_none_iff_exists'.mp hb
  exact ⟨x, y, hx, hy⟩

theorem eq_iff : a.eq b = true ↔ ∃ x, a.value? = some x ∧ b.value? = some x := by
  constructor
  · intro h
    obtain ⟨x, y, hx, hy⟩ := exists_values h
    obtain ⟨p, q, rfl, rfl, htest⟩ := comparing_of_values hx hy
    rw [eq, htest, beq_iff_eq] at h
    exact ⟨p.value, hx, h ▸ hy⟩
  · rintro ⟨x, ha, hb⟩
    obtain ⟨p, q, hp, hq, htest⟩ := comparing_of_values ha hb
    rw [eq, htest, beq_iff_eq]
    exact Place.value_inj.mp (hp.trans hq.symm)

/-- Of two numbers that are defined one is the less, or each is at most the other. -/
theorem trichotomy (ha : a.value? = some x) (hb : b.value? = some y) :
    [a.lt b, b.lt a, a.le b && b.le a].count true = 1
      ∧ a.le b = (a.lt b || (a.le b && b.le a)) := by
  rw [lt_eq ha hb, lt_eq hb ha, le_eq ha hb, le_eq hb ha]
  rcases lt_trichotomy x y with hless | rfl | hmore
  · simp [hless, hless.le, hless.not_gt, hless.not_ge]
  · simp
  · simp [hmore, hmore.le, hmore.not_gt, hmore.not_ge]

theorem le_trans {c : Number} (hab : a.le b = true) (hbc : b.le c = true) :
    a.le c = true := by
  obtain ⟨x, y, hx, hy⟩ := exists_values hab
  obtain ⟨-, z, -, hz⟩ := exists_values hbc
  rw [le_eq hx hy, decide_eq_true_iff] at hab
  rw [le_eq hy hz, decide_eq_true_iff] at hbc
  rw [le_eq hx hz, decide_eq_true_iff]
  exact hab.trans hbc

end Number
end Workflow

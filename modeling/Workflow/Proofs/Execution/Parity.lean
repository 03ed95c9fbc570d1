import Mathlib.Algebra.Group.Int.Even
import Mathlib.Algebra.Ring.Parity
import Workflow.Proofs.Execution.Arithmetic
import Workflow.Proofs.Number.Exact

/-!
# Even and odd

Whether a number is a multiple of two is asked of its remainder. For an integer of any size
and for a finite floating-point number this is exact: there is no remainder exactly if the
number equals an even integer (`Number.exists_isMultipleOf_two`). Infinity and the undefined
number have a remainder that is undefined, and this is not zero.

The test for odd numbers asks for a number that is not even. So it is met by all that is a
number and has no integer value, as it is by the odd integers (`fractions_are_counted_odd`).

The headline is `parity_and_divisibility`.
-/

namespace Workflow

open ExtendedRat (ofRat)

/-- Whether a value is a number that equals the integer. -/
def Value.EqualsInteger (v : Value) (k : Int) : Prop :=
  ∃ a, v = .number a ∧ a.value? = some (ofRat k)

/-! ## Integer values -/

theorem Value.EqualsInteger.unique {v : Value} {k l : Int} (h : v.EqualsInteger k)
    (h' : v.EqualsInteger l) : k = l := by
  obtain ⟨a, rfl, ha⟩ := h
  obtain ⟨b, hb, hvalue⟩ := h'
  obtain rfl := Value.number.inj hb
  exact Int.cast_inj.mp (ExtendedRat.ofRat_inj.mp (Option.some.inj (ha.symm.trans hvalue)))

theorem Value.EqualsInteger.isNumber {v : Value} {k : Int} (h : v.EqualsInteger k) :
    v.isNumber = true := by
  obtain ⟨a, rfl, -⟩ := h
  rfl

theorem Value.equalsInteger_number_iff {a : Number} {k : Int} :
    (Value.number a).EqualsInteger k ↔ a.value? = some (ofRat k) :=
  ⟨fun ⟨_, h, hvalue⟩ => Value.number.inj h ▸ hvalue, fun h => ⟨a, rfl, h⟩⟩

namespace Number

theorem value?_int_iff {n k : Int} : (Number.int n).value? = some (ofRat k) ↔ n = k := by
  unfold value?
  rw [Option.some.injEq, ExtendedRat.ofRat_inj, Int.cast_inj]

/-- A finite floating-point number equals an integer if it is so many units. -/
theorem value?_finite_iff {negative : Bool} {quanta : Nat} {h : Representable quanta}
    {k : Int} :
    (Number.float (.finite negative quanta h)).value? = some (ofRat k)
      ↔ Binary64.signed negative quanta = k * quantaPerUnit := by
  have hunit : (quantaPerUnit : ℚ) ≠ 0 := by exact_mod_cast Binary64.quantaPerUnit_pos.ne'
  unfold value?
  rw [Option.some.injEq, ExtendedRat.ofRat_inj, div_eq_iff hunit]
  exact_mod_cast Iff.rfl

theorem value?_infinite_ne (negative : Bool) (k : Int) :
    (Number.float (.infinite negative)).value? ≠ some (ofRat k) := by
  cases negative with
  | false => exact fun h => ExtendedRat.ofRat_ne_top _ (Option.some.inj h).symm
  | true => exact fun h => ExtendedRat.ofRat_ne_bot _ (Option.some.inj h).symm

/-! ## Multiples of two -/

theorem dvd_signed_iff {m quanta : Nat} (negative : Bool) :
    (m : Int) ∣ Binary64.signed negative quanta ↔ m ∣ quanta := by
  cases negative with
  | false => exact Int.natCast_dvd_natCast
  | true => exact (dvd_neg (a := (m : Int))).trans Int.natCast_dvd_natCast

theorem exists_toBinary64_two : ∃ h : Representable (2 * quantaPerUnit),
    (Number.int 2).toBinary64 = .ok (.finite false (2 * quantaPerUnit) h) := by
  have hrepresentable : Representable (2 * quantaPerUnit) := by decide +kernel
  have hround : roundToGrain (2 * quantaPerUnit) 1 = 2 * quantaPerUnit := by
    have hexact := roundToGrain_exact hrepresentable Nat.one_pos
    rwa [Nat.mul_one] at hexact
  have hfound : Binary64.ofInt? 2 = some (.finite false (2 * quantaPerUnit) hrepresentable) := by
    unfold Binary64.ofInt?
    have htwo : (2 : Int).natAbs = 2 := rfl
    simp only [htwo, hround, dif_pos hrepresentable]
    rfl
  exact ⟨hrepresentable, by rw [toBinary64_int, hfound, Option.elim_some]⟩

/-- **A number is a multiple of two if it equals an even integer.** -/
theorem exists_isMultipleOf_two (a : Number) : ∃ even, a.isMultipleOf (.int 2) = .ok even
    ∧ (even = true ↔ ∃ k : Int, Even k ∧ a.value? = some (ofRat k)) := by
  cases a with
  | int n =>
      refine ⟨n % 2 == 0, rfl, ?_⟩
      rw [beq_iff_eq, ← Int.even_iff]
      constructor
      · exact fun h => ⟨n, h, rfl⟩
      · rintro ⟨k, hk, hvalue⟩
        exact value?_int_iff.mp hvalue ▸ hk
  | float x =>
      obtain ⟨htwo, hdivisor⟩ := exists_toBinary64_two
      have hanswer : (Number.float x).isMultipleOf (.int 2)
          = .ok (x.isMultipleOf (.finite false (2 * quantaPerUnit) htwo)) :=
        bind_eq_ok.mpr ⟨x, rfl, bind_eq_ok.mpr ⟨_, hdivisor, rfl⟩⟩
      refine ⟨_, hanswer, ?_⟩
      cases x with
      | nan named => exact iff_of_false nofun fun ⟨_, _, h⟩ => nomatch h
      | infinite negative =>
          exact iff_of_false nofun fun ⟨k, _, h⟩ => value?_infinite_ne negative k h
      | finite negative quanta hquanta =>
          show (quanta % (2 * quantaPerUnit) == 0) = true ↔ _
          rw [beq_iff_eq, ← Nat.dvd_iff_mod_eq_zero, ← dvd_signed_iff negative]
          constructor
          · rintro ⟨m, hm⟩
            refine ⟨2 * m, even_two_mul m, value?_finite_iff.mpr ?_⟩
            rw [hm]
            push_cast
            ring
          · rintro ⟨k, ⟨m, rfl⟩, hvalue⟩
            refine ⟨m, ?_⟩
            rw [value?_finite_iff.mp hvalue]
            push_cast
            ring

end Number

/-! ## The three tests -/

namespace Operator

theorem exists_divides_two (v : Value) : ∃ even, divides (.int 2) v = .ok even
    ∧ (even = true ↔ ∃ k, Even k ∧ v.EqualsInteger k) := by
  cases v with
  | number a =>
      obtain ⟨even, heven, hiff⟩ := a.exists_isMultipleOf_two
      refine ⟨even, heven, hiff.trans ?_⟩
      exact exists_congr fun k => and_congr_right fun _ => Value.equalsInteger_number_iff.symm
  | null | bool _ | text _ | list _ | record _ =>
      exact ⟨false, rfl, iff_of_false Bool.false_ne_true fun ⟨_, _, _, h, _⟩ => nomatch h⟩

/-- To ask whether a value is divisible by two is to ask whether it is even. -/
theorem isDivisibleBy_of_divides {field : Option Value} {even : Bool}
    (h : divides (.int 2) (.ofOption field) = .ok even) :
    isDivisibleBy.holds field (.int 2) = .ok even := by
  have hdefined : (Number.int 2).isNaN = .ok false := Number.isNaN_int (by decide +kernel)
  refine bind_eq_ok.mpr ⟨.int 2, rfl, ?_⟩
  rw [Number.isZero_int_of_ne (by decide), Bool.or_false]
  cases hv : Value.ofOption field with
  | number a =>
      rw [hv] at h
      exact bind_eq_ok.mpr ⟨false, hdefined, h⟩
  | null | bool _ | text _ | list _ | record _ =>
      rw [hv] at h
      exact h

theorem isOdd_of_divides {field : Option Value} {operand : Value} {even : Bool}
    (h : divides (.int 2) (.ofOption field) = .ok even) :
    isOdd.holds field operand = .ok ((Value.ofOption field).isNumber && !even) :=
  bind_eq_ok.mpr ⟨even, h, rfl⟩

theorem isOdd_of_no_integer {field : Option Value} {operand : Value}
    (hnumber : (Value.ofOption field).isNumber = true)
    (hnone : ∀ k, ¬ (Value.ofOption field).EqualsInteger k) :
    isOdd.holds field operand = .ok true := by
  obtain ⟨even, hdivides, heven⟩ := exists_divides_two (.ofOption field)
  obtain rfl : even = false :=
    Bool.eq_false_iff.mpr fun h => (heven.mp h).elim fun k hk => hnone k hk.2
  rw [isOdd_of_divides hdivides, hnumber]
  rfl

end Operator

theorem Value.isNumber_and_not_even_iff {v : Value} {even : Bool}
    (heven : even = true ↔ ∃ k, Even k ∧ v.EqualsInteger k) :
    (v.isNumber && !even) = true ↔ (∃ k, Odd k ∧ v.EqualsInteger k)
      ∨ v.isNumber = true ∧ ∀ k, ¬ v.EqualsInteger k := by
  rw [Bool.and_eq_true, Bool.not_eq_true', ← Bool.not_eq_true, heven]
  constructor
  · rintro ⟨hnumber, hnot⟩
    by_cases hsome : ∃ k, v.EqualsInteger k
    · obtain ⟨k, hk⟩ := hsome
      exact .inl ⟨k, Int.not_even_iff_odd.mp fun h => hnot ⟨k, h, hk⟩, hk⟩
    · exact .inr ⟨hnumber, not_exists.mp hsome⟩
  · rintro (⟨k, hodd, hk⟩ | ⟨hnumber, hnone⟩)
    · refine ⟨hk.isNumber, ?_⟩
      rintro ⟨l, heven, hl⟩
      exact Int.not_even_iff_odd.mpr hodd (hk.unique hl ▸ heven)
    · exact ⟨hnumber, fun ⟨k, _, hk⟩ => hnone k hk⟩

/-! ## The headline theorem -/

/-- **Parity and divisibility agree on all values**, whatever the packet holds in the field,
and an absent field counts as null. A value is even if it is a number that equals an even
integer, and if it is divisible by two. It is odd if it is any other number: one that equals
an odd integer, or one that equals no integer at all. So no value is both, each number is one
of the two, and nothing else is either. -/
theorem parity_and_divisibility {field : Value} {key : Key}
    (hfield : Key.ofValue field = .ok key) (operand : Value) (input : Packet) :
    let v := Value.ofOption (input.get? key)
    let test (operator : String) (operand : Value) : Except Fault Bool :=
      evaluateCondition field (.text operator) operand input
    ∃ even odd, test "isEven" operand = .ok even ∧ test "isDivisibleBy" (.int 2) = .ok even
      ∧ test "isOdd" operand = .ok odd
      ∧ (even = true ↔ ∃ k, Even k ∧ v.EqualsInteger k)
      ∧ (odd = true ↔ (∃ k, Odd k ∧ v.EqualsInteger k)
        ∨ v.isNumber = true ∧ ∀ k, ¬ v.EqualsInteger k)
      ∧ (v.isNumber = true → odd = !even) ∧ (v.isNumber = false → even = false ∧ odd = false) := by
  intro v test
  have hknown (operator : Operator) (operand : Value) :
      test operator.name operand = operator.holds (input.get? key) operand :=
    evaluateCondition_of_known hfield
  obtain ⟨even, hdivides, heven⟩ := Operator.exists_divides_two v
  refine ⟨even, v.isNumber && !even, (hknown .isEven operand).trans hdivides,
    (hknown .isDivisibleBy (.int 2)).trans (Operator.isDivisibleBy_of_divides hdivides),
    (hknown .isOdd operand).trans (Operator.isOdd_of_divides hdivides), heven,
    Value.isNumber_and_not_even_iff heven, fun hnumber => ?_, fun hnone => ⟨?_, ?_⟩⟩
  · rw [hnumber, Bool.true_and]
  · refine Bool.eq_false_iff.mpr fun h => ?_
    obtain ⟨k, -, hk⟩ := heven.mp h
    exact Bool.false_ne_true (hnone.symm.trans hk.isNumber)
  · rw [hnone, Bool.false_and]

/-- A negative even number that is written with a point, and an odd integer beyond the range
of the format. -/
theorem parity_and_divisibility_of_large_integers :
    let test (operator : String) (operand value : Value) : Except Fault Bool :=
      evaluateCondition (.text "n") (.text operator) operand [(.text "n", value)]
    let minusTwo : Value := .float (.ofQuanta true (2 * quantaPerUnit))
    let large : Value := .int (Nat.pow 10 400 + 1)
    (minusTwo.EqualsInteger (-2) ∧ test "isEven" .null minusTwo = .ok true
        ∧ test "isDivisibleBy" (.int 2) minusTwo = .ok true
        ∧ test "isOdd" .null minusTwo = .ok false)
      ∧ test "isEven" .null large = .ok false ∧ test "isDivisibleBy" (.int 2) large = .ok false
        ∧ test "isOdd" .null large = .ok true := by
  intro test minusTwo large
  have hfield : Key.ofValue (.text "n") = .ok (.text "n") := rfl
  have hminus : minusTwo.EqualsInteger (-2) := by
    obtain ⟨htwo, -⟩ := Number.exists_toBinary64_two
    refine ⟨_, rfl, ?_⟩
    rw [Binary64.ofQuanta_of_representable true htwo]
    exact Number.value?_finite_iff.mpr (by decide +kernel)
  have hlarge : large.EqualsInteger (Nat.pow 10 400 + 1) := ⟨_, rfl, rfl⟩
  have hodd : Odd ((Nat.pow 10 400 : Int) + 1) := Int.odd_iff.mpr (by decide +kernel)
  obtain ⟨even, odd, heven, hdivided, hother, hiff, -, hnumber, -⟩ :=
    parity_and_divisibility hfield .null [(.text "n", minusTwo)]
  obtain rfl : even = true := hiff.mpr ⟨-2, by decide, hminus⟩
  obtain rfl := hnumber rfl
  obtain ⟨even', odd', heven', hdivided', hother', -, hiff', hnumber', -⟩ :=
    parity_and_divisibility hfield .null [(.text "n", large)]
  obtain rfl : odd' = true := hiff'.mpr (.inl ⟨_, hodd, hlarge⟩)
  obtain rfl : even' = false := by
    cases even' with
    | false => rfl
    | true => exact hnumber' rfl
  exact ⟨⟨hminus, heven, hdivided, hother⟩, heven', hdivided', hother'⟩

/-- One half, infinity and the undefined number are counted as odd, and equal no odd
integer. -/
theorem fractions_are_counted_odd :
    let test (v : Value) : Except Fault Bool :=
      evaluateCondition (.text "n") (.text "isOdd") .null [(.text "n", v)]
    let half : Value := .float (.ofQuanta false (Nat.pow 2 1073))
    let infinity : Value := .float (.infinite false)
    let undefined : Value := .float (.nan false)
    (test half = .ok true ∧ ¬ ∃ k, Odd k ∧ half.EqualsInteger k)
      ∧ (test infinity = .ok true ∧ ¬ ∃ k, Odd k ∧ infinity.EqualsInteger k)
      ∧ test undefined = .ok true ∧ ¬ ∃ k, Odd k ∧ undefined.EqualsInteger k := by
  intro test half infinity undefined
  have hcounted (a : Number) (hnone : ∀ k : Int, a.value? ≠ some (ofRat k)) :
      test (.number a) = .ok true ∧ ¬ ∃ k, Odd k ∧ (Value.number a).EqualsInteger k := by
    have hequals : ∀ k, ¬ (Value.number a).EqualsInteger k :=
      fun k hk => hnone k (Value.equalsInteger_number_iff.mp hk)
    have hknown (operator : Operator) :
        evaluateCondition (.text "n") (.text operator.name) .null [(.text "n", .number a)]
          = operator.holds (Packet.get? [(.text "n", .number a)] (.text "n")) .null :=
      evaluateCondition_of_known rfl
    have hodd : Operator.isOdd.holds (some (.number a)) .null = .ok true :=
      Operator.isOdd_of_no_integer rfl hequals
    exact ⟨(hknown .isOdd).trans hodd, fun ⟨k, _, hk⟩ => hequals k hk⟩
  have hhalf : Representable (Nat.pow 2 1073) := by decide +kernel
  have hfinite : half = .float (.finite false (Nat.pow 2 1073) hhalf) :=
    congrArg Value.float (Binary64.ofQuanta_of_representable false hhalf)
  refine ⟨hfinite ▸ hcounted _ fun k hk => ?_, hcounted _ (Number.value?_infinite_ne false),
    hcounted _ fun _ h => nomatch h⟩
  have hdvd : (quantaPerUnit : Int) ∣ Binary64.signed false (Nat.pow 2 1073) :=
    ⟨k, (Number.value?_finite_iff.mp hk).trans (Int.mul_comm _ _)⟩
  have hle := Nat.le_of_dvd (by decide +kernel) ((Number.dvd_signed_iff false).mp hdvd)
  exact absurd hle (by decide +kernel)

end Workflow

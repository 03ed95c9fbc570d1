import Workflow.Proofs.Execution.Outcome
import Workflow.Proofs.Number.Exact
import Workflow.Proofs.Value.Operand

/-!
# Conditions that ask for an order

Four operators compare the number in a field with an operand. Whatever the two are given as,
both are read as numbers (`Value.exists_asOperandNumber`) and these are compared by their
exact values (`Operator.compare_eq`). So the four describe one total preorder of all that is
read as a defined number. An undefined number stands in no order to anything
(`Operator.holds_of_undefined`), and a field that is absent counts as one
(`Operator.holds_of_absent`).

The headline is `comparisons_describe_total_preorder`.
-/

namespace Workflow

/-- Whether a value is read as an undefined number. -/
def Value.Undefined (v : Value) : Prop :=
  ∃ marked, v.asOperandNumber = .ok (.float (.nan marked))

/-- Whether a value is read as a number with this exact value. -/
def Value.HasValue (v : Value) (x : ExtendedRat) : Prop :=
  ∃ a, v.asOperandNumber = .ok a ∧ a.value? = some x

theorem Value.exists_value {v : Value} {a : Number} (ha : v.asOperandNumber = .ok a)
    (hdefined : ¬ v.Undefined) : ∃ x, a.value? = some x := by
  cases a with
  | int n => exact ⟨_, rfl⟩
  | float f =>
      cases f with
      | nan marked => exact absurd ⟨marked, ha⟩ hdefined
      | infinite negative => exact ⟨_, rfl⟩
      | finite negative quanta h => exact ⟨_, rfl⟩

theorem Value.value_eq_none {v : Value} {a : Number} (ha : v.asOperandNumber = .ok a)
    (hundefined : v.Undefined) : a.value? = none := by
  obtain ⟨marked, h⟩ := hundefined
  obtain rfl := Except.ok.inj (ha.symm.trans h)
  rfl

namespace Operator

def orderings : List Operator :=
  [.lessThan, .greaterThan, .lessThanOrEqual, .greaterThanOrEqual]

variable {operator : Operator} {u v : Value} {a b : Number}

theorem mem_orderings_iff :
    operator ∈ orderings ↔ operator = lessThan ∨ operator = greaterThan
    ∨ operator = lessThanOrEqual ∨ operator = greaterThanOrEqual := by
  simp [orderings]

theorem compare_eq (test : Number → Number → Bool) (hu : u.asOperandNumber = .ok a)
    (hv : v.asOperandNumber = .ok b) : compare test (some u) v = .ok (test a b) := by
  unfold compare
  dsimp only
  rw [hu, hv]
  rfl

/-- To ask whether one is less is to ask whether the other is greater. -/
theorem holds_greaterThan (hu : u.asOperandNumber = .ok a) (hv : v.asOperandNumber = .ok b) :
    greaterThan.holds (some v) u = lessThan.holds (some u) v :=
  (compare_eq _ hv hu).trans (compare_eq _ hu hv).symm

theorem holds_lessThanOrEqual (hu : u.asOperandNumber = .ok a)
    (hv : v.asOperandNumber = .ok b) :
    lessThanOrEqual.holds (some u) v = .ok true ↔ a.le b = true := by
  have hholds : lessThanOrEqual.holds (some u) v = .ok (a.le b) := compare_eq _ hu hv
  rw [hholds, Except.ok.injEq]

theorem holds_of_undefined (hoperator : operator ∈ orderings)
    (hu : u.asOperandNumber = .ok a) (hv : v.asOperandNumber = .ok b)
    (hnone : a.value? = none ∨ b.value? = none) :
    operator.holds (some u) v = .ok false := by
  rcases mem_orderings_iff.mp hoperator with rfl | rfl | rfl | rfl
  · exact (compare_eq _ hu hv).trans (congrArg _ (Number.comparing_eq_false _ hnone))
  · exact (compare_eq _ hu hv).trans (congrArg _ (Number.comparing_eq_false _ hnone.symm))
  · exact (compare_eq _ hu hv).trans (congrArg _ (Number.comparing_eq_false _ hnone))
  · exact (compare_eq _ hu hv).trans (congrArg _ (Number.comparing_eq_false _ hnone.symm))

theorem holds_of_absent (hoperator : operator ∈ orderings) (hv : v.asOperandNumber = .ok b) :
    operator.holds none v = .ok false := by
  have hundefined : Value.asOperandNumber (.number .undefined) = .ok .undefined := rfl
  have hholds := holds_of_undefined hoperator hundefined hv (.inl rfl)
  rcases mem_orderings_iff.mp hoperator with rfl | rfl | rfl | rfl <;> exact hholds

end Operator

/-! ## The headline theorem -/

/-- **The four operators describe one total preorder** of the values that are read as a
defined number, whatever they are given as, and it is the order of their exact values: of two
such values exactly one is the less, or each is at most the other; to ask in the other order
is to ask the other operator; and what is at most something else is at most all that this is
at most. No condition that asks for an order is met by an undefined number or by a field that
is absent. -/
theorem comparisons_describe_total_preorder {field : Value} {key : Key}
    (hfield : Key.ofValue field = .ok key) {u v w : Value} (hu : u.Readable)
    (hv : v.Readable) (hw : w.Readable) {p q : Packet} (hp : p.get? key = some u)
    (hq : q.get? key = some v) :
    let passes (operator : Operator) (input : Packet) (operand : Value) : Except Fault Bool :=
      evaluateCondition field (.text operator.name) operand input
    (¬ u.Undefined → ¬ v.Undefined → ∃ x y lt gt le ge, u.HasValue x ∧ v.HasValue y
      ∧ (passes .lessThan p v = .ok lt ∧ passes .greaterThan p v = .ok gt
        ∧ passes .lessThanOrEqual p v = .ok le ∧ passes .greaterThanOrEqual p v = .ok ge)
      ∧ (lt = decide (x < y) ∧ gt = decide (y < x) ∧ le = decide (x ≤ y) ∧ ge = decide (y ≤ x))
      ∧ [lt, gt, le && ge].count true = 1 ∧ le = (lt || (le && ge)))
    ∧ passes .lessThan p v = passes .greaterThan q u
    ∧ (passes .lessThanOrEqual p v = .ok true → passes .lessThanOrEqual q w = .ok true →
      passes .lessThanOrEqual p w = .ok true)
    ∧ ∀ operator ∈ Operator.orderings,
      (u.Undefined ∨ v.Undefined → passes operator p v = .ok false)
      ∧ ∀ r : Packet, r.get? key = none → passes operator r v = .ok false := by
  intro passes
  have hpasses : ∀ operator input operand,
      passes operator input operand = operator.holds (input.get? key) operand :=
    fun _ _ _ => evaluateCondition_of_known hfield
  simp only [hpasses, hp, hq]
  obtain ⟨a, ha⟩ := Value.exists_asOperandNumber hu
  obtain ⟨b, hb⟩ := Value.exists_asOperandNumber hv
  obtain ⟨c, hc⟩ := Value.exists_asOperandNumber hw
  refine ⟨fun hudefined hvdefined => ?_, (Operator.holds_greaterThan ha hb).symm,
    fun hle hle' => ?_, fun operator hoperator => ⟨fun hundefined => ?_, fun r hr => ?_⟩⟩
  · obtain ⟨x, hx⟩ := Value.exists_value ha hudefined
    obtain ⟨y, hy⟩ := Value.exists_value hb hvdefined
    refine ⟨x, y, a.lt b, b.lt a, a.le b, b.le a, ⟨a, ha, hx⟩, ⟨b, hb, hy⟩, ?_, ?_,
      Number.trichotomy hx hy⟩
    · exact ⟨Operator.compare_eq _ ha hb, Operator.compare_eq _ ha hb, Operator.compare_eq _ ha hb,
        Operator.compare_eq _ ha hb⟩
    · exact ⟨Number.lt_eq hx hy, Number.lt_eq hy hx, Number.le_eq hx hy, Number.le_eq hy hx⟩
  · rw [Operator.holds_lessThanOrEqual ha hb] at hle
    rw [Operator.holds_lessThanOrEqual hb hc] at hle'
    rw [Operator.holds_lessThanOrEqual ha hc]
    exact Number.le_trans hle hle'
  · have hnone : a.value? = none ∨ b.value? = none :=
      hundefined.imp (Value.value_eq_none ha) (Value.value_eq_none hb)
    exact Operator.holds_of_undefined hoperator ha hb hnone
  · rw [hr]
    exact Operator.holds_of_absent hoperator hb

/-- A floating-point number, the integer next to it that no floating-point number equals, and
the text of the next one. -/
theorem comparisons_describe_total_preorder_of_neighbours :
    let passes (operator : Operator) (held operand : Value) : Except Fault Bool :=
      evaluateCondition (.text "n") (.text operator.name) operand [(.text "n", held)]
    let u : Value := .float (.finite false (Nat.pow 2 53 * quantaPerUnit) (by decide +kernel))
    let v : Value := .int 9007199254740993
    let w : Value := .text "9007199254740994"
    (∃ x y lt gt le ge, u.HasValue x ∧ v.HasValue y
      ∧ (passes .lessThan u v = .ok lt ∧ passes .greaterThan u v = .ok gt
        ∧ passes .lessThanOrEqual u v = .ok le ∧ passes .greaterThanOrEqual u v = .ok ge)
      ∧ (lt = decide (x < y) ∧ gt = decide (y < x) ∧ le = decide (x ≤ y) ∧ ge = decide (y ≤ x))
      ∧ [lt, gt, le && ge].count true = 1 ∧ le = (lt || (le && ge)))
    ∧ passes .lessThan u v = passes .greaterThan v u ∧ passes .lessThanOrEqual u w = .ok true
    ∧ ∀ operator ∈ Operator.orderings,
      evaluateCondition (.text "n") (.text operator.name) v [] = .ok false := by
  intro passes u v w
  have hu : ¬ u.Undefined := by
    rintro ⟨marked, h⟩
    cases h
  have hv : ¬ v.Undefined := by
    rintro ⟨marked, h⟩
    cases h
  have hw : w.Readable := Value.readable_text (by decide)
  have hfield : Key.ofValue (.text "n") = .ok (.text "n") := rfl
  have hheld (held : Value) : Packet.get? [(.text "n", held)] (.text "n") = some held := rfl
  obtain ⟨hanswers, hconverse, htrans, hnone⟩ :=
    comparisons_describe_total_preorder hfield (u := u) (v := v) trivial trivial hw (hheld u)
      (hheld v)
  have hle : passes .lessThanOrEqual u v = .ok true := by decide +kernel
  have hle' : passes .lessThanOrEqual v w = .ok true := by decide +kernel
  exact ⟨hanswers hu hv, hconverse, htrans hle hle',
    fun operator hoperator => (hnone operator hoperator).2 [] rfl⟩

end Workflow

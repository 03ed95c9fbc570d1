import Workflow.Proofs.Binary64.Range
import Workflow.Proofs.Execution.Outcome
import Workflow.Proofs.Value.Operand

/-!
# Integer arithmetic

Integers of any size are multiplied, added and divided exactly. But an operand is first asked
whether it is the undefined number, which only a floating-point number can be, and an integer
too large for the format has no answer to this. So the operations are exact for every integer
in a field and every operand within the range of the format, and they fail for every operand
beyond it.

The headline is `integer_arithmetic_exact_within_range`.
-/

namespace Workflow

/-- Whether a value is an integer, or a readable text that denotes one. -/
inductive Value.GivesInteger : Value → Int → Prop
  | number (n : Int) : GivesInteger (.int n) n
  | text {s : String} {t : List Char} {n : Int} (readable : (Value.text s).Readable)
      (strips : Text.Strips s.toList t) (denotes : Denotes t (.int n)) : GivesInteger (.text s) n

/-! ## Operands -/

namespace Number

variable {n : Int}

theorem isNaN_int (h : n.natAbs < integerLimit) : (Number.int n).isNaN = .ok false := by
  obtain ⟨x, hx⟩ := Option.isSome_iff_exists.mp (Binary64.isSome_ofInt?_iff.mpr h)
  unfold isNaN
  rw [toBinary64_int, hx]
  exact congrArg Except.ok (Binary64.isNaN_of_ofInt? hx)

/-- Of an integer beyond the range it cannot be said whether it is the undefined number. -/
theorem isNaN_int_beyond (h : ¬ n.natAbs < integerLimit) :
    (Number.int n).isNaN = .error .integerTooLarge := by
  rw [← Binary64.isSome_ofInt?_iff, Option.not_isSome_iff_eq_none] at h
  unfold isNaN
  rw [toBinary64_int, h]
  rfl

end Number

namespace Value

variable {operand : Value} {n : Int}

theorem GivesInteger.asOperandNumber (h : operand.GivesInteger n) :
    operand.asOperandNumber = .ok (.int n) := by
  cases h with
  | number n => rfl
  | text readable strips denotes => exact asOperandNumber_of_denotes readable strips denotes

theorem operandOr_int (hn : operand.asOperandNumber = .ok (.int n))
    (hrange : n.natAbs < integerLimit) (fallback : Int) :
    operand.operandOr fallback = .ok (.int (if n = 0 then fallback else n)) := by
  refine bind_eq_ok.mpr ⟨.int n, hn, bind_eq_ok.mpr ⟨false, Number.isNaN_int hrange, ?_⟩⟩
  rw [if_neg Bool.false_ne_true]
  by_cases hzero : n = 0
  · rw [if_pos (Number.isZero_int_iff.mpr hzero), if_pos hzero]
    rfl
  · rw [Number.isZero_int_of_ne hzero, if_neg Bool.false_ne_true, if_neg hzero]
    rfl

theorem operandOr_int_beyond (hn : operand.asOperandNumber = .ok (.int n))
    (hrange : ¬ n.natAbs < integerLimit) (fallback : Int) :
    operand.operandOr fallback = .error .integerTooLarge :=
  bind_eq_error.mpr (.inr ⟨.int n, hn, bind_eq_error.mpr (.inl (Number.isNaN_int_beyond hrange))⟩)

end Value

/-! ## Operations and the divisor test -/

section

variable {operand : Value} {m n : Int}

theorem Operation.multiply_int (hn : operand.asOperandNumber = .ok (.int n))
    (hrange : n.natAbs < integerLimit) :
    multiply.newValue? (some (.int m)) operand
      = .ok (some (.int (if n = 0 then m else m * n))) := by
  have hproduct : m * (if n = 0 then 1 else n) = if n = 0 then m else m * n := by
    rw [mul_ite, Int.mul_one]
  rw [← hproduct]
  exact bind_eq_ok.mpr ⟨_, Value.operandOr_int hn hrange 1, rfl⟩

theorem Operation.add_int (hn : operand.asOperandNumber = .ok (.int n))
    (hrange : n.natAbs < integerLimit) :
    add.newValue? (some (.int m)) operand = .ok (some (.int (m + n))) := by
  have hsame : (if n = 0 then 0 else n) = n := ite_eq_right_iff.mpr Eq.symm
  exact bind_eq_ok.mpr ⟨_, Value.operandOr_int hn hrange 0, by rw [hsame]; rfl⟩

theorem Operation.int_beyond (hn : operand.asOperandNumber = .ok (.int n))
    (hrange : ¬ n.natAbs < integerLimit) :
    multiply.newValue? (some (.int m)) operand = .error .integerTooLarge
      ∧ add.newValue? (some (.int m)) operand = .error .integerTooLarge :=
  ⟨bind_eq_error.mpr (.inl (Value.operandOr_int_beyond hn hrange 1)),
    bind_eq_error.mpr (.inl (Value.operandOr_int_beyond hn hrange 0))⟩

theorem Operator.isDivisibleBy_int (hn : operand.asOperandNumber = .ok (.int n))
    (hrange : n.natAbs < integerLimit) :
    isDivisibleBy.holds (some (.int m)) operand = .ok (decide (n ≠ 0 ∧ n ∣ m)) := by
  refine bind_eq_ok.mpr ⟨_, hn, ?_⟩
  rcases eq_or_ne n 0 with rfl | hsome
  · rw [Number.isZero_int_iff.mpr rfl]
    rfl
  · have hdivides : (m % n == 0) = decide (n ≠ 0 ∧ n ∣ m) := by
      rw [Bool.eq_iff_iff, beq_iff_eq, decide_eq_true_iff, and_iff_right hsome,
        Int.dvd_iff_emod_eq_zero]
    rw [Number.isZero_int_of_ne hsome, ← hdivides]
    exact bind_eq_ok.mpr ⟨false, Number.isNaN_int hrange, rfl⟩

theorem Operator.isDivisibleBy_int_beyond (hn : operand.asOperandNumber = .ok (.int n))
    (hrange : ¬ n.natAbs < integerLimit) :
    isDivisibleBy.holds (some (.int m)) operand = .error .integerTooLarge := by
  have hsome : n ≠ 0 := by
    rintro rfl
    exact hrange (by decide +kernel)
  refine bind_eq_error.mpr (.inr ⟨_, hn, ?_⟩)
  rw [Number.isZero_int_of_ne hsome]
  exact bind_eq_error.mpr (.inl (Number.isNaN_int_beyond hrange))

end

theorem Value.GivesInteger.describable {field operand : Value} {n : Int}
    (hshown : field.WithinDigits) (hn : operand.GivesInteger n)
    (hrange : n.natAbs < integerLimit) :
    Outcome.Describable field operand := by
  cases hn with
  | text readable strips denotes =>
      exact ⟨hshown, List.forall_mem_singleton.mpr trivial, trivial⟩
  | number n =>
      have hlimit : integerLimit ≤ Nat.pow 10 digitLimit := by decide +kernel
      have hwidth : Text.decimalWidth n.natAbs ≤ digitLimit :=
        (Text.decimalWidth_le_iff (by decide)).mpr (hrange.trans_le hlimit)
      exact ⟨hshown, List.forall_mem_singleton.mpr hwidth, Binary64.isSome_ofInt?_iff.mpr hrange⟩

/-! ## The headline theorem -/

/-- **Integer arithmetic is exact within the range of the format**, whatever the size of the
integer in the field, and every such node succeeds. With an operand beyond the range every
one of them fails, and hands on the packet that it received. -/
theorem integer_arithmetic_exact_within_range (node : Node) {field operand : Value}
    {key : Key} (hfield : Key.ofValue field = .ok key) (hshown : field.WithinDigits)
    {input : Packet} {m n : Int} (hm : input.get? key = some (.int m))
    (hn : operand.GivesInteger n) :
    let outcome (config : Config) : Outcome := executeNode { node with config := some config } input
    let product := outcome (.transform (.text "multiply") field operand)
    let sum := outcome (.transform (.text "add") field operand)
    let divided := outcome (.condition field (.text "isDivisibleBy") operand)
    (n.natAbs < integerLimit →
      (product.status = .success
        ∧ product.output = input.set key (.int (if n = 0 then m else m * n)))
      ∧ (sum.status = .success ∧ sum.output = input.set key (.int (m + n)))
      ∧ divided.status = .success
        ∧ divided.output = input.set conditionKey (.bool (decide (n ≠ 0 ∧ n ∣ m))))
    ∧ (integerLimit ≤ n.natAbs →
      ∀ o ∈ [product, sum, divided], o = ⟨input, .error, "int too large to convert to float"⟩) := by
  intro outcome product sum divided
  obtain ⟨name, hname⟩ := Value.exists_toText hshown
  have hread := hn.asOperandNumber
  have hproduct : product = _ := executeNode_transform .multiply hfield hname
  have hsum : sum = _ := executeNode_transform .add hfield hname
  rw [hm] at hproduct hsum
  refine ⟨fun hrange => ?_, fun hbeyond => ?_⟩
  · rw [Operation.multiply_int hread hrange] at hproduct
    rw [Operation.add_int hread hrange] at hsum
    have hmet : Operator.isDivisibleBy.holds (input.get? key) operand
        = .ok (decide (n ≠ 0 ∧ n ∣ m)) := by
      rw [hm]
      exact Operator.isDivisibleBy_int hread hrange
    obtain ⟨message, hdivided⟩ : ∃ message, divided = _ :=
      executeNode_condition hfield (hn.describable hshown hrange) hmet
    rw [hproduct, hsum, hdivided]
    exact ⟨⟨rfl, rfl⟩, ⟨rfl, rfl⟩, rfl, rfl⟩
  · have hout := not_lt.mpr hbeyond
    obtain ⟨hmultiply, hadd⟩ := Operation.int_beyond (m := m) hread hout
    rw [hmultiply] at hproduct
    rw [hadd] at hsum
    have hfault :
        Operator.isDivisibleBy.holds (input.get? key) operand = .error .integerTooLarge := by
      rw [hm]
      exact Operator.isDivisibleBy_int_beyond hread hout
    have hdivided : divided = _ := executeNode_condition_error hfield hfault
    exact List.forall_mem_cons.mpr ⟨hproduct, List.forall_mem_cons.mpr
      ⟨hsum, List.forall_mem_singleton.mpr hdivided⟩⟩

/-- A power of ten within the range and one beyond it, and a power of ten given as a text. -/
theorem integer_arithmetic_exact_within_range_of_powers_of_ten :
    let outcome (config : Config) : Outcome :=
      executeNode ⟨"node", .transform, .origin, "Node", some config⟩ [(.text "x", .int 3)]
    let product (operand : Value) : Outcome :=
      outcome (.transform (.text "multiply") (.text "x") operand)
    (product (.int (Nat.pow 10 300))).output = [(.text "x", .int (3 * Nat.pow 10 300))]
      ∧ (outcome (.transform (.text "add") (.text "x") (.text " +100 "))).output
        = [(.text "x", .int 103)]
      ∧ product (.int (Nat.pow 10 400))
        = ⟨[(.text "x", .int 3)], .error, "int too large to convert to float"⟩ := by
  intro outcome product
  have hshown : (Value.text "x").WithinDigits := List.forall_mem_singleton.mpr trivial
  have hfield : Key.ofValue (.text "x") = .ok (.text "x") := rfl
  have hheld : Packet.get? [(.text "x", .int 3)] (.text "x") = some (.int 3) := rfl
  have hexact (operand : Value) (n : Int) (hn : operand.GivesInteger n) :=
    integer_arithmetic_exact_within_range ⟨"node", .transform, .origin, "Node", none⟩
      hfield hshown hheld hn
  have hplus : (Value.text " +100 ").GivesInteger 100 := by
    refine .text (t := "+100".toList) (Value.readable_text (by decide))
      (Text.strips_iff.mpr (by decide)) ?_
    exact .integer .plus (by decide) (Text.writes_ten_iff.mpr ⟨Text.forall_mem_of_all rfl, rfl⟩)
  obtain ⟨hwithin, -⟩ := hexact _ _ (.number (Nat.pow 10 300))
  obtain ⟨hsmall, -⟩ := hexact _ _ hplus
  obtain ⟨-, hbeyond⟩ := hexact _ _ (.number (Nat.pow 10 400))
  obtain ⟨⟨-, hproduct⟩, -⟩ := hwithin (by decide +kernel)
  obtain ⟨-, ⟨-, hsum⟩, -⟩ := hsmall (by decide +kernel)
  rw [if_neg (by decide +kernel)] at hproduct
  exact ⟨hproduct, hsum, hbeyond (by decide +kernel) _ (List.mem_cons_self ..)⟩

end Workflow

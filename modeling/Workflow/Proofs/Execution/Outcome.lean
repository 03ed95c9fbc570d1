import Workflow.Execution.Outcome
import Workflow.Proofs.Binary64.Decimal
import Workflow.Proofs.Node.Config
import Workflow.Proofs.Value.Text

/-!
# What executing a node gives

To execute a node is to attempt something that may fail. Whatever the attempt fails with
becomes an error outcome (`executeNode_eq`), which hands on the packet that the node
received, with one exception: a condition writes its result before it describes itself, and
keeps it when the description fails. It fails for integers that are too long to be written
or, as the operand, too large for a floating-point number (`exists_conditionMessage_iff`).

The headline is `failed_node_hands_on_input`.
-/

namespace Workflow

/-! ## The description of a condition -/

namespace Value

/-- Whether a value is not an integer beyond the largest floating-point number. -/
def InFloatRange : Value → Prop
  | .number (.int n) => (Binary64.ofInt? n).isSome
  | _ => True

instance : DecidablePred InFloatRange
  | .number (.int n) => inferInstanceAs (Decidable ((Binary64.ofInt? n).isSome = true))
  | .number (.float _) | .null | .bool _ | .text _ | .list _ | .record _ => isTrue trivial

end Value

theorem Binary64.isNaN_of_ofInt? {n : Int} {x : Binary64} (h : ofInt? n = some x) :
    x.isNaN = false := by
  unfold ofInt? at h
  dsimp only at h
  split at h
  · obtain rfl := Option.some.inj h
    rfl
  · cases h

/-- The integer that a number of the format equals is not too long to be written. -/
theorem Binary64.decimalWidth_of_toInt? {x : Binary64} {n : Int} (h : x.toInt? = some n) :
    Text.decimalWidth n.natAbs ≤ digitLimit := by
  have hlimit : quantaLimit ≤ Nat.pow 10 digitLimit := by decide +kernel
  cases x with
  | nan _ | infinite _ => cases h
  | finite negative quanta hquanta =>
      unfold toInt? at h
      dsimp only at h
      split at h
      · obtain rfl := Option.some.inj h
        have habs : (signed negative (quanta / quantaPerUnit)).natAbs = quanta / quantaPerUnit := by
          cases negative with
          | false => exact Int.natAbs_natCast _
          | true => exact (Int.natAbs_neg _).trans (Int.natAbs_natCast _)
        rw [habs, Text.decimalWidth_le_iff (by decide)]
        calc quanta / quantaPerUnit ≤ quanta := Nat.div_le_self _ _
          _ < quantaLimit := hquanta.1
          _ ≤ Nat.pow 10 digitLimit := hlimit
      · cases h

theorem Number.toBinary64_int (n : Int) :
    (Number.int n).toBinary64 = (Binary64.ofInt? n).elim (.error .integerTooLarge) .ok := by
  generalize hm : Number.int n = m
  fun_cases toBinary64 m with
  | case1 n x hnearest =>
      cases hm
      rw [hnearest]
      rfl
  | case2 n hbeyond =>
      cases hm
      rw [hbeyond]
      rfl
  | case3 x => cases hm

theorem Number.isZero_int_iff {n : Int} : (Number.int n).isZero = true ↔ n = 0 := by
  have hplace : (Number.int n).place? = some (.at (n * quantaPerUnit)) := rfl
  have hunit : (quantaPerUnit : Int) ≠ 0 :=
    Int.natCast_ne_zero.mpr (Nat.ne_of_gt Binary64.quantaPerUnit_pos)
  rw [isZero, hplace, beq_iff_eq, Option.some.injEq, Place.at.injEq, Int.mul_eq_zero,
    or_iff_left hunit]

theorem Number.isZero_int_of_ne {n : Int} (h : n ≠ 0) : (Number.int n).isZero = false :=
  Bool.eq_false_iff.mpr (mt isZero_int_iff.mp h)

namespace Outcome

theorem exists_operandText_int (n : Int) :
    (∃ s, operandText (.number (.int n)) = .ok s)
      ↔ (Value.number (.int n)).WithinDigits ∧ (Value.number (.int n)).InFloatRange := by
  rcases eq_or_ne n 0 with rfl | hn
  · have hzero : (Value.number (.int 0)).isTruthy = .ok false := by
      rw [Value.isTruthy, if_pos (Number.isZero_int_iff.mpr rfl)]
    have htext : operandText (.number (.int 0)) = .ok "" := by
      rw [operandText, hzero]
      rfl
    exact ⟨fun _ => by decide +kernel, fun _ => ⟨"", htext⟩⟩
  · have htruthy : (Value.number (.int n)).isTruthy
        = (Number.int n).toBinary64 >>= fun x => .ok !x.isNaN := by
      rw [Value.isTruthy, Number.isZero_int_of_ne hn, Number.isNaN, bind_assoc]
      rfl
    unfold operandText
    rw [htruthy]
    cases hrange : Binary64.ofInt? n with
    | none =>
        have hbeyond : ¬ (Value.number (.int n)).InFloatRange := by
          simp [Value.InFloatRange, hrange]
        rw [Number.toBinary64_int, hrange]
        exact ⟨nofun, fun h => absurd h.2 hbeyond⟩
    | some x =>
        have hwithin : (Value.number (.int n)).InFloatRange := by
          simp [Value.InFloatRange, hrange]
        have htrue : (.ok x >>= fun x => .ok !x.isNaN) = (.ok true : Except Fault Bool) :=
          congrArg (fun b => Except.ok !b) (Binary64.isNaN_of_ofInt? hrange)
        rw [Number.toBinary64_int, hrange, Option.elim_some, htrue, and_iff_left hwithin,
          ← Value.exists_toText_iff]
        exact Iff.rfl

theorem exists_operandText_float (x : Binary64) :
    ∃ s, operandText (.number (.float x)) = .ok s := by
  have htext : ∃ s, (Value.number (.float x)).asOperandText = .ok s := by
    unfold Value.asOperandText
    dsimp only
    cases hint : x.toInt? with
    | none => exact ⟨_, rfl⟩
    | some n => exact ⟨_, if_pos (Binary64.decimalWidth_of_toInt? hint)⟩
  have htruthy : ∃ b, (Value.number (.float x)).isTruthy = .ok b := by
    unfold Value.isTruthy
    dsimp only
    split <;> exact ⟨_, rfl⟩
  refine exists_bind htruthy fun b _ => ?_
  cases b with
  | false => exact ⟨"", rfl⟩
  | true => exact htext

/-- An operand is described unless it holds an integer that is too long, or is one that is
too large. -/
theorem exists_operandText_iff {operand : Value} :
    (∃ s, operandText operand = .ok s) ↔ operand.WithinDigits ∧ operand.InFloatRange := by
  cases operand with
  | null => exact ⟨fun _ => by decide, fun _ => ⟨"", rfl⟩⟩
  | bool b =>
      refine ⟨fun _ => ⟨List.forall_mem_singleton.mpr trivial, trivial⟩, fun _ => ?_⟩
      cases b <;> exact ⟨_, rfl⟩
  | text s =>
      refine ⟨fun _ => ⟨List.forall_mem_singleton.mpr trivial, trivial⟩, fun _ => ?_⟩
      show ∃ t, (if (s != "") = true then _ else _) = _
      split <;> exact ⟨_, rfl⟩
  | number n =>
      cases n with
      | int n => exact exists_operandText_int n
      | float x =>
          have hwithin : (Value.number (.float x)).WithinDigits :=
            List.forall_mem_singleton.mpr trivial
          exact ⟨fun _ => ⟨hwithin, trivial⟩, fun _ => exists_operandText_float x⟩
  | list items =>
      rw [and_iff_left (by trivial), ← Value.exists_toText_iff]
      exact Iff.rfl
  | record fields =>
      rw [and_iff_left (by trivial), ← Value.exists_toText_iff]
      exact Iff.rfl

/-- Whether a condition with the settings can be described. -/
structure Describable (field operand : Value) : Prop where
  named : field.WithinDigits
  shown : operand.WithinDigits
  range : operand.InFloatRange

/-- A condition with an operator that exists is described unless one of its integers is too
long or too large. -/
theorem exists_conditionMessage_iff {field operator operand : Value} {known : Operator}
    (hknown : Operator.ofValue? operator = some known) (met : Bool) :
    (∃ message, conditionMessage field operator operand met = .ok message)
      ↔ Describable field operand := by
  obtain rfl := Operator.ofValue?_eq_some_iff.mp hknown
  constructor
  · rintro ⟨message, h⟩
    obtain ⟨shown, hshown, h⟩ := bind_eq_ok.mp h
    obtain ⟨name, hname, -⟩ := bind_eq_ok.mp h
    obtain ⟨hdigits, hrange⟩ := exists_operandText_iff.mp ⟨shown, hshown⟩
    exact ⟨Value.exists_toText_iff.mp ⟨name, hname⟩, hdigits, hrange⟩
  · intro h
    refine exists_bind (exists_operandText_iff.mpr ⟨h.shown, h.range⟩) fun _ _ => ?_
    exact exists_bind (Value.exists_toText h.named) fun _ _ => ⟨_, rfl⟩

end Outcome

/-! ## Attempts -/

/-- The packet that a value gives when it is handed on: its fields if it is a record. -/
def Value.toPacket (v : Value) : Packet := .ofRecord (v.asRecord?.getD [])

namespace Node

/-- What a node does before anything that goes wrong is turned into an outcome: the packet
that it hands on, and the message. -/
def attempt (n : Node) (input : Packet) : Except Fault (Packet × String) :=
  match n.config with
  | none => .error (.missingConfig n.id)
  | some (.start payload) => .ok (payload.toPacket, "Started workflow execution")
  | some (.transform operation field operand) => do
    let output ← applyTransform operation field operand input
    let operation ← operation.toText
    let field ← field.toText
    return (output, s!"Applied {operation} to {field}")
  | some (.condition field operator operand) => do
    let met ← evaluateCondition field operator operand input
    let message ← Outcome.conditionMessage field operator operand met
    return (input.set conditionKey (.bool met), message)
  | some (.finish _) => .ok (input, "Workflow execution completed")

/-- What a node has made of its packet when it fails. -/
def leftover (n : Node) (input : Packet) : Packet :=
  match n.config with
  | some (.condition field operator operand) =>
    match evaluateCondition field operator operand input with
    | .ok met => input.set conditionKey (.bool met)
    | .error _ => input
  | _ => input

/-- A node that is a condition with the given result, but cannot be described. -/
inductive Undescribed (n : Node) (input : Packet) : Bool → Prop
  | intro {field operator operand : Value} {met : Bool}
      (config : n.config = some (.condition field operator operand))
      (decided : evaluateCondition field operator operand input = .ok met)
      (undescribable : ¬ Outcome.Describable field operand) : Undescribed n input met

end Node

/-- An execution is an attempt whose faults become error outcomes. -/
theorem executeNode_eq (n : Node) (input : Packet) :
    executeNode n input = match n.attempt input with
      | .ok (output, message) => ⟨output, .success, message⟩
      | .error fault => ⟨n.leftover input, .error, fault.message⟩ := by
  unfold executeNode Node.attempt Node.leftover
  cases n.config with
  | none => rfl
  | some config =>
      cases config with
      | start payload => rfl
      | finish label => rfl
      | transform operation field operand =>
          dsimp only
          cases applyTransform operation field operand input with
          | error fault => rfl
          | ok output =>
              cases operation.toText with
              | error fault => rfl
              | ok operation => cases field.toText <;> rfl
      | condition field operator operand =>
          dsimp only
          cases evaluateCondition field operator operand input with
          | error fault => rfl
          | ok met =>
              dsimp only [bind, Except.bind]
              cases Outcome.conditionMessage field operator operand met <;> rfl

theorem known_of_evaluateCondition {field operator operand : Value} {input : Packet}
    {met : Bool} (h : evaluateCondition field operator operand input = .ok met) :
    ∃ known, Operator.ofValue? operator = some known := by
  unfold evaluateCondition at h
  obtain ⟨key, -, h⟩ := bind_eq_ok.mp h
  split at h
  · rename_i known hknown
    exact ⟨known, hknown⟩
  · obtain ⟨_, -, h⟩ := bind_eq_ok.mp h
    obtain ⟨_, -, h⟩ := bind_eq_ok.mp h
    cases h

namespace Node

variable {n : Node} {input : Packet}

/-- A condition that was decided fails exactly if it cannot be described. -/
theorem attempt_of_decided {field operator operand : Value} {met : Bool}
    (hconfig : n.config = some (.condition field operator operand))
    (hdecided : evaluateCondition field operator operand input = .ok met) :
    (∃ fault, n.attempt input = .error fault) ↔ ¬ Outcome.Describable field operand := by
  obtain ⟨known, hknown⟩ := known_of_evaluateCondition hdecided
  have hattempt : n.attempt input
      = (Outcome.conditionMessage field operator operand met).map
          fun message => (input.set conditionKey (.bool met), message) := by
    unfold attempt
    rw [hconfig]
    dsimp only
    rw [hdecided]
    cases hmessage : Outcome.conditionMessage field operator operand met with
    | error fault => exact bind_eq_error.mpr (Or.inr ⟨met, rfl, by rw [hmessage]; rfl⟩)
    | ok message => exact bind_eq_ok.mpr ⟨met, rfl, by rw [hmessage]; rfl⟩
  rw [hattempt, ← Outcome.exists_conditionMessage_iff hknown met]
  cases Outcome.conditionMessage field operator operand met with
  | error fault => exact ⟨fun _ => nofun, fun _ => ⟨fault, rfl⟩⟩
  | ok message => exact ⟨nofun, fun hnone => absurd ⟨message, rfl⟩ hnone⟩

theorem Undescribed.attempt {met : Bool} (h : n.Undescribed input met) :
    ∃ fault, n.attempt input = .error fault := by
  obtain ⟨hconfig, hdecided, hundescribable⟩ := h
  exact (attempt_of_decided hconfig hdecided).mpr hundescribable

theorem Undescribed.leftover {met : Bool} (h : n.Undescribed input met) :
    n.leftover input = input.set conditionKey (.bool met) := by
  obtain ⟨hconfig, hdecided, -⟩ := h
  unfold Node.leftover
  rw [hconfig]
  dsimp only
  rw [hdecided]

/-- A node that fails has changed its packet only if it is a condition that cannot be
described. -/
theorem leftover_of_error {fault : Fault} (h : n.attempt input = .error fault)
    (hdescribed : ∀ met, ¬ n.Undescribed input met) : n.leftover input = input := by
  unfold Node.leftover
  split
  · rename_i field operator operand hconfig
    split
    · rename_i met hdecided
      have hundescribable := (attempt_of_decided hconfig hdecided).mp ⟨fault, h⟩
      exact absurd ⟨hconfig, hdecided, hundescribable⟩ (hdescribed met)
    · rfl
  · rfl

end Node

/-! ## Operations and operators that exist -/

section

variable {node : Node} {input : Packet} {field operand : Value} {key : Key}

/-- A transform with an operation that exists does this to what the packet holds in the
field. -/
theorem applyTransform_of_known {operation : Operation}
    (hfield : Key.ofValue field = .ok key) :
    applyTransform (.text operation.name) field operand input
      = (operation.newValue? (input.get? key) operand).map
        fun v => v.elim input (input.set key) := by
  have hknown : Operation.ofValue? (.text operation.name) = some operation :=
    Operation.ofValue?_eq_some_iff.mpr rfl
  unfold applyTransform
  rw [hfield, hknown]
  cases hvalue : operation.newValue? (input.get? key) operand with
  | error fault => exact bind_eq_error.mpr (.inr ⟨key, rfl, bind_eq_error.mpr (.inl hvalue)⟩)
  | ok v =>
      refine bind_eq_ok.mpr ⟨key, rfl, bind_eq_ok.mpr ⟨v, hvalue, ?_⟩⟩
      cases v <;> rfl

/-- A condition with an operator that exists tests what the packet holds in the field. -/
theorem evaluateCondition_of_known {operator : Operator}
    (hfield : Key.ofValue field = .ok key) :
    evaluateCondition field (.text operator.name) operand input
      = operator.holds (input.get? key) operand := by
  have hknown : Operator.ofValue? (.text operator.name) = some operator :=
    Operator.ofValue?_eq_some_iff.mpr rfl
  unfold evaluateCondition
  rw [hfield, hknown]
  rfl

theorem executeNode_transform (operation : Operation) {name : String}
    (hfield : Key.ofValue field = .ok key) (hname : field.toText = .ok name) :
    executeNode { node with config := some (.transform (.text operation.name) field operand) } input
      = match operation.newValue? (input.get? key) operand with
        | .ok v =>
          ⟨v.elim input (input.set key), .success, s!"Applied {operation.name} to {name}"⟩
        | .error fault => ⟨input, .error, fault.message⟩ := by
  unfold executeNode
  dsimp only
  rw [applyTransform_of_known hfield, hname]
  cases operation.newValue? (input.get? key) operand <;> rfl

theorem executeNode_condition {operator : Operator} {met : Bool}
    (hfield : Key.ofValue field = .ok key) (hdescribed : Outcome.Describable field operand)
    (hmet : operator.holds (input.get? key) operand = .ok met) : ∃ message,
    executeNode { node with config := some (.condition field (.text operator.name) operand) } input
      = ⟨input.set conditionKey (.bool met), .success, message⟩ := by
  have hknown : Operator.ofValue? (.text operator.name) = some operator :=
    Operator.ofValue?_eq_some_iff.mpr rfl
  obtain ⟨message, hmessage⟩ := (Outcome.exists_conditionMessage_iff hknown met).mpr hdescribed
  refine ⟨message, ?_⟩
  unfold executeNode
  dsimp only
  rw [evaluateCondition_of_known hfield, hmet]
  dsimp only
  rw [hmessage]
  rfl

theorem executeNode_condition_error {operator : Operator} {fault : Fault}
    (hfield : Key.ofValue field = .ok key)
    (hfault : operator.holds (input.get? key) operand = .error fault) :
    executeNode { node with config := some (.condition field (.text operator.name) operand) } input
      = ⟨input, .error, fault.message⟩ := by
  unfold executeNode
  dsimp only
  rw [evaluateCondition_of_known hfield, hfault]
  rfl

end

theorem Packet.set_eq_self_iff {p : Packet} {k : Key} {v : Value} :
    p.set k v = p ↔ p.get? k = some v := by
  induction p with
  | nil => exact ⟨nofun, nofun⟩
  | cons field rest ih =>
      obtain ⟨l, w⟩ := field
      rw [set, get?_cons]
      by_cases hl : l.same k = true
      · simp [hl, eq_comm]
      · simp [hl, ih]

/-! ## The headline theorem -/

/-- **A failed node hands on the packet that it received**, unless it is a condition that
cannot be described. Every node gives an outcome, of what it attempts or with the wording of
what ended the attempt. A condition that was decided but cannot be described fails, and what
it hands on holds the result as well, whether the packet did or not. -/
theorem failed_node_hands_on_input (n : Node) (input : Packet) :
    let o := executeNode n input
    (∀ output message, n.attempt input = .ok (output, message) →
      o = ⟨output, .success, message⟩)
    ∧ (∀ fault, n.attempt input = .error fault → o.status = .error ∧ o.message = fault.message)
    ∧ ((∀ met, ¬ n.Undescribed input met) → o.status = .error → o.output = input)
    ∧ ∀ met, n.Undescribed input met → o.status = .error
      ∧ o.output = input.set conditionKey (.bool met)
      ∧ (o.output = input ↔ input.get? conditionKey = some (.bool met)) := by
  intro o
  have ho : o = _ := executeNode_eq n input
  refine ⟨fun output message h => ?_, fun fault h => ?_, fun hdescribed herror => ?_,
    fun met h => ?_⟩
  · rw [ho, h]
  · rw [ho, h]
    exact ⟨rfl, rfl⟩
  · cases hattempt : n.attempt input with
    | ok result =>
        rw [ho, hattempt] at herror
        cases herror
    | error fault =>
        rw [ho, hattempt]
        exact Node.leftover_of_error hattempt hdescribed
  · obtain ⟨fault, hattempt⟩ := h.attempt
    have houtput : o.output = input.set conditionKey (.bool met) := by
      rw [ho, hattempt]
      exact h.leftover
    refine ⟨?_, houtput, ?_⟩
    · rw [ho, hattempt]
    · rw [houtput]
      exact Packet.set_eq_self_iff

/-- A condition whose operand is too large for a floating-point number, and one whose field
is a list: both fail, but only the second hands on what it received. -/
theorem failed_node_hands_on_input_of_two_conditions :
    let node (field operand : Value) : Node :=
      ⟨"check", .condition, .origin, "If-Else",
        some (.condition field (.text "isEmpty") operand)⟩
    let input : Packet := [(.text "flag", .text "on")]
    let vast := executeNode (node (.text "flag") (.int (Nat.pow 10 400))) input
    let listed := executeNode (node (.list []) .null) input
    (vast.status = .error
        ∧ vast.output = [(.text "flag", .text "on"), (.text "_condition_met", .bool false)])
      ∧ listed.status = .error ∧ listed.output = input := by
  intro node input vast listed
  have hvast : (node (.text "flag") (.int (Nat.pow 10 400))).Undescribed input false := by
    refine ⟨rfl, rfl, fun h => ?_⟩
    exact absurd h.range (by decide +kernel)
  have hlisted : ∀ met, ¬ (node (.list []) .null).Undescribed input met := by
    rintro met ⟨hconfig, hdecided, -⟩
    cases hconfig
    cases hdecided
  obtain ⟨-, -, -, hleaves⟩ :=
    failed_node_hands_on_input (node (.text "flag") (.int (Nat.pow 10 400))) input
  obtain ⟨-, hfails, hkeeps, -⟩ := failed_node_hands_on_input (node (.list []) .null) input
  obtain ⟨hstatus, houtput, -⟩ := hleaves false hvast
  have herror : listed.status = .error := (hfails (.unhashable .list) rfl).1
  exact ⟨⟨hstatus, houtput⟩, herror, hkeeps hlisted herror⟩

end Workflow

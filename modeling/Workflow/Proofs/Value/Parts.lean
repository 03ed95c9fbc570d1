import Mathlib.Data.List.Basic
import Workflow.Number.Text
import Workflow.Value.Basic

/-!
# The parts of a value

What is said of a value *everywhere* is said of it and of every value inside it. Two such
conditions say what the text of a value needs: integers short enough to be written
(`WithinDigits`), and nothing that two texts of one kind would hide (`IsJson`: the undefined
number is the one that documents name, and no record repeats a name). The nesting of a value
counts the lists and records around its deepest part; `Fits` joins it to a condition, so that
both can be followed into a value together.
-/

namespace Workflow.Value

/-! ## Induction -/

/-- What holds of a value when it holds of the values right inside it holds of every
value. -/
theorem insideInduction {motive : Value → Prop} (null : motive .null)
    (bool : ∀ b, motive (.bool b)) (number : ∀ n, motive (.number n))
    (text : ∀ s, motive (.text s))
    (list : ∀ items, (∀ v ∈ items, motive v) → motive (.list items))
    (record : ∀ fields, (∀ f ∈ fields, motive f.2) → motive (.record fields)) :
    ∀ v, motive v
  | .null => null
  | .bool b => bool b
  | .number n => number n
  | .text s => text s
  | .list items => list items fun v _ => insideInduction null bool number text list record v
  | .record fields =>
      record fields fun f _ => insideInduction null bool number text list record f.2
termination_by v => sizeOf v
decreasing_by
  · rename_i hv
    have := List.sizeOf_lt_of_mem hv
    simp only [Value.list.sizeOf_spec]
    omega
  · rename_i hf
    have hfield := List.sizeOf_lt_of_mem hf
    obtain ⟨name, v⟩ := f
    simp only [Prod.mk.sizeOf_spec, Value.record.sizeOf_spec] at hfield ⊢
    omega

/-! ## Parts -/

mutual

def parts : Value → List Value
  | .list items => .list items :: partsOfItems items
  | .record fields => .record fields :: partsOfFields fields
  | v => [v]

def partsOfItems : List Value → List Value
  | [] => []
  | v :: vs => parts v ++ partsOfItems vs

def partsOfFields : List (String × Value) → List Value
  | [] => []
  | (_, v) :: fields => parts v ++ partsOfFields fields

end

theorem mem_partsOfItems {w : Value} :
    ∀ {items : List Value}, w ∈ partsOfItems items ↔ ∃ v ∈ items, w ∈ v.parts
  | [] => by simp [partsOfItems]
  | v :: vs => by
      simp only [partsOfItems, List.mem_append, mem_partsOfItems, List.mem_cons, exists_eq_or_imp]

theorem mem_partsOfFields {w : Value} :
    ∀ {fields : List (String × Value)}, w ∈ partsOfFields fields ↔ ∃ f ∈ fields, w ∈ f.2.parts
  | [] => by simp [partsOfFields]
  | (name, v) :: fields => by
      simp only [partsOfFields, List.mem_append, mem_partsOfFields, List.mem_cons,
        exists_eq_or_imp]

/-- Whether a condition holds of a value and of all values inside it. -/
def Everywhere (p : Value → Prop) (v : Value) : Prop := ∀ w ∈ v.parts, p w

instance (p : Value → Prop) [DecidablePred p] (v : Value) : Decidable (v.Everywhere p) :=
  inferInstanceAs (Decidable (∀ w ∈ v.parts, p w))

section

variable {p q : Value → Prop}

theorem everywhere_list {items : List Value} :
    (Value.list items).Everywhere p ↔ p (.list items) ∧ ∀ v ∈ items, v.Everywhere p := by
  unfold Everywhere
  rw [parts, List.forall_mem_cons]
  refine and_congr_right fun _ => ⟨fun h v hv w hw => ?_, fun h w hw => ?_⟩
  · exact h w (mem_partsOfItems.mpr ⟨v, hv, hw⟩)
  · obtain ⟨v, hv, hw⟩ := mem_partsOfItems.mp hw
    exact h v hv w hw

theorem everywhere_record {fields : List (String × Value)} :
    (Value.record fields).Everywhere p ↔ p (.record fields) ∧ ∀ f ∈ fields, f.2.Everywhere p := by
  unfold Everywhere
  rw [parts, List.forall_mem_cons]
  refine and_congr_right fun _ => ⟨fun h f hf w hw => ?_, fun h w hw => ?_⟩
  · exact h w (mem_partsOfFields.mpr ⟨f, hf, hw⟩)
  · obtain ⟨f, hf, hw⟩ := mem_partsOfFields.mp hw
    exact h f hf w hw

theorem everywhere_text {s : String} : (Value.text s).Everywhere p ↔ p (.text s) := by
  simp [Everywhere, parts]

theorem Everywhere.self {v : Value} (h : v.Everywhere p) : p v := by
  refine h v ?_
  cases v with
  | list _ | record _ => exact List.mem_cons_self
  | null | bool _ | number _ | text _ => exact List.mem_singleton_self _

theorem Everywhere.mono {v : Value} (h : v.Everywhere p) (himp : ∀ w, p w → q w) :
    v.Everywhere q :=
  fun w hw => himp w (h w hw)

end

/-! ## Nesting -/

mutual

/-- How many lists and records there are around the deepest part of a value. -/
def nesting : Value → Nat
  | .list items => nestingOfItems items + 1
  | .record fields => nestingOfFields fields + 1
  | _ => 0

def nestingOfItems : List Value → Nat
  | [] => 0
  | v :: vs => max (nesting v) (nestingOfItems vs)

def nestingOfFields : List (String × Value) → Nat
  | [] => 0
  | (_, v) :: fields => max (nesting v) (nestingOfFields fields)

end

theorem nestingOfItems_le {levels : Nat} :
    ∀ {items : List Value}, nestingOfItems items ≤ levels ↔ ∀ v ∈ items, v.nesting ≤ levels
  | [] => by simp [nestingOfItems]
  | v :: vs => by
      rw [nestingOfItems, Nat.max_le, nestingOfItems_le, List.forall_mem_cons]

theorem nestingOfFields_le {levels : Nat} : ∀ {fields : List (String × Value)},
    nestingOfFields fields ≤ levels ↔ ∀ f ∈ fields, f.2.nesting ≤ levels
  | [] => by simp [nestingOfFields]
  | (name, v) :: fields => by
      rw [nestingOfFields, Nat.max_le, nestingOfFields_le, List.forall_mem_cons]

/-- Whether a condition holds everywhere in a value, and the value nests at most so many
levels deep. -/
structure Fits (p : Value → Prop) (levels : Nat) (v : Value) : Prop where
  everywhere : v.Everywhere p
  nesting : v.nesting ≤ levels

section

variable {p : Value → Prop} {levels : Nat}

theorem fits_list {items : List Value} :
    Fits p (levels + 1) (.list items) ↔ p (.list items) ∧ ∀ v ∈ items, Fits p levels v := by
  constructor
  · intro h
    obtain ⟨hself, hitems⟩ := everywhere_list.mp h.everywhere
    have hnesting := nestingOfItems_le.mp (Nat.le_of_succ_le_succ h.nesting)
    exact ⟨hself, fun v hv => ⟨hitems v hv, hnesting v hv⟩⟩
  · rintro ⟨hself, hitems⟩
    refine ⟨everywhere_list.mpr ⟨hself, fun v hv => (hitems v hv).everywhere⟩, ?_⟩
    exact Nat.succ_le_succ (nestingOfItems_le.mpr fun v hv => (hitems v hv).nesting)

theorem fits_record {fields : List (String × Value)} :
    Fits p (levels + 1) (.record fields)
      ↔ p (.record fields) ∧ ∀ f ∈ fields, Fits p levels f.2 := by
  constructor
  · intro h
    obtain ⟨hself, hfields⟩ := everywhere_record.mp h.everywhere
    have hnesting := nestingOfFields_le.mp (Nat.le_of_succ_le_succ h.nesting)
    exact ⟨hself, fun f hf => ⟨hfields f hf, hnesting f hf⟩⟩
  · rintro ⟨hself, hfields⟩
    refine ⟨everywhere_record.mpr ⟨hself, fun f hf => (hfields f hf).everywhere⟩, ?_⟩
    exact Nat.succ_le_succ (nestingOfFields_le.mpr fun f hf => (hfields f hf).nesting)

theorem fits_text {s : String} : Fits p levels (.text s) ↔ p (.text s) :=
  ⟨fun h => h.everywhere.self, fun h => ⟨everywhere_text.mpr h, Nat.zero_le _⟩⟩

theorem mem_of_get? {r : Record} {name : String} {v : Value}
    (h : Record.get? r name = some v) :
    (name, v) ∈ r := by
  obtain ⟨before, rest, rfl, -⟩ := List.lookup_eq_some_iff.mp h
  exact List.mem_append_right _ List.mem_cons_self

theorem Fits.getD {r : Record} (h : Fits p (levels + 1) (.record r)) (name : String)
    {default : Value} (hdefault : Fits p levels default) :
    Fits p levels (Record.getD r name default) := by
  unfold Record.getD
  cases hget : Record.get? r name with
  | none => exact hdefault
  | some v => exact (fits_record.mp h).2 _ (mem_of_get? hget)

theorem Everywhere.getD {r : Record} (h : (Value.record r).Everywhere p) (name : String)
    {default : Value} (hdefault : default.Everywhere p) :
    (Record.getD r name default).Everywhere p := by
  unfold Record.getD
  cases hget : Record.get? r name with
  | none => exact hdefault
  | some v => exact (everywhere_record.mp h).2 _ (mem_of_get? hget)

theorem not_fits_list {items : List Value} : ¬ Fits p 0 (.list items) :=
  fun h => absurd h.nesting (Nat.not_succ_le_zero _)

theorem not_fits_record {fields : List (String × Value)} : ¬ Fits p 0 (.record fields) :=
  fun h => absurd h.nesting (Nat.not_succ_le_zero _)

end

/-! ## Conditions on the text of a value -/

/-- Whether a value is not an integer with too many digits. -/
def DigitsFit : Value → Prop
  | .number (.int n) => Text.decimalWidth n.natAbs ≤ digitLimit
  | _ => True

/-- Whether a value by itself is told from others by its text. -/
def Told : Value → Prop
  | .number n => n ≠ .undefined
  | .record fields => Record.DistinctNames fields
  | _ => True

instance : DecidablePred DigitsFit
  | .number (.int n) => inferInstanceAs (Decidable (Text.decimalWidth n.natAbs ≤ digitLimit))
  | .number (.float _) | .null | .bool _ | .text _ | .list _ | .record _ => isTrue trivial

instance : DecidablePred Told
  | .number n => inferInstanceAs (Decidable (n ≠ Number.undefined))
  | .record fields => inferInstanceAs (Decidable (Record.DistinctNames fields))
  | .null | .bool _ | .text _ | .list _ => isTrue trivial

/-- Whether a value by itself can be written and told from its text. -/
def Faithful (v : Value) : Prop := v.DigitsFit ∧ v.Told

instance : DecidablePred Faithful := fun v => inferInstanceAs (Decidable (v.DigitsFit ∧ v.Told))

/-- Whether no integer in a value has too many digits to be written. -/
def WithinDigits (v : Value) : Prop := v.Everywhere DigitsFit

/-- Whether a value is one that documents hold: records repeat no name, and the undefined
number is the one that documents name. -/
def IsJson (v : Value) : Prop := v.Everywhere Told

/-- Values that documents hold and that can be written are faithful everywhere. -/
theorem fits_faithful {v : Value} (hjson : v.IsJson) (hdigits : v.WithinDigits)
    {levels : Nat} (hnesting : v.nesting ≤ levels) : Fits Faithful levels v :=
  ⟨fun w hw => ⟨hdigits w hw, hjson w hw⟩, hnesting⟩

theorem fits_faithful_text (levels : Nat) (s : String) : Fits Faithful levels (.text s) :=
  fits_text.mpr ⟨trivial, trivial⟩

theorem fits_faithful_null (levels : Nat) : Fits Faithful levels .null :=
  ⟨by decide, Nat.zero_le _⟩

theorem fits_faithful_bool (levels : Nat) (b : Bool) : Fits Faithful levels (.bool b) :=
  ⟨List.forall_mem_singleton.mpr ⟨trivial, trivial⟩, Nat.zero_le _⟩

/-- Every floating-point number is faithful but the undefined one without a name. -/
theorem fits_faithful_float (levels : Nat) {x : Binary64} (h : x ≠ .nan false) :
    Fits Faithful levels (.float x) := by
  have hdefined : Number.float x ≠ .undefined := fun heq => h (Number.float.inj heq)
  exact ⟨List.forall_mem_singleton.mpr ⟨trivial, hdefined⟩, Nat.zero_le _⟩

theorem fits_faithful_list {items : List Value} {levels : Nat} :
    Fits Faithful (levels + 1) (.list items) ↔ ∀ v ∈ items, Fits Faithful levels v := by
  rw [fits_list]
  exact and_iff_right ⟨trivial, trivial⟩

theorem fits_faithful_record {fields : List (String × Value)} {levels : Nat} :
    Fits Faithful (levels + 1) (.record fields)
      ↔ Record.DistinctNames fields ∧ ∀ f ∈ fields, Fits Faithful levels f.2 := by
  rw [fits_record]
  exact and_congr_left' (and_iff_right trivial)

theorem fits_faithful_empty (levels : Nat) : Fits Faithful (levels + 1) (.record []) :=
  fits_faithful_record.mpr ⟨List.nodup_nil, fun _ hf => absurd hf List.not_mem_nil⟩

instance (v : Value) : Decidable v.WithinDigits := inferInstanceAs (Decidable (v.Everywhere _))

instance (v : Value) : Decidable v.IsJson := inferInstanceAs (Decidable (v.Everywhere _))

end Workflow.Value

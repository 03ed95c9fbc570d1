import Workflow.Node.Config
import Workflow.Proofs.Fallible

/-!
# Reading configurations

`ReadFrom` says what a configuration read from a record is made of, one case for each kind,
and `ofRecord_eq_ok_iff` that reading gives just this. A configuration is *regular* when it
could have been read: its operation or operator exists and its names are texts. A regular
configuration is read back from its own settings (`ofRecord_toRecord`).
-/

namespace Workflow

/-- Where everything is found by its name, what is found by a name has this name. -/
theorem find?_name_eq_some_iff {α : Type} {name : α → String} {all : List α}
    (hall : ∀ x, all.find? (fun y => decide (name y = name x)) = some x) {s : String} {x : α} :
    all.find? (fun y => decide (name y = s)) = some x ↔ s = name x := by
  constructor
  · intro h
    have hfound := List.find?_some h
    exact (of_decide_eq_true hfound).symm
  · rintro rfl
    exact hall x

theorem NodeKind.ofName?_eq_some_iff {s : String} {kind : NodeKind} :
    ofName? s = some kind ↔ s = kind.name :=
  find?_name_eq_some_iff ofName?_name

theorem Operation.ofName?_eq_some_iff {s : String} {operation : Operation} :
    ofName? s = some operation ↔ s = operation.name :=
  find?_name_eq_some_iff fun o => by cases o <;> decide

theorem Operator.ofName?_eq_some_iff {s : String} {operator : Operator} :
    ofName? s = some operator ↔ s = operator.name :=
  find?_name_eq_some_iff fun o => by cases o <;> decide

theorem Operation.ofValue?_eq_some_iff {v : Value} {operation : Operation} :
    ofValue? v = some operation ↔ v = .text operation.name := by
  cases v with
  | text s => exact ofName?_eq_some_iff.trans ⟨congrArg Value.text, Value.text.inj⟩
  | null | bool _ | number _ | list _ | record _ => exact ⟨nofun, nofun⟩

theorem Operator.ofValue?_eq_some_iff {v : Value} {operator : Operator} :
    ofValue? v = some operator ↔ v = .text operator.name := by
  cases v with
  | text s => exact ofName?_eq_some_iff.trans ⟨congrArg Value.text, Value.text.inj⟩
  | null | bool _ | number _ | list _ | record _ => exact ⟨nofun, nofun⟩

namespace Config

/-- What the settings of a record are read as. -/
inductive ReadFrom (r : Record) : NodeKind → Config → Prop
  | start : ReadFrom r .start (.start (r.getD "payload" (.record [])))
  | transform {operation : Operation} {field : String}
      (known : r.getD "operation" (.text "uppercase") = .text operation.name)
      (named : (r.getD "field" (.text "message")).toText = .ok field) :
      ReadFrom r .transform
        (.transform (.text operation.name) (.text field) (r.getD "value" .null))
  | condition {operator : Operator} {field : String}
      (known : r.getD "operator" (.text "equals") = .text operator.name)
      (named : (r.getD "field" (.text "message")).toText = .ok field) :
      ReadFrom r .condition
        (.condition (.text field) (.text operator.name) (r.getD "value" (.text "")))
  | finish {label : String} (named : (r.getD "label" (.text "End")).toText = .ok label) :
      ReadFrom r .finish (.finish (.text label))

theorem ofRecord_eq_ok_iff {kind : NodeKind} {r : Record} {c : Config} :
    ofRecord kind r = .ok c ↔ ReadFrom r kind c := by
  constructor
  · intro h
    cases kind with
    | start =>
        obtain rfl := Except.ok.inj h
        exact .start
    | transform =>
        obtain ⟨-, -, h⟩ := bind_eq_ok.mp h
        split at h
        · obtain ⟨_, -, h⟩ := bind_eq_ok.mp h
          cases h
        · rename_i operation hknown
          obtain ⟨field, hfield, h⟩ := bind_eq_ok.mp h
          obtain rfl := Except.ok.inj h
          exact .transform (Operation.ofValue?_eq_some_iff.mp hknown) hfield
    | condition =>
        obtain ⟨-, -, h⟩ := bind_eq_ok.mp h
        split at h
        · obtain ⟨_, -, h⟩ := bind_eq_ok.mp h
          cases h
        · rename_i operator hknown
          obtain ⟨field, hfield, h⟩ := bind_eq_ok.mp h
          obtain rfl := Except.ok.inj h
          exact .condition (Operator.ofValue?_eq_some_iff.mp hknown) hfield
    | finish =>
        obtain ⟨label, hlabel, h⟩ := bind_eq_ok.mp h
        obtain rfl := Except.ok.inj h
        exact .finish hlabel
  · intro h
    cases h with
    | start => rfl
    | transform hknown hnamed =>
        simp only [ofRecord, hknown, Operation.ofValue?_eq_some_iff.mpr rfl, hnamed]
        rfl
    | condition hknown hnamed =>
        simp only [ofRecord, hknown, Operator.ofValue?_eq_some_iff.mpr rfl, hnamed]
        rfl
    | finish hnamed =>
        simp only [ofRecord, hnamed]
        rfl

/-- A configuration is read from what the settings are, in whatever order. -/
theorem ofRecord_congr {kind : NodeKind} {r r' : Record}
    (h : ∀ name, r.get? name = r'.get? name) : ofRecord kind r = ofRecord kind r' := by
  have hsettings : ∀ name default, r.getD name default = r'.getD name default := by
    intro name default
    rw [Record.getD, h, Record.getD]
  cases kind <;> simp only [ofRecord, hsettings]

theorem kind_ofRecord {kind : NodeKind} {r : Record} {c : Config}
    (h : ofRecord kind r = .ok c) : c.kind = kind := by
  cases ofRecord_eq_ok_iff.mp h <;> rfl

theorem kind_initial (kind : NodeKind) : (initial kind).kind = kind := by
  cases kind <;> rfl

/-! ## Regular configurations -/

/-- The configurations with operations and operators that exist and with texts for names. -/
inductive Regular : Config → Prop
  | start (payload : Value) : Regular (.start payload)
  | transform (operation : Operation) (field : String) (value : Value) :
      Regular (.transform (.text operation.name) (.text field) value)
  | condition (field : String) (operator : Operator) (value : Value) :
      Regular (.condition (.text field) (.text operator.name) value)
  | finish (label : String) : Regular (.finish (.text label))

theorem regular_ofRecord {kind : NodeKind} {r : Record} {c : Config}
    (h : ofRecord kind r = .ok c) : c.Regular := by
  cases ofRecord_eq_ok_iff.mp h with
  | start => exact .start _
  | transform _ _ => exact .transform _ _ _
  | condition _ _ => exact .condition _ _ _
  | finish _ => exact .finish _

theorem regular_initial (kind : NodeKind) : (initial kind).Regular := by
  cases kind with
  | start => exact .start _
  | transform => exact .transform .uppercase "message" _
  | condition => exact .condition "message" .equals _
  | finish => exact .finish "End"

/-- **A regular configuration is read back from its settings.** -/
theorem ofRecord_toRecord {c : Config} (h : c.Regular) :
    ofRecord c.kind c.toRecord = .ok c := by
  refine ofRecord_eq_ok_iff.mpr ?_
  cases h with
  | start payload => exact .start
  | transform operation field value =>
      cases value with
      | null => exact .transform rfl rfl
      | bool _ | number _ | text _ | list _ | record _ => exact .transform rfl rfl
  | condition field operator value => exact .condition rfl rfl
  | finish label => exact .finish rfl

/-! ## Configurations that a program gives -/

/-- The configurations with texts for operations, operators and names, whether or not these
exist. -/
inductive Typed : Config → Prop
  | start (payload : Value) : Typed (.start payload)
  | transform (operation field : String) (value : Value) :
      Typed (.transform (.text operation) (.text field) value)
  | condition (field operator : String) (value : Value) :
      Typed (.condition (.text field) (.text operator) value)
  | finish (label : String) : Typed (.finish (.text label))

/-- Whether the operation or the operator exists. -/
def Known : Config → Prop
  | .transform operation _ _ => ∃ o : Operation, operation = .text o.name
  | .condition _ operator _ => ∃ o : Operator, operator = .text o.name
  | .start _ | .finish _ => True

theorem regular_iff {c : Config} : c.Regular ↔ c.Typed ∧ c.Known := by
  constructor
  · intro h
    cases h with
    | start payload => exact ⟨.start payload, trivial⟩
    | transform operation field value => exact ⟨.transform _ field value, operation, rfl⟩
    | condition field operator value => exact ⟨.condition field _ value, operator, rfl⟩
    | finish label => exact ⟨.finish label, trivial⟩
  · rintro ⟨htyped, hknown⟩
    cases htyped with
    | start payload => exact .start payload
    | transform operation field value =>
        obtain ⟨o, ho⟩ := hknown
        exact ho ▸ .transform o field value
    | condition field operator value =>
        obtain ⟨o, ho⟩ := hknown
        exact ho ▸ .condition field o value
    | finish label => exact .finish label

/-- Only a configuration whose operation exists is read back from its settings at all. -/
theorem known_of_ofRecord_toRecord {c c' : Config} (h : ofRecord c.kind c.toRecord = .ok c') :
    c.Known := by
  cases c with
  | start _ | finish _ => trivial
  | transform operation field value =>
      cases ofRecord_eq_ok_iff.mp h with
      | transform hknown _ => exact ⟨_, hknown⟩
  | condition field operator value =>
      cases ofRecord_eq_ok_iff.mp h with
      | condition hknown _ => exact ⟨_, hknown⟩

end Config
end Workflow

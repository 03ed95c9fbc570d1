import Workflow.Proofs.Document.Gate
import Workflow.Proofs.Graph.Regular
import Workflow.Proofs.Value.Text

/-!
# What the gate lets through can be read

`Gate.NodeForm` holds what a record that describes a node must give, with the proofs that it
gives it. The gate has nothing against a record exactly when it has such a form with a new
identity (`checkNode_eq_nil_iff`), and the reader builds the node of the form
(`Node.ofValue_of_form`), so the two never have to be compared branch by branch. Edges only
need texts in three fields.

The sum: whatever the gate lets through is read as long as its integers have texts at all
(`Document.exists_ofValue_of_checkDocument`), and the graph read is regular
(`Document.regular_of_ofValue`).
-/

namespace Workflow

theorem Record.get?_of_getD {r : Record} {name : String} {v : Value}
    (h : r.getD name .null = v) (hv : v ≠ .null) : r.get? name = some v := by
  unfold getD at h
  cases hget : r.get? name with
  | none =>
      rw [hget] at h
      exact absurd h.symm hv
  | some w =>
      rw [hget] at h
      exact congrArg some h

theorem Record.getD_of_get? {r : Record} {name : String} {v : Value}
    (h : r.get? name = some v) (default : Value) : r.getD name default = v := by
  rw [getD, h]
  rfl

namespace Gate

/-! ## Nodes -/

/-- What a record gives that describes a node: the parts of the node and where they stand. -/
structure NodeForm (r : Record) where
  id : String
  kind : NodeKind
  place : Record
  x : Number
  y : Number
  data : Record
  config : Config
  named : id ≠ ""
  id_given : r.get? "id" = some (.text id)
  kind_given : r.getD "type" .null = .text kind.name
  place_given : r.getD "position" .null = .record place
  x_given : place.getD "x" .null = .number x
  y_given : place.getD "y" .null = .number y
  data_given : r.getD "data" .null = .record data
  kind_repeated : data.getD "nodeType" .null = .text kind.name
  config_read : Config.ofValue kind (data.getD "config" .null) = .ok config

theorem idOf?_eq_some_iff {r : Record} {id : String} :
    idOf? r = some id ↔ r.get? "id" = some (.text id) ∧ id ≠ "" := by
  unfold idOf?
  split
  · rename_i name hname
    by_cases hempty : name = ""
    · simp only [hempty, if_true, reduceCtorEq, false_iff, not_and, not_not] at hname ⊢
      rw [hname]
      rintro h
      exact (Value.text.inj (Option.some.inj h)).symm
    · simp only [if_neg hempty, hname, Option.some.injEq, Value.text.injEq]
      exact ⟨fun h => ⟨h, h ▸ hempty⟩, And.left⟩
  · rename_i hother
    exact ⟨nofun, fun h => absurd h.1 (hother id)⟩

theorem checkId_eq_nil_iff {seen : List String} {index : Nat} {r : Record} :
    checkId seen index r = [] ↔ ∃ id, idOf? r = some id ∧ id ∉ seen := by
  unfold checkId
  cases idOf? r with
  | none => simp
  | some id => simp

theorem kindOf?_eq_some_iff {type : Option String} {kind : NodeKind} :
    kindOf? type = some kind ↔ type = some kind.name := by
  unfold kindOf?
  rw [Option.bind_eq_some_iff]
  constructor
  · rintro ⟨name, rfl, hname⟩
    rw [NodeKind.ofName?_eq_some_iff.mp hname]
  · rintro rfl
    exact ⟨kind.name, rfl, kind.ofName?_name⟩

theorem typeText_name (kind : NodeKind) :
    typeText (.text kind.name) = .ok (some kind.name) := by
  cases kind <;> rfl

theorem checkType_eq_nil {index : Nat} {r : Record} {v : Value} {type : Option String}
    (htype : typeText v = .ok type) (h : checkType index r type = .ok []) :
    ∃ kind : NodeKind, v = .text kind.name ∧ type = some kind.name := by
  unfold checkType at h
  split at h
  · cases h
  · rename_i name
    split at h
    · rename_i kind hkind
      obtain hname : some name = some kind.name := kindOf?_eq_some_iff.mp hkind
      obtain rfl := Option.some.inj hname
      refine ⟨kind, ?_, rfl⟩
      cases v with
      | null => cases htype
      | bool _ | number _ | text _ | list _ | record _ =>
          obtain ⟨s, hs, htype⟩ := bind_eq_ok.mp htype
          split at htype
          · cases htype
          · cases htype
            exact Value.eq_text_of_toText_name hs
    · obtain ⟨_, -, h⟩ := bind_eq_ok.mp h
      cases h

theorem isPosition_iff {v : Value} : isPosition v = true ↔
    ∃ place x y, v = .record place ∧ Record.getD place "x" .null = .number x
      ∧ Record.getD place "y" .null = .number y := by
  have hnumber : ∀ w : Value, w.isNumber = true ↔ ∃ n, w = .number n := by
    intro w
    cases w <;> simp [Value.isNumber, Value.asNumber?]
  cases v with
  | record place => simp [isPosition, hnumber]
  | null | bool _ | number _ | text _ | list _ => simp [isPosition]

theorem checkPosition_eq_nil_iff {index : Nat} {r : Record} :
    checkPosition index r = .ok [] ↔ isPosition (r.getD "position" .null) = true := by
  unfold checkPosition
  split
  · rename_i h
    exact ⟨fun _ => h, fun _ => rfl⟩
  · rename_i h
    refine ⟨fun h' => ?_, fun h' => absurd h' h⟩
    obtain ⟨_, -, h'⟩ := bind_eq_ok.mp h'
    cases h'

theorem checkConfig_eq_nil_iff {index : Nat} {r : Record} {kind : NodeKind} {config : Value} :
    checkConfig index r kind config = .ok [] ↔ ∃ c, Config.ofValue kind config = .ok c := by
  unfold checkConfig
  split
  · rename_i c hc
    exact ⟨fun _ => ⟨c, hc⟩, fun _ => rfl⟩
  · rename_i fault hfault
    refine ⟨fun h => ?_, fun ⟨c, hc⟩ => ?_⟩
    · obtain ⟨_, -, h⟩ := bind_eq_ok.mp h
      cases h
    · rw [hfault] at hc
      cases hc
  · rename_i hfault
    refine ⟨nofun, fun ⟨c, hc⟩ => ?_⟩
    rw [hfault] at hc
    cases hc

theorem checkData_eq_nil_iff {index : Nat} {r : Record} {kind : NodeKind} :
    checkData index r (some kind) = .ok [] ↔
      ∃ data config, r.getD "data" .null = .record data
        ∧ Record.getD data "nodeType" .null = .text kind.name
        ∧ Config.ofValue kind (Record.getD data "config" .null) = .ok config := by
  have hrefused : ∀ (index : Nat) (r : Record),
      (do return [.invalidData (← displayOf r index)] : Findings) ≠ .ok [] := by
    intro index r h
    obtain ⟨_, -, h⟩ := bind_eq_ok.mp h
    cases h
  unfold checkData
  split
  · rename_i data hdata
    split
    · unfold checkKindData
      dsimp only
      split
      · rename_i hrepeated
        rw [checkConfig_eq_nil_iff]
        constructor
        · rintro ⟨c, hc⟩
          exact ⟨data, c, hdata, hrepeated, hc⟩
        · rintro ⟨data', c, hdata', -, hc⟩
          obtain rfl := Value.record.inj (hdata.symm.trans hdata')
          exact ⟨c, hc⟩
      · rename_i hother
        constructor
        · intro h
          obtain ⟨_, -, h⟩ := bind_eq_ok.mp h
          obtain ⟨_, -, h⟩ := bind_eq_ok.mp h
          cases h
        · rintro ⟨data', c, hdata', hrepeated, -⟩
          obtain rfl := Value.record.inj (hdata.symm.trans hdata')
          exact absurd hrepeated hother
    · rename_i hempty
      refine ⟨fun h => absurd h (hrefused index r), ?_⟩
      rintro ⟨data', c, hdata', hrepeated, -⟩
      obtain rfl := Value.record.inj (hdata.symm.trans hdata')
      rw [hrepeated] at hempty
      exact absurd (by cases kind <;> rfl) hempty
  · rename_i hother
    refine ⟨fun h => absurd h (hrefused index r), ?_⟩
    rintro ⟨data, c, hdata, -, -⟩
    exact absurd hdata (hother data)

/-- The gate has nothing against a node exactly when its record has the form of one with an
identity that no node before it has. -/
theorem checkNode_eq_nil_iff {seen : List String} {index : Nat} {r : Record} :
    checkNode seen index (.record r) = .ok [] ↔ ∃ f : NodeForm r, f.id ∉ seen := by
  constructor
  · intro h
    obtain ⟨type, htype, h⟩ := bind_eq_ok.mp h
    obtain ⟨typeFindings, hkind, h⟩ := bind_eq_ok.mp h
    obtain ⟨positionFindings, hposition, h⟩ := bind_eq_ok.mp h
    obtain ⟨dataFindings, hdata, h⟩ := bind_eq_ok.mp h
    obtain ⟨hthree, rfl⟩ := List.append_eq_nil_iff.mp (Except.ok.inj h)
    obtain ⟨htwo, rfl⟩ := List.append_eq_nil_iff.mp hthree
    obtain ⟨hid, rfl⟩ := List.append_eq_nil_iff.mp htwo
    obtain ⟨id, hid, hnew⟩ := checkId_eq_nil_iff.mp hid
    obtain ⟨hget, hnamed⟩ := idOf?_eq_some_iff.mp hid
    obtain ⟨kind, hgiven, rfl⟩ := checkType_eq_nil htype hkind
    have hnumeric := checkPosition_eq_nil_iff.mp hposition
    obtain ⟨place, x, y, hplace, hx, hy⟩ := isPosition_iff.mp hnumeric
    rw [kindOf?_eq_some_iff.mpr rfl] at hdata
    obtain ⟨data, config, hdata, hrepeated, hconfig⟩ := checkData_eq_nil_iff.mp hdata
    exact ⟨⟨id, kind, place, x, y, data, config, hnamed, hget, hgiven, hplace, hx, hy, hdata,
      hrepeated, hconfig⟩, hnew⟩
  · rintro ⟨f, hnew⟩
    have hid : checkId seen index r = [] :=
      checkId_eq_nil_iff.mpr ⟨f.id, idOf?_eq_some_iff.mpr ⟨f.id_given, f.named⟩, hnew⟩
    have hkind : checkType index r (some f.kind.name) = .ok [] := by
      simp only [checkType, NodeKind.ofName?_name]
    have hposition : checkPosition index r = .ok [] := by
      rw [checkPosition_eq_nil_iff, f.place_given]
      exact isPosition_iff.mpr ⟨f.place, f.x, f.y, rfl, f.x_given, f.y_given⟩
    have hdata : checkData index r (some f.kind) = .ok [] :=
      checkData_eq_nil_iff.mpr ⟨f.data, f.config, f.data_given, f.kind_repeated, f.config_read⟩
    simp only [checkNode, f.kind_given, typeText_name, hkind, hposition, hid,
      kindOf?_eq_some_iff.mpr rfl, hdata, bind, Except.bind]
    rfl

def NodeForm.node {r : Record} (f : NodeForm r) (label : String) : Node :=
  ⟨f.id, f.kind, ⟨.number f.x, .number f.y⟩, label, some f.config⟩

/-- What is given as the label, or else the label of the kind. -/
def NodeForm.givenLabel {r : Record} (f : NodeForm r) : Value :=
  (f.data.getD "label" .null).orElse (.text f.kind.label)

/-- Nodes without complaints are given by records that have the form of a node. -/
theorem forms_of_checkNodes : ∀ {vs : List Value} {seen : List String} {index : Nat},
    checkNodes seen index vs = .ok [] → ∀ v ∈ vs, ∃ r, v = .record r ∧ Nonempty (NodeForm r)
  | [], _, _, _, _, hv => absurd hv List.not_mem_nil
  | w :: vs, seen, index, h, v, hv => by
      obtain ⟨first, hfirst, h⟩ := bind_eq_ok.mp h
      obtain ⟨rest, hrest, h⟩ := bind_eq_ok.mp h
      obtain ⟨rfl, rfl⟩ := List.append_eq_nil_iff.mp (Except.ok.inj h)
      rcases List.mem_cons.mp hv with rfl | hv
      · cases v with
        | record r =>
            obtain ⟨f, -⟩ := checkNode_eq_nil_iff.mp hfirst
            exact ⟨r, rfl, ⟨f⟩⟩
        | null | bool _ | number _ | text _ | list _ => cases hfirst
      · exact forms_of_checkNodes hrest v hv

end Gate

namespace Value

/-- What stands in for a value with a default is filled when the default is. -/
theorem isFilled_orElse {v w : Value} (hw : w.isFilled = true) :
    (v.orElse w).isFilled = true := by
  unfold orElse
  split
  · assumption
  · exact hw

end Value

theorem NodeKind.name_injective {kind kind' : NodeKind} (h : kind.name = kind'.name) :
    kind = kind' := by
  have hfound : ofName? kind.name = some kind' := ofName?_eq_some_iff.mpr h
  exact Option.some.inj (kind.ofName?_name.symm.trans hfound)

theorem NodeKind.isFilled_name (kind : NodeKind) :
    (Value.text kind.name).isFilled = true := by
  cases kind <;> rfl

theorem NodeKind.isFilled_label (kind : NodeKind) :
    (Value.text kind.label).isFilled = true := by
  cases kind <;> rfl

theorem Config.kind_ofValue {kind : NodeKind} {v : Value} {c : Config}
    (h : ofValue kind v = .ok c) : c.kind = kind := by
  unfold ofValue at h
  split at h
  · exact kind_ofRecord h
  · exact kind_ofRecord h
  · cases h

theorem Config.regular_ofValue {kind : NodeKind} {v : Value} {c : Config}
    (h : ofValue kind v = .ok c) : c.Regular := by
  unfold ofValue at h
  split at h
  · exact regular_ofRecord h
  · exact regular_ofRecord h
  · cases h

namespace Node

/-- A node with a label and the configuration of its kind is built as it is. -/
theorem build_eq {id label : String} {kind : NodeKind} {position : Position} {c : Config}
    (hlabel : label ≠ "") (hkind : c.kind = kind) :
    build id kind.name position label (some c) = .ok ⟨id, kind, position, label, some c⟩ := by
  simp only [build, kind.ofName?_name, Option.getD_some, hkind, if_true, if_neg hlabel]

/-- **A record that has the form of a node is read as this node**, under the text of what it
gives as a label. -/
theorem ofValue_of_form {r : Record} (f : Gate.NodeForm r) :
    ofValue (.record r) = f.givenLabel.toText.map f.node := by
  have hdata : (Value.record f.data).orElse (.record []) = .record f.data := by
    have hfilled : (Value.record f.data).isFilled = true := by
      cases hfields : f.data with
      | nil =>
          have hrepeated := f.kind_repeated
          rw [hfields] at hrepeated
          cases hrepeated
      | cons _ _ => rfl
    exact if_pos hfilled
  have hkind : namedKind r (.record f.data) = .ok (.text f.kind.name) := by
    unfold namedKind
    rw [f.kind_given]
    exact if_pos f.kind.isFilled_name
  have hknown : readKind (r.getD "id" .null) (.text f.kind.name) = .ok f.kind := by
    simp only [readKind, f.kind.ofName?_name]
    rfl
  have hposition : Position.ofValue (.record f.place) = .ok ⟨.number f.x, .number f.y⟩ := by
    have hx := Record.get?_of_getD f.x_given nofun
    have hy := Record.get?_of_getD f.y_given nofun
    simp only [Position.ofValue, hx, hy]
  have hid : (Value.text f.id).toText = .ok f.id := rfl
  have hlabel : (f.data.getD "label" .null).orElse (.text f.kind.label) = f.givenLabel := rfl
  simp only [ofValue, fieldsOf, f.data_given, hdata, hkind, hknown, f.id_given, hid,
    f.place_given, hposition, hlabel, f.config_read, bind, Except.bind]
  cases htext : f.givenLabel.toText with
  | error fault => rfl
  | ok label =>
      have hnamed := Value.toText_ne_empty (Value.isFilled_orElse f.kind.isFilled_label) htext
      exact build_eq hnamed (Config.kind_ofValue f.config_read)

end Node

/-! ## Edges -/

namespace Gate

def edgeFields : List String := ["id", "source", "target"]

theorem checkField_eq_nil_iff {index : Nat} {r : Record} {field : String} :
    checkField index r field = [] ↔ (r.getD field .null).isFilled = true := by
  unfold checkField
  split <;> simp_all

theorem checkEdge_eq_nil_iff {index : Nat} {r : Record} :
    checkEdge index (.record r) = []
      ↔ ∀ field ∈ edgeFields, (r.getD field .null).isFilled = true := by
  simp only [checkEdge, List.append_eq_nil_iff, checkField_eq_nil_iff, edgeFields,
    List.forall_mem_cons, and_assoc]
  simp

/-- An end that is given is known exactly when its text is an identity. -/
theorem checkEnd_eq_nil {ids : List String} {r : Record} {role name : String}
    (hname : (r.getD role .null).toText = .ok name) (hmem : name ∈ ids) :
    checkEnd ids r role = .ok [] := by
  unfold checkEnd
  simp only [hname, bind, Except.bind, if_pos hmem]
  split <;> rfl

theorem checkEdges_eq_nil_iff : ∀ {vs : List Value} {index : Nat},
    checkEdges index vs = [] ↔ ∀ v ∈ vs, ∃ r : Record,
      v = .record r ∧ ∀ field ∈ edgeFields, (r.getD field .null).isFilled = true
  | [], _ => by simp [checkEdges]
  | v :: vs, index => by
      have hfirst : checkEdge index v = [] ↔ ∃ r : Record,
          v = .record r ∧ ∀ field ∈ edgeFields, (r.getD field .null).isFilled = true := by
        cases v with
        | record r => simp only [checkEdge_eq_nil_iff, Value.record.injEq, exists_eq_left']
        | null | bool _ | number _ | text _ | list _ => simp [checkEdge]
      rw [checkEdges, List.append_eq_nil_iff, checkEdges_eq_nil_iff, hfirst, List.forall_mem_cons]

end Gate

namespace Edge

theorem requiredText_eq_ok {r : Record} {name s : String}
    (hfilled : (r.getD name .null).isFilled = true) (hs : (r.getD name .null).toText = .ok s) :
    requiredText r name = .ok s := by
  have hnull : r.getD name .null ≠ .null := by
    intro hnull
    rw [hnull] at hfilled
    cases hfilled
  rw [requiredText, Record.get?_of_getD rfl hnull]
  exact hs

theorem ofValue_record {r : Record} {id source target : String}
    (hfilled : ∀ field ∈ Gate.edgeFields, (r.getD field .null).isFilled = true)
    (hid : (r.getD "id" .null).toText = .ok id)
    (hsource : (r.getD "source" .null).toText = .ok source)
    (htarget : (r.getD "target" .null).toText = .ok target) :
    ofValue (.record r) = .ok
      ⟨id, source, target, r.getD "sourceHandle" .null, r.getD "targetHandle" .null,
        r.getD "label" .null, (r.getD "animated" (.bool false)).isFilled⟩ := by
  have hrequired : ∀ {name s : String}, name ∈ Gate.edgeFields →
      (r.getD name .null).toText = .ok s → requiredText r name = .ok s :=
    fun hname hs => requiredText_eq_ok (hfilled _ hname) hs
  simp only [ofValue, hrequired (by decide) hid, hrequired (by decide) hsource,
    hrequired (by decide) htarget, bind, Except.bind]
  rfl

end Edge

/-! ## Documents -/

theorem Gate.NodeForm.regular {r : Record} (f : NodeForm r) {label : String}
    (hlabel : f.givenLabel.toText = .ok label) : (f.node label).Regular where
  named := f.named
  placed := ⟨_, _, rfl⟩
  labelled := Value.toText_ne_empty (Value.isFilled_orElse f.kind.isFilled_label) hlabel
  configured :=
    ⟨f.config, rfl, Config.kind_ofValue f.config_read, Config.regular_ofValue f.config_read⟩

/-- What stands in for the label of a form has a text when the whole record has one. -/
theorem Gate.NodeForm.exists_label {r : Record} (f : NodeForm r)
    (hdigits : (Value.record r).WithinDigits) :
    ∃ label, f.givenLabel.toText = .ok label := by
  refine Value.exists_toText ?_
  have hdata : (Value.record f.data).WithinDigits :=
    f.data_given ▸ hdigits.getD "data" (by decide)
  unfold NodeForm.givenLabel Value.orElse
  split
  · exact hdata.getD "label" (by decide)
  · exact Value.everywhere_text.mpr trivial

/-- A node that is read from a form is the node of the form under the text of its label. -/
theorem Node.eq_of_form {r : Record} (f : Gate.NodeForm r) {n : Node}
    (h : Node.ofValue (.record r) = .ok n) :
    ∃ label, f.givenLabel.toText = .ok label ∧ n = f.node label := by
  rw [ofValue_of_form f] at h
  cases hlabel : f.givenLabel.toText with
  | error _ =>
      rw [hlabel] at h
      cases h
  | ok label =>
      rw [hlabel] at h
      exact ⟨label, rfl, (Except.ok.inj h).symm⟩

theorem Edge.id_ne_empty {r : Record} {e : Edge} (h : Edge.ofValue (.record r) = .ok e)
    (hfilled : (r.getD "id" .null).isFilled = true) : e.id ≠ "" := by
  obtain ⟨id, hid, h⟩ := bind_eq_ok.mp h
  obtain ⟨source, -, h⟩ := bind_eq_ok.mp h
  obtain ⟨target, -, h⟩ := bind_eq_ok.mp h
  obtain rfl := Except.ok.inj h
  unfold requiredText at hid
  split at hid
  · rename_i v hv
    rw [Record.getD_of_get? hv] at hfilled
    exact Value.toText_ne_empty hfilled hid
  · cases hid

theorem Edge.exists_ofValue {r : Record} {ids : List String}
    (hfilled : ∀ field ∈ Gate.edgeFields, (r.getD field .null).isFilled = true)
    (hsource : ∃ name, (r.getD "source" .null).toText = .ok name ∧ name ∈ ids)
    (htarget : ∃ name, (r.getD "target" .null).toText = .ok name ∧ name ∈ ids)
    (hdigits : (Value.record r).WithinDigits) : ∃ e, Edge.ofValue (.record r) = .ok e := by
  obtain ⟨source, hsource, -⟩ := hsource
  obtain ⟨target, htarget, -⟩ := htarget
  have hwithin : (r.getD "id" .null).WithinDigits := hdigits.getD "id" (by decide)
  obtain ⟨id, hid⟩ := Value.exists_toText hwithin
  exact ⟨_, ofValue_record hfilled hid hsource htarget⟩

namespace Document

/-- **What the gate lets through is read**, as long as its integers have texts. -/
theorem exists_ofValue_of_checkDocument {v : Value} (hgate : checkDocument v = .ok [])
    (hdigits : v.WithinDigits) : ∃ d, Document.ofValue v = .ok d := by
  obtain ⟨r, nodes, edges, rfl, hn, he, hnodes, hedges, hends⟩ := checkDocument_eq_nil hgate
  have hnodesWithin : (Value.list nodes).WithinDigits := hn ▸ hdigits.getD "nodes" (by decide)
  have hedgesWithin : (Value.list edges).WithinDigits := he ▸ hdigits.getD "edges" (by decide)
  have hreadNode : ∀ w ∈ nodes, ∃ n, Node.ofValue w = .ok n := by
    intro w hw
    obtain ⟨q, rfl, ⟨f⟩⟩ := Gate.forms_of_checkNodes hnodes w hw
    obtain ⟨label, hlabel⟩ := f.exists_label ((Value.everywhere_list.mp hnodesWithin).2 _ hw)
    refine ⟨f.node label, ?_⟩
    rw [Node.ofValue_of_form f, hlabel]
    rfl
  have hreadEdge : ∀ w ∈ edges, ∃ e, Edge.ofValue w = .ok e := by
    intro w hw
    obtain ⟨q, rfl, hsource, htarget⟩ := Gate.joined_of_checkEnds hedges hends w hw
    obtain ⟨q', hq, hfilled⟩ := Gate.checkEdges_eq_nil_iff.mp hedges _ hw
    obtain rfl := Value.record.inj hq
    exact Edge.exists_ofValue hfilled hsource htarget
      ((Value.everywhere_list.mp hedgesWithin).2 _ hw)
  obtain ⟨ns, hns⟩ := exists_forall₂ hreadNode
  obtain ⟨es, hes⟩ := exists_forall₂ hreadEdge
  have hn' := Record.getD_of_get? (Record.get?_of_getD hn nofun) (.list [])
  have he' := Record.getD_of_get? (Record.get?_of_getD he nofun) (.list [])
  refine ⟨⟨ns, es, ((Record.getD r "viewport" .null).asRecord?).map .ofRecord⟩, ?_⟩
  simp only [Document.ofValue, Node.fieldsOf, hn', he', itemsOf, mapM_of_forall₂ hns,
    mapM_of_forall₂ hes, bind, Except.bind]
  rfl

/-- A value that passes the gate and can be read is imported, whatever faults are
tolerated. -/
theorem importValue_of_ofValue {v : Value} {d : Document} (hgate : checkDocument v = .ok [])
    (hread : Document.ofValue v = .ok d) (tolerates : Fault → Bool) :
    importValue tolerates v = .ok (.document d) := by
  simp only [importValue, hgate, hread, bind, Except.bind]
  rfl

theorem importText_of_read {text : String} {v : Value} {d : Document}
    (hgate : checkDocument v = .ok []) (hread : Document.ofValue v = .ok d)
    (htext : Json.read text = .ok v) : importText text = .ok (.document d) := by
  simp only [importText, readJson, htext, bind, Except.bind]
  exact importValue_of_ofValue hgate hread _

/-- **What the gate lets through is regular** once it is read. -/
theorem regular_of_ofValue {v : Value} {d : Document} (hgate : checkDocument v = .ok [])
    (hread : Document.ofValue v = .ok d) : Graph.Regular ⟨d.nodes, d.edges⟩ where
  toSound := sound_of_importValue (importValue_of_ofValue hgate hread fun _ => false)
  nodes := by
    obtain ⟨r, nodes, edges, rfl, hn, he, hnodes, -, -⟩ := checkDocument_eq_nil hgate
    intro n hmem
    obtain ⟨w, hw, hnode⟩ := exists_of_mem_right (ofValue_eq_ok hread hn he).1 hmem
    obtain ⟨q, rfl, ⟨f⟩⟩ := Gate.forms_of_checkNodes hnodes w hw
    obtain ⟨label, hlabel, rfl⟩ := Node.eq_of_form f hnode
    exact f.regular hlabel
  edges := by
    obtain ⟨r, nodes, edges, rfl, hn, he, -, hedges, -⟩ := checkDocument_eq_nil hgate
    intro e hmem
    obtain ⟨w, hw, hedge⟩ := exists_of_mem_right (ofValue_eq_ok hread hn he).2 hmem
    obtain ⟨q, rfl, hfilled⟩ := Gate.checkEdges_eq_nil_iff.mp hedges w hw
    exact Edge.id_ne_empty hedge (hfilled "id" (by decide))

end Document

end Workflow

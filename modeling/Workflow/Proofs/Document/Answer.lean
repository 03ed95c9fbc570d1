import Workflow.Proofs.Document.Codec
import Workflow.Proofs.Json.Reading

/-!
# The gate answers

The gate finds complaints about any value at all, as long as the integers in it can be
written and no configuration has a list or a record in the place of an operation or operator.
Such a configuration is the one thing the gate does not answer: it looks the name up before
it looks at its shape. What stops it is followed from the parts of a node to the document
(`fails_checkDocument`).

A value that was read from text has no other integers. So a text gives a document or
problems, and a document that it gives is regular and can be written again.

The headline is `Document.importText_answers`.
-/

namespace Workflow

open Value

/-! ## Configurations -/

/-- The setting that names what nodes of a kind do, if there is one. -/
def NodeKind.namedBy? : NodeKind → Option String
  | .transform => some "operation"
  | .condition => some "operator"
  | .start | .finish => none

namespace Config

/-- The name of what nodes of a kind do is not given by a list or a record. -/
def NamesPlainly (kind : NodeKind) (r : Record) : Prop :=
  ∀ name ∈ kind.namedBy?, (Record.getD r name .null).checkHashable = .ok ()

theorem NamesPlainly.checkHashable {kind : NodeKind} {r : Record} (h : NamesPlainly kind r)
    {name : String} (hname : kind.namedBy? = some name) (default : String) :
    (Record.getD r name (.text default)).checkHashable = .ok () := by
  have hplain := h name hname
  unfold Record.getD at hplain ⊢
  cases hget : Record.get? r name with
  | none => rfl
  | some v =>
      rw [hget] at hplain
      exact hplain

/-- Settings that name plainly are read, refused by the model, or stopped by a long
integer. -/
theorem fails_ofRecord_of_namesPlainly {kind : NodeKind} {r : Record}
    (h : NamesPlainly kind r) :
    Fails (fun fault => (∃ met, fault = .model met) ∨ (Value.record r).Overlong fault)
      (ofRecord kind r) := by
  have htext : ∀ name default, Fails
      (fun fault => (∃ met, fault = .model met) ∨ (Value.record r).Overlong fault)
      (Record.getD r name (.text default)).toText :=
    fun name default =>
      (fails_toText_getD r name (everywhere_text.mpr trivial)).mono fun _ => .inr
  cases kind with
  | start => exact .ok _
  | transform =>
      have hplain := h.checkHashable rfl "uppercase"
      unfold ofRecord
      dsimp only
      rw [hplain]
      refine Fails.bind (.ok ()) fun _ _ => ?_
      split
      · exact (htext "operation" "uppercase").bind fun _ _ => .throw (.inl ⟨_, rfl⟩)
      · exact (htext "field" "message").bind fun _ _ => .ok _
  | condition =>
      have hplain := h.checkHashable rfl "equals"
      unfold ofRecord
      dsimp only
      rw [hplain]
      refine Fails.bind (.ok ()) fun _ _ => ?_
      split
      · exact (htext "operator" "equals").bind fun _ _ => .throw (.inl ⟨_, rfl⟩)
      · exact (htext "field" "message").bind fun _ _ => .ok _
  | finish => exact (htext "label" "End").bind fun _ _ => .ok _

/-- Settings that name plainly give a configuration, or the model refuses them. -/
theorem ofRecord_answers {kind : NodeKind} {r : Record} (hnames : NamesPlainly kind r)
    (hdigits : (Value.record r).WithinDigits) :
    (∃ c, ofRecord kind r = .ok c) ∨ ∃ fault, ofRecord kind r = .error (.model fault) := by
  cases hread : ofRecord kind r with
  | ok c => exact .inl ⟨c, rfl⟩
  | error fault =>
      rcases fails_ofRecord_of_namesPlainly hnames fault hread with ⟨met, rfl⟩ | hlong
      · exact .inr ⟨met, rfl⟩
      · exact absurd hdigits hlong.2

/-- Settings that name by a list or a record what a node does are not even refused. -/
theorem ofRecord_of_unhashable {kind : NodeKind} {name : String}
    (hname : name ∈ kind.namedBy?) {r : Record} {v : Value}
    (hget : Record.get? r name = some v) {container : Container}
    (hv : v.checkHashable = .error (.unhashable container)) :
    ofRecord kind r = .error (.unhashable container) := by
  have hgiven : ∀ default, Record.getD r name default = v := by
    intro default
    unfold Record.getD
    rw [hget]
    rfl
  cases kind with
  | transform | condition =>
      obtain rfl := Option.some.inj hname
      unfold ofRecord
      dsimp only
      rw [hgiven, hv]
      rfl
  | start | finish => cases hname

theorem exists_get?_of_not_namesPlainly {kind : NodeKind} {r : Record}
    (h : ¬ NamesPlainly kind r) :
    ∃ name ∈ kind.namedBy?, ∃ v container, Record.get? r name = some v
      ∧ v.checkHashable = .error (.unhashable container) := by
  unfold NamesPlainly at h
  push Not at h
  obtain ⟨name, hname, hcheck⟩ := h
  refine ⟨name, hname, ?_⟩
  unfold Record.getD at hcheck
  cases hget : Record.get? r name with
  | none =>
      rw [hget] at hcheck
      exact absurd rfl hcheck
  | some v =>
      rw [hget] at hcheck
      cases v with
      | list _ => exact ⟨_, .list, rfl, rfl⟩
      | record _ => exact ⟨_, .record, rfl, rfl⟩
      | null | bool _ | number _ | text _ => exact absurd rfl hcheck

/-- What stops a configuration from being read, other than the model. -/
def Blocked (kind : NodeKind) (r : Record) (fault : Fault) : Prop :=
  (Value.record r).Overlong fault
    ∨ ∃ container, fault = .unhashable container ∧ ¬ NamesPlainly kind r

theorem fails_ofRecord (kind : NodeKind) (r : Record) :
    Fails (fun fault => (∃ met, fault = .model met) ∨ Blocked kind r fault) (ofRecord kind r) := by
  by_cases hnames : NamesPlainly kind r
  · exact (fails_ofRecord_of_namesPlainly hnames).mono fun _ h => h.imp_right .inl
  · obtain ⟨name, hname, v, container, hget, hv⟩ := exists_get?_of_not_namesPlainly hnames
    rw [ofRecord_of_unhashable hname hget hv]
    exact .throw (.inr (.inr ⟨container, rfl, hnames⟩))

end Config

/-! ## Nodes -/

/-- A node whose kind has a name for what its nodes do does not give it by a list or a
record. -/
def Gate.NamesPlainly (v : Value) : Prop :=
  ∀ (r data settings : Record) (kind : NodeKind), v = .record r →
    r.getD "type" .null = .text kind.name → r.getD "data" .null = .record data →
    data.getD "nodeType" .null = .text kind.name → data.getD "config" .null = .record settings →
    Config.NamesPlainly kind settings

namespace Gate

theorem eq_text_of_typeText {v : Value} {type : Option String}
    (htype : typeText v = .ok type) {kind : NodeKind} (hkind : kindOf? type = some kind) :
    v = .text kind.name := by
  have hchecked : checkType 0 [] type = .ok [] := by
    rw [kindOf?_eq_some_iff.mp hkind]
    unfold checkType
    dsimp only
    rw [NodeKind.ofName?_name]
  obtain ⟨kind', hv, hname⟩ := checkType_eq_nil htype hchecked
  rw [kindOf?_eq_some_iff.mp hkind] at hname
  rw [hv, ← Option.some.inj hname]

section

variable (r : Record) (index : Nat)

theorem fails_displayOf : Fails (Value.record r).Overlong (displayOf r index) := by
  unfold displayOf
  dsimp only
  split
  · exact fails_toText_getD r "id" (by decide)
  · exact .ok _

theorem fails_complaint (complaint : String → Complaint) :
    Fails (Value.record r).Overlong (do return [complaint (← displayOf r index)] : Findings) :=
  (fails_displayOf r index).bind fun _ _ => .ok _

theorem fails_checkType (type : Option String) :
    Fails (Value.record r).Overlong (checkType index r type) := by
  unfold checkType
  split
  · exact .ok _
  · split
    · exact .ok _
    · exact fails_complaint r index _

theorem fails_checkPosition : Fails (Value.record r).Overlong (checkPosition index r) := by
  unfold checkPosition
  split
  · exact .ok _
  · exact fails_complaint r index _

theorem fails_checkConfig (kind : NodeKind) (config : Value) :
    Fails (fun fault => (Value.record r).Overlong fault
        ∨ ∃ settings, config = .record settings ∧ Config.Blocked kind settings fault)
      (checkConfig index r kind config) := by
  have hvalue : Fails (fun fault => (∃ met, fault = .model met)
      ∨ ∃ settings, config = .record settings ∧ Config.Blocked kind settings fault)
      (Config.ofValue kind config) := by
    cases config with
    | null =>
        have hplain : Config.NamesPlainly kind [] := fun _ _ => rfl
        refine (Config.fails_ofRecord_of_namesPlainly hplain).mono fun fault h => ?_
        exact h.imp_right fun hlong => absurd (by decide) hlong.2
    | record settings =>
        exact (Config.fails_ofRecord kind settings).mono fun _ h =>
          h.imp_right fun hblocked => ⟨settings, rfl, hblocked⟩
    | bool _ | number _ | text _ | list _ => exact .throw (.inl ⟨_, rfl⟩)
  unfold checkConfig
  split
  · exact .ok _
  · exact (fails_complaint r index _).mono fun _ => .inl
  · rename_i fault hother heq
    rcases hvalue fault heq with ⟨met, rfl⟩ | hblocked
    · exact absurd rfl (hother met)
    · exact .throw (.inr hblocked)

end

/-- What the gate stops at in a node: an integer that is too long to be shown, or a name that
is given by a list or a record. -/
def Blocked (v : Value) (fault : Fault) : Prop :=
  v.Overlong fault ∨ ∃ container, fault = .unhashable container ∧ ¬ NamesPlainly v

theorem fails_checkData (r : Record) (index : Nat) {kind : Option NodeKind}
    (hkind : ∀ k ∈ kind, r.getD "type" .null = .text k.name) :
    Fails (Blocked (.record r)) (checkData index r kind) := by
  have hcomplaint := fun complaint =>
    (fails_complaint r index complaint).mono (q := Blocked (.record r)) fun _ => .inl
  unfold checkData
  split
  · rename_i data hdata
    have hinside : ∀ fault, (Value.record data).Overlong fault → (Value.record r).Overlong fault :=
      fun fault h => Overlong.of_getD (hdata.symm ▸ h) (by decide)
    split
    · cases kind with
      | none => exact .ok _
      | some kind =>
          dsimp only
          unfold checkKindData
          dsimp only
          split
          · rename_i hrepeated
            refine (fails_checkConfig r index kind _).mono fun fault h => ?_
            rcases h with hlong | ⟨settings, hsettings, hlong | ⟨container, hfault, hnames⟩⟩
            · exact .inl hlong
            · exact .inl (hinside fault (Overlong.of_getD (hsettings.symm ▸ hlong) (by decide)))
            · refine .inr ⟨container, hfault, fun hplain => hnames ?_⟩
              exact hplain r data settings kind rfl (hkind kind rfl) hdata hrepeated hsettings
          · refine ((fails_displayOf r index).mono fun _ => .inl).bind fun _ _ => ?_
            refine Fails.bind ?_ fun _ _ => .ok _
            exact (fails_toText_getD data "nodeType" (by decide)).mono fun fault h =>
              .inl (hinside fault h)
    · exact hcomplaint _
  · exact hcomplaint _

theorem fails_typeText (v : Value) : Fails v.Overlong (typeText v) := by
  cases v with
  | null => exact .ok _
  | bool _ | number _ | text _ | list _ | record _ =>
      exact (fails_toText _).bind fun _ _ => .ok _

theorem fails_checkNode (seen : List String) (index : Nat) (v : Value) :
    Fails (Blocked v) (checkNode seen index v) := by
  cases v with
  | record r =>
      have htype : Fails (Blocked (.record r)) (typeText (Record.getD r "type" .null)) :=
        (fails_typeText _).mono fun _ h => .inl (Overlong.of_getD h (by decide))
      refine htype.bind fun type htype => ?_
      refine ((fails_checkType r index type).mono fun _ => .inl).bind fun _ _ => ?_
      refine ((fails_checkPosition r index).mono fun _ => .inl).bind fun _ _ => ?_
      refine (fails_checkData r index fun k hk => ?_).bind fun _ _ => .ok _
      exact eq_text_of_typeText htype hk
  | null | bool _ | number _ | text _ | list _ => exact .ok _

theorem fails_checkNodes : ∀ (seen : List String) (index : Nat) (vs : List Value),
    Fails (fun fault => ∃ v ∈ vs, Blocked v fault) (checkNodes seen index vs)
  | _, _, [] => .ok _
  | seen, index, v :: vs =>
      (fails_checkNode seen index v).head.bind fun _ _ =>
        (fails_checkNodes (addId seen v) (index + 1) vs).tail.bind fun _ _ => .ok _

/-! ## Edges -/

theorem fails_checkEnd (ids : List String) (r : Record) (role : String) :
    Fails (Value.record r).Overlong (checkEnd ids r role) := by
  unfold checkEnd
  dsimp only
  split
  · exact .ok _
  · refine (fails_toText_getD r role (by decide)).bind fun _ _ => ?_
    split
    · exact .ok _
    · exact (fails_toText_getD r "id" (by decide)).bind fun _ _ => .ok _

theorem fails_checkEnds (ids : List String) : ∀ vs : List Value,
    Fails (fun fault => ∃ v ∈ vs, v.Overlong fault) (checkEnds ids vs)
  | [] => .ok _
  | v :: vs => by
      cases v with
      | record r =>
          refine (fails_checkEnd ids r "source").head.bind fun _ _ => ?_
          refine (fails_checkEnd ids r "target").head.bind fun _ _ => ?_
          exact (fails_checkEnds ids vs).tail.bind fun _ _ => .ok _
      | null | bool _ | number _ | text _ | list _ => exact (fails_checkEnds ids vs).tail

theorem fails_checkEdgesOf (nodes edges : Value) :
    Fails edges.Overlong (checkEdgesOf nodes edges) := by
  cases edges with
  | list edges =>
      have hends : ∀ ids, Fails (Value.list edges).Overlong (checkEnds ids edges) := fun ids =>
        (fails_checkEnds ids edges).mono fun _ ⟨w, hw, hlong⟩ => hlong.of_mem hw
      unfold checkEdgesOf
      dsimp only
      split
      · exact (hends _).bind fun _ _ => .ok _
      · exact .ok _
  | null | bool _ | number _ | text _ | record _ => exact .ok _

end Gate

/-! ## Documents -/

/-- The nodes that a value gives, if it is to be a document. -/
def Document.nodesGiven : Value → List Value
  | .record r =>
    match Record.getD r "nodes" .null with
    | .list nodes => nodes
    | _ => []
  | _ => []

/-- Every node that a value gives names plainly what it does. -/
def Document.NamesPlainly (v : Value) : Prop := ∀ w ∈ nodesGiven v, Gate.NamesPlainly w

/-- What the gate stops at in a value: an integer that is too long to be shown, or a node
whose name for what it does is a list or a record. -/
def Document.Blocked (v : Value) (fault : Fault) : Prop :=
  v.Overlong fault ∨ ∃ container, fault = .unhashable container ∧ ¬ NamesPlainly v

theorem fails_checkDocument (v : Value) : Fails (Document.Blocked v) (checkDocument v) := by
  cases v with
  | record r =>
      have hnodes : Fails (Document.Blocked (.record r))
          (Gate.checkNodesOf (Record.getD r "nodes" .null)) := by
        cases hlist : Record.getD r "nodes" .null with
        | list nodes =>
            refine (Gate.fails_checkNodes [] 0 nodes).mono fun fault ⟨w, hw, hblocked⟩ => ?_
            rcases hblocked with hlong | ⟨container, hfault, hnames⟩
            · have hgiven : (Record.getD r "nodes" .null).Overlong fault := hlist ▸ hlong.of_mem hw
              exact .inl (hgiven.of_getD (by decide))
            · refine .inr ⟨container, hfault, fun hplain => hnames (hplain w ?_)⟩
              unfold Document.nodesGiven
              dsimp only
              rw [hlist]
              exact hw
        | null | bool _ | number _ | text _ | record _ => exact .ok _
      have hedges := (Gate.fails_checkEdgesOf (Record.getD r "nodes" .null)
        (Record.getD r "edges" .null)).mono (q := Document.Blocked (.record r)) fun _ h =>
          .inl (h.of_getD (by decide))
      exact hnodes.bind fun _ _ => hedges.bind fun _ _ => .ok _
  | null | bool _ | number _ | text _ | list _ => exact .ok _

theorem exists_checkDocument {v : Value} (hdigits : v.WithinDigits)
    (hnames : Document.NamesPlainly v) : ∃ complaints, checkDocument v = .ok complaints := by
  refine (fails_checkDocument v).exists_ok fun fault hblocked => ?_
  rcases hblocked with hlong | ⟨container, -, hlist⟩
  · exact hlong.2 hdigits
  · exact hlist hnames

namespace Document

/-- A document that is as one that was read: regular, and its integers can be written. -/
structure Sturdy (d : Document) : Prop where
  regular : Graph.Regular ⟨d.nodes, d.edges⟩
  digits : d.toValue.WithinDigits

theorem sturdy_of_read {text : String} {v : Value} {d : Document}
    (hread : Json.read text = .ok v) (hgate : checkDocument v = .ok [])
    (hd : ofValue v = .ok d) : d.Sturdy where
  regular := regular_of_ofValue hgate hd
  digits := by
    have hfits : Fits Faithful (984 + 6) d.toValue :=
      fits_toValue hgate hd (Json.fits_of_read hread)
    exact hfits.everywhere.mono fun _ hw => hw.1

theorem read_of_readJson {text : String} {v : Value} (h : readJson text = .ok (.ok v)) :
    Json.read text = .ok v := by
  unfold readJson at h
  split at h
  · rename_i w hw
    rw [hw, Except.ok.inj (Except.ok.inj h)]
  · cases h
  · cases h

theorem readJson_of_read {text : String} {v : Value} (h : Json.read text = .ok v) :
    readJson text = .ok (.ok v) := by
  unfold readJson
  rw [h]

theorem fault_of_readJson {text : String} {fault : Fault} (h : readJson text = .error fault) :
    Json.read text = .error (.fault fault) := by
  unfold readJson at h
  split at h
  · cases h
  · cases h
  · rename_i met hmet
    rw [hmet, Except.error.inj h]

theorem sturdy_of_importText {text : String} {d : Document}
    (h : importText text = .ok (.document d)) : d.Sturdy := by
  obtain ⟨read, hread, himport⟩ := bind_eq_ok.mp h
  cases read with
  | error problem => cases himport
  | ok v =>
      obtain ⟨hgate, hd⟩ := importValue_eq_document himport
      exact sturdy_of_read (read_of_readJson hread) hgate hd

/-- **A text gives a document or problems**, when it is read without meeting a limit and its
nodes name plainly what they do. -/
theorem importText_answers {text : String}
    (hlimits : ∀ fault, Json.read text ≠ .error (.fault fault))
    (hnames : ∀ v, Json.read text = .ok v → NamesPlainly v) :
    ∃ imported, importText text = .ok imported ∧ ∀ d, imported = .document d → d.Sturdy := by
  have hanswers : ∃ imported, importText text = .ok imported := by
    cases hread : Json.read text with
    | error refusal =>
        cases refusal with
        | fault fault => exact absurd hread (hlimits fault)
        | malformed problem left =>
            have hjson : readJson text = .ok (.error problem) := by
              unfold readJson
              rw [hread]
            exact ⟨_, bind_eq_ok.mpr ⟨_, hjson, rfl⟩⟩
    | ok v =>
        have hjson := readJson_of_read hread
        have hdigits := Json.withinDigits_of_read hread
        obtain ⟨complaints, hgate⟩ := exists_checkDocument hdigits (hnames v hread)
        have hvalue : ∃ imported, importValue Fault.isModel v = .ok imported := by
          cases complaints with
          | nil =>
              obtain ⟨d, hd⟩ := exists_ofValue_of_checkDocument hgate hdigits
              exact ⟨_, importValue_of_ofValue hgate hd _⟩
          | cons complaint complaints => exact ⟨_, bind_eq_ok.mpr ⟨_, hgate, rfl⟩⟩
        obtain ⟨imported, himported⟩ := hvalue
        exact ⟨imported, bind_eq_ok.mpr ⟨_, hjson, himported⟩⟩
  obtain ⟨imported, himported⟩ := hanswers
  refine ⟨imported, himported, ?_⟩
  rintro d rfl
  exact sturdy_of_importText himported

end Document
end Workflow

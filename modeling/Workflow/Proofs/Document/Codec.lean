import Workflow.Proofs.Document.Reading

/-!
# Documents are read back from their values

A document with a regular graph is a fixed point of the codec: the value it gives passes the
gate and is read as the document (`checkDocument_toValue`, `ofValue_toValue`). What is left
out of the value (a null setting, an absent handle, an edge that is not animated, a view) is
what the readers take for absent. A graph that only lacks labels is read with those of the
kinds (`reads_of_typed`); the value of one that lacks more does not pass the gate
(`known_of_checkDocument`).

The value of a document that was read holds nothing but texts, names that differ, and parts
of the value read, each at the depth at which it stood. So it is faithful where that value
was (`fits_toValue`).
-/

namespace Workflow

/-! ## Nodes -/

namespace Node

/-- The value of a node that lacks at most a label has the form of this node. -/
theorem exists_form {n : Node} (h : n.withLabel.Regular) : ∃ r, n.toValue = .record r
    ∧ ∃ f : Gate.NodeForm r, f.id = n.id ∧ (∀ label, f.node label = { n with label })
      ∧ f.givenLabel = (Value.text n.label).orElse (.text n.kind.label) := by
  obtain ⟨id, kind, position, label, config⟩ := n
  have hnamed : id ≠ "" := h.named
  have hplaced : position.Numeric := h.placed
  have hconfigured : ∃ c, config = some c ∧ c.kind = kind ∧ c.Regular := h.configured
  obtain ⟨x, y, rfl⟩ := hplaced
  obtain ⟨c, rfl, rfl, hregular⟩ := hconfigured
  refine ⟨_, rfl, ⟨id, c.kind, [("x", .number x), ("y", .number y)], x, y,
    [("label", .text label), ("config", .record c.toRecord), ("nodeType", .text c.kind.name)], c,
    hnamed, rfl, rfl, rfl, rfl, rfl, rfl, rfl, Config.ofRecord_toRecord hregular⟩, rfl, ?_, rfl⟩
  exact fun _ => rfl

theorem ofValue_toValue {n : Node} (h : n.withLabel.Regular) :
    ofValue n.toValue = .ok n.withLabel := by
  obtain ⟨r, hr, f, -, hnode, hlabel⟩ := exists_form h
  have htext : f.givenLabel.toText = .ok n.withLabel.label := by
    rw [hlabel]
    unfold withLabel
    dsimp only
    by_cases hempty : n.label = ""
    · rw [hempty]
      rfl
    · have hfilled : (Value.text n.label).isFilled = true := bne_iff_ne.mpr hempty
      rw [if_neg hempty, Value.orElse, if_pos hfilled]
      rfl
  rw [hr, ofValue_of_form f, htext]
  exact congrArg Except.ok (hnode _)

/-- A node whose value has the form of any node has an operation that exists. -/
theorem known_of_form {n : Node} {r : Record} (hr : n.toValue = .record r)
    (f : Gate.NodeForm r) {c : Config} (hc : n.config = some c) (hkind : c.kind = n.kind) :
    c.Known := by
  obtain ⟨id, kind, position, label, config⟩ := n
  subst hc hkind
  have hfields := Value.record.inj hr
  have hgivenKind : r.getD "type" .null = .text c.kind.name := hfields ▸ rfl
  have hgivenData : r.getD "data" .null = .record [("label", .text label),
      ("config", .record c.toRecord), ("nodeType", .text c.kind.name)] := hfields ▸ rfl
  have hsame : c.kind = f.kind :=
    NodeKind.name_injective (Value.text.inj (hgivenKind.symm.trans f.kind_given))
  have hdata := Value.record.inj (hgivenData.symm.trans f.data_given)
  have hread := f.config_read
  rw [← hsame, ← hdata] at hread
  exact Config.known_of_ofRecord_toRecord hread

end Node

namespace Gate

theorem checkNode_toValue {n : Node} (h : n.withLabel.Regular) {seen : List String}
    (hnew : n.id ∉ seen) (index : Nat) : checkNode seen index n.toValue = .ok [] := by
  obtain ⟨r, hr, f, hid, -, -⟩ := Node.exists_form h
  rw [hr]
  exact checkNode_eq_nil_iff.mpr ⟨f, hid ▸ hnew⟩

theorem addId_toValue {n : Node} (h : n.withLabel.Regular) {seen : List String}
    (hnew : n.id ∉ seen) : addId seen n.toValue = seen ++ [n.id] := by
  obtain ⟨r, hr, f, hid, -, -⟩ := Node.exists_form h
  have hknown : idOf? r = some n.id := hid ▸ idOf?_eq_some_iff.mpr ⟨f.id_given, f.named⟩
  rw [hr]
  simp only [addId, hknown, if_neg hnew]

/-- The gate has nothing against nodes that lack at most labels and have identities of their
own, and knows these identities afterwards. -/
theorem checkNodes_toValue : ∀ {nodes : List Node} {seen : List String} {index : Nat},
    (∀ n ∈ nodes, n.withLabel.Regular) → (nodes.map (·.id)).Nodup → (∀ n ∈ nodes, n.id ∉ seen) →
    checkNodes seen index (nodes.map Node.toValue) = .ok []
      ∧ (nodes.map Node.toValue).foldl addId seen = seen ++ nodes.map (·.id)
  | [], seen, _, _, _, _ => ⟨rfl, (List.append_nil seen).symm⟩
  | n :: nodes, seen, index, hregular, hnodup, hnew => by
      obtain ⟨hfirst, hrest⟩ := List.forall_mem_cons.mp hregular
      obtain ⟨hapart, hnodup⟩ := List.nodup_cons.mp hnodup
      have hfresh := hnew n List.mem_cons_self
      have hstill : ∀ m ∈ nodes, m.id ∉ seen ++ [n.id] := by
        intro m hm hmem
        rcases List.mem_append.mp hmem with hmem | hmem
        · exact hnew m (List.mem_cons_of_mem _ hm) hmem
        · have hid := List.mem_singleton.mp hmem
          exact hapart (List.mem_map.mpr ⟨m, hm, hid⟩)
      obtain ⟨hchecked, hknown⟩ := @checkNodes_toValue nodes _ (index + 1) hrest hnodup hstill
      have hone := checkNode_toValue hfirst hfresh index
      rw [List.map_cons, List.foldl_cons, addId_toValue hfirst hfresh, hknown, List.map_cons]
      simp only [checkNodes, hone, addId_toValue hfirst hfresh, hchecked, bind, Except.bind]
      exact ⟨rfl, by simp⟩

end Gate

/-! ## Edges -/

theorem Record.getD_append (r r' : Record) (name : String) (default : Value) :
    Record.getD (r ++ r') name default = r.getD name (r'.getD name default) := by
  simp only [Record.getD, Record.get?, List.lookup_append]
  cases List.lookup name r <;> rfl

namespace Edge

/-- A field that is left out when it is null is null when it is left out. -/
theorem getD_field? (name : String) (v : Value) : (field? name v).getD name .null = v := by
  unfold field?
  cases v <;> simp [Value.isNull, Record.getD, Record.get?]

theorem getD_field?_of_ne {name other : String} (h : other ≠ name) (v default : Value) :
    (field? name v).getD other default = default := by
  have hne : (other == name) = false := beq_false_of_ne h
  unfold field?
  split <;> simp [Record.getD, Record.get?, List.lookup_cons, hne]

theorem fields_toValue (e : Edge) : ∃ r : Record, e.toValue = .record r
    ∧ r.getD "id" .null = .text e.id ∧ r.getD "source" .null = .text e.source
    ∧ r.getD "target" .null = .text e.target ∧ r.getD "sourceHandle" .null = e.sourceHandle
    ∧ r.getD "targetHandle" .null = e.targetHandle ∧ r.getD "label" .null = e.label
    ∧ (r.getD "animated" (.bool false)).isFilled = e.animated := by
  have hlast : ∀ {name : String} {default : Value}, name ≠ "animated" →
      Record.getD (if e.animated then [("animated", .bool true)] else []) name default
        = default := by
    intro name default hname
    have hne : (name == "animated") = false := beq_false_of_ne hname
    cases e.animated <;> simp [Record.getD, Record.get?, List.lookup_cons, hne]
  refine ⟨_, rfl, rfl, rfl, rfl, ?_, ?_, ?_, ?_⟩
  all_goals
    simp (disch := decide) only [Record.getD_append, getD_field?_of_ne, hlast, getD_field?]
  · rfl
  · rfl
  · rfl
  · cases e.animated <;> rfl

theorem filled_toValue {e : Edge} (hid : e.id ≠ "") (hsource : e.source ≠ "")
    (htarget : e.target ≠ "") : ∃ r : Record, e.toValue = .record r
      ∧ ∀ field ∈ Gate.edgeFields, (r.getD field .null).isFilled = true := by
  obtain ⟨r, hr, hgivenId, hgivenSource, hgivenTarget, -⟩ := fields_toValue e
  refine ⟨r, hr, ?_⟩
  simp only [Gate.edgeFields, List.forall_mem_cons, hgivenId, hgivenSource, hgivenTarget]
  simp [Value.isFilled, hid, hsource, htarget]

/-- **An edge is read back from its value.** -/
theorem ofValue_toValue {e : Edge} (hid : e.id ≠ "") (hsource : e.source ≠ "")
    (htarget : e.target ≠ "") : ofValue e.toValue = .ok e := by
  obtain ⟨r, hr, hfilled⟩ := filled_toValue hid hsource htarget
  obtain ⟨r', hr', hgivenId, hgivenSource, hgivenTarget, hsourceHandle, htargetHandle, hlabel,
    hanimated⟩ := fields_toValue e
  obtain rfl := Value.record.inj (hr.symm.trans hr')
  rw [hr, ofValue_record hfilled (congrArg Value.toText hgivenId)
    (congrArg Value.toText hgivenSource) (congrArg Value.toText hgivenTarget), hsourceHandle,
    htargetHandle, hlabel, hanimated]

end Edge

namespace Gate

theorem checkEnds_toValue {ids : List String} : ∀ {edges : List Edge},
    (∀ e ∈ edges, e.source ∈ ids ∧ e.target ∈ ids) →
      checkEnds ids (edges.map Edge.toValue) = .ok []
  | [], _ => rfl
  | e :: edges, h => by
      obtain ⟨⟨hsource, htarget⟩, hrest⟩ := List.forall_mem_cons.mp h
      obtain ⟨r, hr, -, hgivenSource, hgivenTarget, -⟩ := e.fields_toValue
      have hfirst := checkEnd_eq_nil (congrArg Value.toText hgivenSource) hsource
      have hsecond := checkEnd_eq_nil (congrArg Value.toText hgivenTarget) htarget
      rw [List.map_cons, hr]
      simp only [checkEnds, hfirst, hsecond, checkEnds_toValue hrest, bind, Except.bind]
      rfl

end Gate

/-! ## Documents -/

namespace Document

variable {d : Document}

theorem fields_toValue (d : Document) : ∃ r : Record, d.toValue = .record r
    ∧ r.get? "nodes" = some (.list (d.nodes.map Node.toValue))
    ∧ r.get? "edges" = some (.list (d.edges.map Edge.toValue))
    ∧ r.getD "viewport" .null = Value.ofOption (d.viewport.map Viewport.toValue) := by
  obtain ⟨nodes, edges, viewport⟩ := d
  cases viewport <;> exact ⟨_, rfl, rfl, rfl, rfl⟩

/-- The document with the labels of kinds for those that are missing. -/
def withLabels (d : Document) : Document := { d with nodes := d.nodes.map Node.withLabel }

theorem ends_of_typed {g : Graph} (h : g.Typed) {e : Edge} (he : e ∈ g.edges) :
    e.source ≠ "" ∧ e.target ≠ "" := by
  have hnamed : ∀ id ∈ g.nodes.map (·.id), id ≠ "" := by
    intro id hid
    obtain ⟨n, hn, rfl⟩ := List.mem_map.mp hid
    exact (h.nodes n hn).named
  obtain ⟨hsource, htarget⟩ := h.joined e he
  exact ⟨hnamed _ hsource, hnamed _ htarget⟩

/-- **The value of a document that lacks at most labels** passes the gate, and is read as the
document with the labels of the kinds. -/
theorem reads_of_typed (h : Graph.Typed ⟨d.nodes, d.edges⟩)
    (hknown : Graph.Known ⟨d.nodes, d.edges⟩) :
    checkDocument d.toValue = .ok [] ∧ Document.ofValue d.toValue = .ok d.withLabels := by
  have hregular : ∀ n ∈ d.nodes, n.withLabel.Regular :=
    fun n hn => (h.nodes n hn).regular_withLabel (hknown n hn)
  obtain ⟨r, hr, hnodes, hedges, hviewport⟩ := d.fields_toValue
  obtain ⟨hchecked, hids⟩ := @Gate.checkNodes_toValue d.nodes [] 0 hregular h.distinct
    fun _ _ => List.not_mem_nil
  constructor
  · have hends : Gate.checkEnds (Gate.idsOf (d.nodes.map Node.toValue)) (d.edges.map Edge.toValue)
        = .ok [] := by
      refine Gate.checkEnds_toValue fun e he => ?_
      rw [Gate.idsOf, hids]
      exact h.joined e he
    have hown : Gate.checkEdges 0 (d.edges.map Edge.toValue) = [] := by
      refine Gate.checkEdges_eq_nil_iff.mpr fun v hv => ?_
      obtain ⟨e, he, rfl⟩ := List.mem_map.mp hv
      obtain ⟨hsource, htarget⟩ := ends_of_typed h he
      exact Edge.filled_toValue (h.edges e he) hsource htarget
    have hview : Gate.checkViewport (r.getD "viewport" .null) = [] := by
      rw [hviewport]
      cases d.viewport <;> rfl
    simp only [checkDocument, hr, Record.getD_of_get? hnodes, Record.getD_of_get? hedges,
      Gate.checkNodesOf, Gate.checkEdgesOf, hchecked, hown, hends, hview, bind, Except.bind]
    rfl
  · have hreadNodes : (d.nodes.map Node.toValue).mapM Node.ofValue
        = .ok (d.nodes.map Node.withLabel) :=
      mapM_map fun n hn => Node.ofValue_toValue (hregular n hn)
    have hreadEdges : (d.edges.map Edge.toValue).mapM Edge.ofValue = .ok (d.edges.map id) := by
      refine mapM_map fun e he => ?_
      obtain ⟨hsource, htarget⟩ := ends_of_typed h he
      exact Edge.ofValue_toValue (h.edges e he) hsource htarget
    rw [List.map_id] at hreadEdges
    have hview : ((r.getD "viewport" .null).asRecord?).map Viewport.ofRecord = d.viewport := by
      rw [hviewport]
      cases d.viewport <;> rfl
    simp only [hr, Document.ofValue, Node.fieldsOf, Record.getD_of_get? hnodes,
      Record.getD_of_get? hedges, itemsOf, hreadNodes, hreadEdges, hview, bind, Except.bind]
    rfl

/-- **The value of a regular document passes the gate.** -/
theorem checkDocument_toValue (h : Graph.Regular ⟨d.nodes, d.edges⟩) :
    checkDocument d.toValue = .ok [] :=
  (reads_of_typed h.typed h.known).1

/-- **A regular document is read back from its value.** -/
theorem ofValue_toValue (h : Graph.Regular ⟨d.nodes, d.edges⟩) :
    Document.ofValue d.toValue = .ok d := by
  have hnodes := congrArg Graph.nodes h.labelled.withLabels_eq
  rw [(reads_of_typed h.typed h.known).2]
  exact congrArg (fun nodes => Except.ok (Document.mk nodes d.edges d.viewport)) hnodes

/-- **The value of a document passes the gate only if all operations exist.** -/
theorem known_of_checkDocument (h : Graph.Sound ⟨d.nodes, d.edges⟩)
    (hgate : checkDocument d.toValue = .ok []) : Graph.Known ⟨d.nodes, d.edges⟩ := by
  intro n hn c hc
  obtain ⟨r, hr, hnodes, -⟩ := d.fields_toValue
  obtain ⟨r', nodes, -, hr', hget, -, hchecked, -⟩ := checkDocument_eq_nil hgate
  obtain rfl := Value.record.inj (hr.symm.trans hr')
  obtain rfl := Value.list.inj ((Record.getD_of_get? hnodes .null).symm.trans hget)
  obtain ⟨q, hq, ⟨f⟩⟩ := Gate.forms_of_checkNodes hchecked _ (List.mem_map_of_mem hn)
  obtain ⟨c', hc', hkind⟩ := h.configured n hn
  obtain rfl := Option.some.inj (hc.symm.trans hc')
  exact Node.known_of_form hq f hc hkind

end Document

/-! ## What a document holds was in the value it was read from -/

section

open Value

variable {levels : Nat}

theorem Config.fits_toRecord {kind : NodeKind} {r : Record} {c : Config}
    (h : Fits Faithful (levels + 2) (.record r)) (hread : ofRecord kind r = .ok c) :
    Fits Faithful (levels + 2) (.record c.toRecord) := by
  have htext : ∀ s, Fits Faithful (levels + 1) (.text s) := fits_faithful_text _
  cases ofRecord_eq_ok_iff.mp hread with
  | start =>
      refine fits_faithful_record.mpr ⟨List.nodup_singleton _, ?_⟩
      exact List.forall_mem_singleton.mpr (h.getD "payload" (fits_faithful_empty _))
  | transform _ _ =>
      have hvalue := h.getD "value" (fits_faithful_null _)
      generalize Record.getD r "value" .null = value at hvalue
      cases hleft : value.isNull with
      | true =>
          refine fits_faithful_record.mpr ⟨by simp [toRecord, Record.DistinctNames, hleft], ?_⟩
          simp [toRecord, htext, hleft]
      | false =>
          refine fits_faithful_record.mpr ⟨by simp [toRecord, Record.DistinctNames, hleft], ?_⟩
          simp [toRecord, htext, hvalue, hleft]
  | condition _ _ =>
      have hvalue := h.getD "value" (htext "")
      refine fits_faithful_record.mpr ⟨by simp [toRecord, Record.DistinctNames], ?_⟩
      simp [toRecord, htext, hvalue]
  | finish _ =>
      refine fits_faithful_record.mpr ⟨List.nodup_singleton _, ?_⟩
      exact List.forall_mem_singleton.mpr (htext _)

theorem Config.fits_toRecord_of_ofValue {kind : NodeKind} {v : Value} {c : Config}
    (h : Fits Faithful (levels + 2) v) (hread : ofValue kind v = .ok c) :
    Fits Faithful (levels + 2) (.record c.toRecord) := by
  unfold ofValue at hread
  split at hread
  · exact fits_toRecord (fits_faithful_empty _) hread
  · exact fits_toRecord h hread
  · cases hread

/-- The node of a form holds what stood in the form, each part at its depth. -/
theorem Gate.NodeForm.fits_toValue {r : Record} (f : NodeForm r)
    (h : Fits Faithful (levels + 4) (.record r)) (label : String) :
    Fits Faithful (levels + 4) (f.node label).toValue := by
  have hplace : Fits Faithful (levels + 3) (.record f.place) :=
    f.place_given ▸ h.getD "position" (fits_faithful_null _)
  have hx : Fits Faithful (levels + 2) (.number f.x) :=
    f.x_given ▸ hplace.getD "x" (fits_faithful_null _)
  have hy : Fits Faithful (levels + 2) (.number f.y) :=
    f.y_given ▸ hplace.getD "y" (fits_faithful_null _)
  have hdata : Fits Faithful (levels + 3) (.record f.data) :=
    f.data_given ▸ h.getD "data" (fits_faithful_null _)
  have hconfig : Fits Faithful (levels + 2) (.record f.config.toRecord) :=
    Config.fits_toRecord_of_ofValue (hdata.getD "config" (fits_faithful_null _)) f.config_read
  have hposition : Fits Faithful (levels + 3) (f.node label).position.toValue := by
    refine fits_faithful_record.mpr ⟨by simp [Record.DistinctNames], ?_⟩
    simp [node, hx, hy]
  have hown : Fits Faithful (levels + 3) (.record [("label", .text label),
      ("config", .record f.config.toRecord), ("nodeType", .text f.kind.name)]) := by
    refine fits_faithful_record.mpr ⟨by simp [Record.DistinctNames], ?_⟩
    simp [fits_faithful_text, hconfig]
  refine fits_faithful_record.mpr ⟨by simp [Record.DistinctNames], ?_⟩
  simp only [List.forall_mem_cons]
  exact ⟨fits_faithful_text _ _, fits_faithful_text _ _, hposition, hown,
    fun _ hf => absurd hf List.not_mem_nil⟩

theorem Edge.names_field? (name : String) (v : Value) :
    ((field? name v).map Prod.fst).Sublist [name] := by
  unfold field?
  split
  · exact List.nil_sublist _
  · exact .refl _

theorem Edge.fits_field? {name : String} {v : Value} (h : Fits Faithful levels v) :
    ∀ f ∈ field? name v, Fits Faithful levels f.2 := by
  unfold field?
  split
  · exact fun _ hf => absurd hf List.not_mem_nil
  · exact List.forall_mem_singleton.mpr h

theorem Edge.distinctNames_toValue (e : Edge) {r : Record} (h : e.toValue = .record r) :
    r.DistinctNames := by
  have hanimated : ((if e.animated then [("animated", Value.bool true)] else []).map
      Prod.fst).Sublist ["animated"] := by
    cases e.animated
    · exact List.nil_sublist _
    · exact .refl _
  have hnames : (r.map Prod.fst).Sublist
      ["id", "source", "target", "sourceHandle", "targetHandle", "label", "animated"] := by
    obtain rfl := Value.record.inj h
    simp only [List.map_append]
    exact (((List.Sublist.refl ["id", "source", "target"]).append (names_field? ..)).append
      (names_field? ..)).append (names_field? ..) |>.append hanimated
  exact hnames.nodup (by decide)

theorem Edge.fits_toValue {r : Record} {e : Edge}
    (h : Fits Faithful (levels + 1) (.record r)) (hread : Edge.ofValue (.record r) = .ok e) :
    Fits Faithful (levels + 1) e.toValue := by
  obtain ⟨id, -, hread⟩ := bind_eq_ok.mp hread
  obtain ⟨source, -, hread⟩ := bind_eq_ok.mp hread
  obtain ⟨target, -, hread⟩ := bind_eq_ok.mp hread
  obtain rfl := Except.ok.inj hread
  refine fits_faithful_record.mpr ⟨distinctNames_toValue _ rfl, ?_⟩
  simp only [List.forall_mem_append, List.forall_mem_cons]
  refine ⟨⟨⟨⟨⟨?_, ?_, ?_, ?_⟩, ?_⟩, ?_⟩, ?_⟩, ?_⟩
  · exact fits_faithful_text _ _
  · exact fits_faithful_text _ _
  · exact fits_faithful_text _ _
  · exact fun _ hf => absurd hf List.not_mem_nil
  · exact fits_field? (h.getD "sourceHandle" (fits_faithful_null _))
  · exact fits_field? (h.getD "targetHandle" (fits_faithful_null _))
  · exact fits_field? (h.getD "label" (fits_faithful_null _))
  · split
    · exact List.forall_mem_singleton.mpr (fits_faithful_bool _ _)
    · exact fun _ hf => absurd hf List.not_mem_nil

theorem Viewport.fits_toValue {r : Record} (h : Fits Faithful (levels + 1) (.record r)) :
    Fits Faithful (levels + 1) (ofRecord r).toValue := by
  have hzero : Fits Faithful levels initial.x := fits_faithful_float _ (by rintro ⟨⟩)
  have hzoom : Fits Faithful levels initial.zoom := by
    refine fits_faithful_float _ ?_
    unfold Binary64.ofRatio Binary64.ofQuanta
    split <;> rintro ⟨⟩
  refine fits_faithful_record.mpr ⟨by simp [Record.DistinctNames], ?_⟩
  simp only [List.forall_mem_cons]
  exact ⟨h.getD "x" hzero, h.getD "y" hzero, h.getD "zoom" hzoom,
    fun _ hf => absurd hf List.not_mem_nil⟩

/-- The view of a document that is read is that of its value, if it is a record. -/
theorem Document.viewport_of_ofValue {r : Record} {d : Document}
    (h : Document.ofValue (.record r) = .ok d) :
    d.viewport = ((r.getD "viewport" .null).asRecord?).map .ofRecord := by
  obtain ⟨r', hr, h⟩ := bind_eq_ok.mp h
  obtain rfl : r = r' := Except.ok.inj hr
  obtain ⟨nodeItems, -, h⟩ := bind_eq_ok.mp h
  obtain ⟨nodes, -, h⟩ := bind_eq_ok.mp h
  obtain ⟨edgeItems, -, h⟩ := bind_eq_ok.mp h
  obtain ⟨edges, -, h⟩ := bind_eq_ok.mp h
  obtain rfl := Except.ok.inj h
  rfl

/-- **The value of a document that was read fits where the value read did**, which nests at
least as deep as every document may. -/
theorem Document.fits_toValue {v : Value} {d : Document} (hgate : checkDocument v = .ok [])
    (hread : Document.ofValue v = .ok d) (h : Fits Faithful (levels + 6) v) :
    Fits Faithful (levels + 6) d.toValue := by
  obtain ⟨r, nodes, edges, rfl, hn, he, hnodes, hedges, hends⟩ := checkDocument_eq_nil hgate
  obtain ⟨hreadNodes, hreadEdges⟩ := ofValue_eq_ok hread hn he
  have hviewport := viewport_of_ofValue hread
  have hnodeList : Fits Faithful (levels + 5) (.list nodes) :=
    hn ▸ h.getD "nodes" (fits_faithful_null _)
  have hedgeList : Fits Faithful (levels + 5) (.list edges) :=
    he ▸ h.getD "edges" (fits_faithful_null _)
  have hnodesFit : Fits Faithful (levels + 5) (.list (d.nodes.map Node.toValue)) := by
    refine fits_faithful_list.mpr (List.forall_mem_map.mpr fun n hmem => ?_)
    obtain ⟨w, hw, hnode⟩ := exists_of_mem_right hreadNodes hmem
    obtain ⟨q, rfl, ⟨f⟩⟩ := Gate.forms_of_checkNodes hnodes w hw
    obtain ⟨label, -, rfl⟩ := Node.eq_of_form f hnode
    exact f.fits_toValue (fits_faithful_list.mp hnodeList _ hw) label
  have hedgesFit : Fits Faithful (levels + 5) (.list (d.edges.map Edge.toValue)) := by
    refine fits_faithful_list.mpr (List.forall_mem_map.mpr fun e hmem => ?_)
    obtain ⟨w, hw, hedge⟩ := exists_of_mem_right hreadEdges hmem
    obtain ⟨q, rfl, -⟩ := Gate.checkEdges_eq_nil_iff.mp hedges w hw
    exact Edge.fits_toValue (fits_faithful_list.mp hedgeList _ hw) hedge
  unfold toValue
  cases hview : Record.getD r "viewport" .null with
  | record w =>
      have hw : Fits Faithful (levels + 5) (.record w) :=
        hview ▸ h.getD "viewport" (fits_faithful_null _)
      rw [hviewport, hview]
      refine fits_faithful_record.mpr ⟨by simp [Value.asRecord?, Record.DistinctNames], ?_⟩
      simp only [Value.asRecord?, Option.map_some, List.cons_append, List.nil_append,
        List.forall_mem_cons]
      exact ⟨hnodesFit, hedgesFit, Viewport.fits_toValue hw,
        fun _ hf => absurd hf List.not_mem_nil⟩
  | null | bool _ | number _ | text _ | list _ =>
      rw [hviewport, hview]
      refine fits_faithful_record.mpr ⟨by simp [Value.asRecord?, Record.DistinctNames], ?_⟩
      simp only [Value.asRecord?, Option.map_none, List.append_nil, List.forall_mem_cons]
      exact ⟨hnodesFit, hedgesFit, fun _ hf => absurd hf List.not_mem_nil⟩

end

end Workflow

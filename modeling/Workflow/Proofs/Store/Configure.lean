import Workflow.Proofs.Graph.Sturdy
import Workflow.Proofs.Store.Request

/-!
# Changing settings one after another

A node is configured by merging changes into the record of its settings and reading the
result. The record leaves out a null and the reader fills in defaults and makes texts of
names, but what was read once is read from its own record in the same way, whatever is merged
into it (`Config.ofRecord_merge_toRecord`). So two changes one after another are one change,
which merges both; and settings that no change names keep their values.

The headline is `configure_merges`.
-/

namespace Workflow

namespace Config

/-! ## Reading what was merged -/

/-- All settings by name, with those that are null. -/
def settings : Config → Record
  | .start payload => [("payload", payload)]
  | .transform operation field value =>
    [("operation", operation), ("field", field), ("value", value)]
  | .condition field operator value =>
    [("field", field), ("operator", operator), ("value", value)]
  | .finish label => [("label", label)]

/-- Whether the field or the label is a text. -/
def NamedByText : Config → Prop
  | .start _ => True
  | .transform _ field _ => ∃ s, field = .text s
  | .condition field _ _ => ∃ s, field = .text s
  | .finish label => ∃ s, label = .text s

theorem toText_getD_congr {v w : Value} (h : v.toText = w.toText) (change : Option Value) :
    (change.getD v).toText = (change.getD w).toText := by
  cases change with
  | none => exact h
  | some _ => rfl

/-- **What was read is read from its record in the same way, whatever is merged into it.** -/
theorem ofRecord_merge_toRecord {kind : NodeKind} {r : Record} {c : Config}
    (h : ofRecord kind r = .ok c) {changes : Record} (hchanges : changes.DistinctNames) :
    ofRecord kind (c.toRecord.merge changes) = ofRecord kind (r.merge changes) := by
  have hmerge := Record.getD_merge hchanges
  have hkept : ∀ {name default}, c.toRecord.getD name default = r.getD name default →
      (c.toRecord.merge changes).getD name default = (r.merge changes).getD name default := by
    intro name default hsame
    rw [hmerge, hmerge, hsame]
  have hnamed : ∀ {name default}, (c.toRecord.getD name default).toText
        = (r.getD name default).toText →
      ((c.toRecord.merge changes).getD name default).toText
        = ((r.merge changes).getD name default).toText := by
    intro name default hsame
    rw [hmerge, hmerge]
    exact toText_getD_congr hsame _
  cases ofRecord_eq_ok_iff.mp h with
  | start =>
      have hpayload := @hkept "payload" (.record []) rfl
      simp only [ofRecord, hpayload]
  | @transform operation field hoperation hfield =>
      have hoperation := @hkept "operation" (.text "uppercase") hoperation.symm
      have hfield := @hnamed "field" (.text "message") hfield.symm
      have hvalue := @hkept "value" .null (by cases r.getD "value" .null <;> rfl)
      simp only [ofRecord, hoperation, hfield, hvalue]
  | @condition operator field hoperator hfield =>
      have hoperator := @hkept "operator" (.text "equals") hoperator.symm
      have hfield := @hnamed "field" (.text "message") hfield.symm
      have hvalue := @hkept "value" (.text "") rfl
      simp only [ofRecord, hoperator, hfield, hvalue]
  | @finish label hlabel =>
      have hlabel := @hnamed "label" (.text "End") hlabel.symm
      simp only [ofRecord, hlabel]

theorem text_eq_of_toText {v : Value} {s text : String} (hv : v = .text s)
    (h : v.toText = .ok text) : Value.text text = .text s := by
  subst hv
  exact congrArg Value.text (Except.ok.inj h).symm

/-- **Settings that no change names keep their values.** -/
theorem get?_settings_of_unnamed {c c' : Config} (htext : c.NamedByText) {changes : Record}
    (h : ofRecord c.kind (c.toRecord.merge changes) = .ok c') {name : String}
    (hname : name ∉ changes.map Prod.fst) :
    c'.settings.get? name = c.settings.get? name := by
  have hkept : ∀ {name} default, name ∉ changes.map Prod.fst →
      (c.toRecord.merge changes).getD name default = c.toRecord.getD name default := by
    intro name default hname
    rw [Record.getD, Record.get?_merge_of_forall_ne, Record.getD]
    exact fun change hchange hsame => hname (List.mem_map.mpr ⟨change, hchange, hsame⟩)
  -- Settings of one kind stand in one order, so it is enough to compare those of each name.
  refine Record.get?_congr ?_ hname
  cases c with
  | start payload =>
      cases ofRecord_eq_ok_iff.mp h with
      | start => exact .cons ⟨rfl, fun h => hkept _ h⟩ .nil
  | transform operation field value =>
      obtain ⟨s, rfl⟩ := htext
      cases ofRecord_eq_ok_iff.mp h with
      | transform hoperation hfield =>
          refine .cons ⟨rfl, fun h => ?_⟩ (.cons ⟨rfl, fun h => ?_⟩ (.cons ⟨rfl, fun h => ?_⟩ .nil))
          · exact hoperation.symm.trans (hkept _ h)
          · exact text_eq_of_toText (hkept _ h) hfield
          · refine (hkept _ h).trans ?_
            cases value <;> rfl
  | condition field operator value =>
      obtain ⟨s, rfl⟩ := htext
      cases ofRecord_eq_ok_iff.mp h with
      | condition hoperator hfield =>
          refine .cons ⟨rfl, fun h => ?_⟩ (.cons ⟨rfl, fun h => ?_⟩ (.cons ⟨rfl, fun h => ?_⟩ .nil))
          · exact text_eq_of_toText (hkept _ h) hfield
          · exact hoperator.symm.trans (hkept _ h)
          · exact hkept _ h
  | finish label =>
      obtain ⟨s, rfl⟩ := htext
      cases ofRecord_eq_ok_iff.mp h with
      | finish hlabel => exact .cons ⟨rfl, fun h => text_eq_of_toText (hkept _ h) hlabel⟩ .nil

end Config

/-! ## Configuring a node twice -/

namespace Node

def withConfig (n : Node) (c : Config) : Node := { n with config := some c }

/-- Two changes one after another are one change, which merges both. -/
theorem changedConfig_changedConfig {n : Node} {c : Config} {first second : Record}
    (hfirst : first.DistinctNames) (hsecond : second.DistinctNames)
    (h : n.changedConfig (.settings (.record first)) = .ok c) :
    (n.withConfig c).changedConfig (.settings (.record second))
      = n.changedConfig (.settings (.record (first.merge second))) := by
  rw [changedConfig_record] at h
  have hread := Config.ofRecord_merge_toRecord h hsecond
  calc (n.withConfig c).changedConfig (.settings (.record second))
      = Config.ofRecord n.kind (c.toRecord.merge second) := rfl
    _ = Config.ofRecord n.kind ((n.settings.merge first).merge second) := hread
    _ = Config.ofRecord n.kind (n.settings.merge (first.merge second)) :=
      Config.ofRecord_congr fun name =>
        (Record.get?_merge_merge hfirst hsecond n.settings name).symm

end Node

namespace Store

section

variable {s : Store} {id : String} {n : Node} (hfound : s.graph.findNode? id = some n)
include hfound

/-- A change of settings is answered as the new configuration is read. -/
theorem configure_answer (change : ConfigChange) : (s.configure id change).1
    = ((n.changedConfig change).map fun _ => true).mapError .fault := by
  unfold configure
  rw [hfound]
  dsimp only
  cases n.changedConfig change <;> rfl

theorem configure_eq_ok_iff {change : ConfigChange} :
    (s.configure id change).1 = .ok true ↔ ∃ c, n.changedConfig change = .ok c := by
  rw [configure_answer hfound]
  cases n.changedConfig change with
  | ok c => exact ⟨fun _ => ⟨c, rfl⟩, fun _ => rfl⟩
  | error f => exact ⟨nofun, fun ⟨_, h⟩ => nomatch h⟩

theorem graph_of_configure {change : ConfigChange} {c : Config}
    (h : n.changedConfig change = .ok c) :
    (s.configure id change).2.graph = s.graph.updateNode id (·.withConfig c) := by
  have hcommits : s.Commits (s.graph.updateNode id (·.withConfig c))
      (commit { s with graph := s.graph.updateNode id (·.withConfig c) } (.configure id)) :=
    commits_commit rfl rfl rfl rfl rfl
  unfold configure
  rw [hfound]
  dsimp only
  rw [h]
  exact hcommits.graph

/-- **Changes of settings compose.** When a change of the settings of a node was granted, a
second one is answered as both in one change are, and when it is granted the graph is the
same. What a change that is granted does not name of a configuration of the kind of the node,
whose field or label is a text, keeps its value. -/
theorem configure_merges {first second : Record} (hfirst : first.DistinctNames)
    (hsecond : second.DistinctNames) :
    let once := s.configure id (.settings (.record first))
    let twice := once.2.configure id (.settings (.record second))
    let merged := s.configure id (.settings (.record (first.merge second)))
    once.1 = .ok true →
      twice.1 = merged.1
        ∧ (twice.1 = .ok true → twice.2.graph = merged.2.graph)
        ∧ ∀ c, n.config = some c → c.kind = n.kind → c.NamedByText →
          ∃ c', once.2.graph.findNode? id = some (n.withConfig c')
            ∧ ∀ name ∉ first.map Prod.fst, c'.settings.get? name = c.settings.get? name := by
  intro once twice merged honce
  obtain ⟨c, hc⟩ := (configure_eq_ok_iff hfound).mp honce
  have hgraph : once.2.graph = s.graph.updateNode id (·.withConfig c) :=
    graph_of_configure hfound hc
  have hchanged := Node.changedConfig_changedConfig hfirst hsecond hc
  have hfound' : once.2.graph.findNode? id = some (n.withConfig c) := by
    have hid : ∀ m : Node, (m.withConfig c).id = m.id := fun _ => rfl
    rw [hgraph, Graph.findNode?_updateNode hid, hfound]
    rfl
  refine ⟨?_, fun htwice => ?_, fun c₀ hc₀ hkind htext => ⟨c, hfound', fun name hname => ?_⟩⟩
  · rw [configure_answer hfound', configure_answer hfound, hchanged]
  · obtain ⟨c', hc'⟩ := (configure_eq_ok_iff hfound').mp htwice
    have hboth : n.changedConfig (.settings (.record (first.merge second))) = .ok c' :=
      hchanged ▸ hc'
    calc twice.2.graph
        = once.2.graph.updateNode id (·.withConfig c') := graph_of_configure hfound' hc'
      _ = (s.graph.updateNode id (·.withConfig c)).updateNode id (·.withConfig c') := by
        rw [hgraph]
      _ = s.graph.updateNode id (·.withConfig c') := Graph.updateNode_updateNode fun _ => rfl
      _ = merged.2.graph := (graph_of_configure hfound hboth).symm
  · rw [Node.changedConfig_record, Node.settings, hc₀, ← hkind] at hc
    exact Config.get?_settings_of_unnamed htext hc hname

end

/-- The value of a transform is made null and its field is given by something that is no
text; then another operation is chosen. -/
theorem configure_merges_over_null :
    let s := (plain none 0 0).after (.add "a" "transform" none)
    let once := s.configure "a" (.settings (.record [("value", .null), ("field", .bool true)]))
    let twice := once.2.configure "a" (.settings (.record [("operation", .text "append")]))
    let merged := s.configure "a" (.settings (.record
      [("value", .null), ("field", .bool true), ("operation", .text "append")]))
    once.1 = .ok true ∧ twice.1 = .ok true ∧ merged.1 = .ok true
      ∧ twice.2.graph = merged.2.graph
      ∧ ∃ c, once.2.graph.findNode? "a" = some ((newNode "a" .transform none).withConfig c)
        ∧ c.settings.get? "operation" = some (.text "uppercase") := by
  intro s once twice merged
  have hfound : s.graph.findNode? "a" = some (newNode "a" .transform none) := by decide +kernel
  have honce : once.1 = .ok true := by decide +kernel
  have htwice : twice.1 = .ok true := by decide +kernel
  have hfirst : Record.DistinctNames [("value", .null), ("field", .bool true)] := by decide
  have hsecond : Record.DistinctNames [("operation", .text "append")] := by decide
  obtain ⟨hanswer, hgraph, hkept⟩ := configure_merges hfound hfirst hsecond honce
  obtain ⟨c, hc, hsettings⟩ := hkept _ rfl rfl ⟨_, rfl⟩
  exact ⟨honce, htwice, hanswer ▸ htwice, hgraph htwice, c, hc, hsettings "operation" (by decide)⟩

end Store
end Workflow

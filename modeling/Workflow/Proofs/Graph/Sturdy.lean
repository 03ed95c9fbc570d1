import Workflow.Proofs.Document.Answer
import Workflow.Proofs.Value.Record
import Workflow.Store.Perform

/-!
# Graphs that can be written down

A graph is sturdy if all integers in it can be written and all operations of its nodes exist.
This is what a document gives, and what edits keep: a configuration that is changed takes its
settings from the old one and from the changes, or from defaults that are texts or empty.
-/

namespace Workflow

open Value

/-! ## What can be written -/

namespace Value

theorem withinDigits_record {fields : List (String × Value)} :
    (record fields).WithinDigits ↔ ∀ f ∈ fields, f.2.WithinDigits :=
  everywhere_record.trans (and_iff_right trivial)

theorem withinDigits_list {items : List Value} :
    (list items).WithinDigits ↔ ∀ v ∈ items, v.WithinDigits :=
  everywhere_list.trans (and_iff_right trivial)

theorem withinDigits_text (s : String) : (text s).WithinDigits := everywhere_text.mpr trivial

theorem withinDigits_float (x : Binary64) : (float x).WithinDigits :=
  List.forall_mem_singleton.mpr trivial

theorem withinDigits_null : null.WithinDigits := List.forall_mem_singleton.mpr trivial

end Value

theorem Edge.withinDigits_field? {name : String} {v : Value} :
    (∀ f ∈ field? name v, f.2.WithinDigits) ↔ v.WithinDigits := by
  unfold field?
  cases v with
  | null => exact iff_of_true (List.forall_mem_nil _) withinDigits_null
  | bool _ | number _ | text _ | list _ | record _ => exact List.forall_mem_singleton

theorem Edge.withinDigits_toValue {e : Edge} : e.toValue.WithinDigits ↔
    e.sourceHandle.WithinDigits ∧ e.targetHandle.WithinDigits ∧ e.label.WithinDigits := by
  have hanimated : ∀ f ∈ if e.animated then [("animated", Value.bool true)] else [],
      f.2.WithinDigits := by
    split
    · exact List.forall_mem_singleton.mpr (List.forall_mem_singleton.mpr trivial)
    · exact List.forall_mem_nil _
  unfold toValue
  rw [withinDigits_record]
  simp only [List.forall_mem_append, List.forall_mem_cons, withinDigits_text, withinDigits_field?,
    List.not_mem_nil, false_implies, implies_true, true_and, and_assoc]
  exact and_congr_right fun _ => and_congr_right fun _ => and_iff_left hanimated

theorem Node.withinDigits_toValue {n : Node} : n.toValue.WithinDigits ↔
    n.position.toValue.WithinDigits ∧ ∀ c ∈ n.config, (Value.record c.toRecord).WithinDigits := by
  unfold toValue
  simp only [withinDigits_record, List.forall_mem_cons, withinDigits_text, List.not_mem_nil,
    false_implies, implies_true, true_and, and_true]
  refine and_congr_right fun _ => ?_
  cases n.config with
  | none => exact iff_of_true withinDigits_null nofun
  | some c =>
      dsimp only
      rw [withinDigits_record]
      exact ⟨fun h c' hc' => Option.some.inj hc' ▸ h, fun h => h c rfl⟩

theorem Document.withinDigits_toValue {d : Document} : d.toValue.WithinDigits ↔
    (∀ n ∈ d.nodes, n.toValue.WithinDigits) ∧ (∀ e ∈ d.edges, e.toValue.WithinDigits)
      ∧ ∀ w ∈ d.viewport, w.toValue.WithinDigits := by
  unfold toValue
  rw [withinDigits_record]
  simp only [List.cons_append, List.nil_append, List.forall_mem_cons, withinDigits_list,
    List.forall_mem_map]
  refine and_congr_right fun _ => and_congr_right fun _ => ?_
  cases d.viewport with
  | none => exact iff_of_true (List.forall_mem_nil _) nofun
  | some w =>
      refine List.forall_mem_singleton.trans ?_
      exact ⟨fun h w' hw' => Option.some.inj hw' ▸ h, fun h => h w rfl⟩

/-! ## Configurations -/

namespace Config

theorem withinDigits_initial (kind : NodeKind) :
    (Value.record (initial kind).toRecord).WithinDigits := by
  cases kind <;> decide

theorem withinDigits_ofRecord {kind : NodeKind} {r : Record} {c : Config}
    (hdigits : (Value.record r).WithinDigits) (h : ofRecord kind r = .ok c) :
    (Value.record c.toRecord).WithinDigits := by
  have htext : ∀ s, (Value.text s).WithinDigits := withinDigits_text
  refine withinDigits_record.mpr ?_
  cases ofRecord_eq_ok_iff.mp h with
  | start =>
      have hpayload : (Value.record []).WithinDigits := by decide
      exact List.forall_mem_singleton.mpr (hdigits.getD "payload" hpayload)
  | transform _ _ =>
      refine List.forall_mem_append.mpr ⟨?_, ?_⟩
      · exact List.forall_mem_cons.mpr ⟨htext _, List.forall_mem_singleton.mpr (htext _)⟩
      · exact Edge.withinDigits_field?.mpr (hdigits.getD "value" withinDigits_null)
  | condition _ _ =>
      refine List.forall_mem_cons.mpr ⟨htext _, List.forall_mem_cons.mpr ⟨htext _, ?_⟩⟩
      exact List.forall_mem_singleton.mpr (hdigits.getD "value" (htext ""))
  | finish _ => exact List.forall_mem_singleton.mpr (htext _)

/-- What is known names what it does by a text, also for nodes of another kind. -/
theorem Known.checkHashable {c : Config} (h : c.Known) {kind : NodeKind} {name : String}
    (hname : name ∈ kind.namedBy?) {v : Value} (hv : (name, v) ∈ c.toRecord) :
    v.checkHashable = .ok () := by
  -- A setting that names for one kind may be a plain field of another, so both are looked at.
  have hnamed : name = "operation" ∨ name = "operator" := by
    cases kind with
    | transform => exact .inl (Option.some.inj hname).symm
    | condition => exact .inr (Option.some.inj hname).symm
    | start | finish => cases hname
  cases c with
  | start _ | finish _ => rcases hnamed with rfl | rfl <;> simp [toRecord] at hv
  | transform operation field value =>
      obtain ⟨o, rfl⟩ := h
      rcases hnamed with rfl | rfl
      · obtain rfl : v = .text o.name := by
          cases value <;> simpa [toRecord, Value.isNull] using hv
        rfl
      · cases value <;> simp [toRecord, Value.isNull] at hv
  | condition field operator value =>
      obtain ⟨o, rfl⟩ := h
      rcases hnamed with rfl | rfl
      · simp [toRecord] at hv
      · obtain rfl : v = .text o.name := by simpa [toRecord] using hv
        rfl

end Config

/-! ## Nodes and graphs -/

/-- A node whose integers can be written and whose operation exists. -/
structure Node.Sturdy (n : Node) : Prop where
  digits : n.toValue.WithinDigits
  known : n.Known

theorem Node.Sturdy.withConfig {n : Node} (h : n.Sturdy) {c : Config} (hregular : c.Regular)
    (hdigits : (Value.record c.toRecord).WithinDigits) :
    Sturdy { n with config := some c } where
  digits := by
    refine withinDigits_toValue.mpr ⟨(withinDigits_toValue.mp h.digits).1, fun c' hc' => ?_⟩
    exact Option.some.inj hc' ▸ hdigits
  known c' hc' := Option.some.inj hc' ▸ (Config.regular_iff.mp hregular).2

def Node.settings (n : Node) : Record :=
  match n.config with
  | some c => c.toRecord
  | none => []

theorem Node.changedConfig_record (n : Node) (changes : Record) :
    n.changedConfig (.settings (.record changes))
      = Config.ofRecord n.kind (n.settings.merge changes) := rfl

section

variable {n : Node} (h : n.Sturdy)
include h

theorem Node.Sturdy.withinDigits_merge {changes : Record}
    (hchanges : (Value.record changes).WithinDigits) :
    (Value.record (n.settings.merge changes)).WithinDigits := by
  refine withinDigits_record.mpr fun f hf => ?_
  rcases Record.mem_merge hf with hold | hnew
  · unfold settings at hold
    split at hold
    · rename_i c hc
      exact withinDigits_record.mp ((withinDigits_toValue.mp h.digits).2 c hc) f hold
    · cases hold
  · exact withinDigits_record.mp hchanges f hnew

theorem Node.Sturdy.namesPlainly_merge {changes : Record}
    (hchanges : ∀ name ∈ n.kind.namedBy?, ∀ v, (name, v) ∈ changes → v.checkHashable = .ok ()) :
    Config.NamesPlainly n.kind (n.settings.merge changes) := by
  intro name hname
  unfold Record.getD
  cases hget : Record.get? (n.settings.merge changes) name with
  | none => rfl
  | some v =>
      rcases Record.mem_merge (mem_of_get? hget) with hold | hnew
      · unfold settings at hold
        split at hold
        · rename_i c hc
          exact (h.known c hc).checkHashable hname hold
        · cases hold
      · exact hchanges name hname v hnew

end

namespace Graph

/-- A graph whose integers can be written and all of whose operations exist. -/
structure Sturdy (g : Graph) : Prop where
  nodes : ∀ n ∈ g.nodes, n.Sturdy
  edges : ∀ e ∈ g.edges, e.toValue.WithinDigits

theorem sturdy_empty : Sturdy .empty := ⟨List.forall_mem_nil _, List.forall_mem_nil _⟩

section

variable {g : Graph} (h : g.Sturdy)
include h

theorem Sturdy.addNode {n : Node} (hn : n.Sturdy) : (g.addNode n).Sturdy :=
  ⟨forall_addNode h.nodes hn, h.edges⟩

theorem Sturdy.updateNode {id : String} {f : Node → Node}
    (hchange : ∀ n, g.findNode? id = some n → n.Sturdy → (f n).Sturdy) :
    (g.updateNode id f).Sturdy :=
  ⟨forall_updateNode h.nodes hchange, h.edges⟩

theorem Sturdy.removeNodes (ids : List String) : (g.removeNodes ids).Sturdy :=
  ⟨forall_removeNodes h.nodes ids, fun e he => h.edges e (List.mem_filter.mp he).1⟩

theorem Sturdy.addEdge {e : Edge} (he : e.toValue.WithinDigits) : (g.addEdge e).Sturdy :=
  ⟨h.nodes, List.forall_mem_append.mpr ⟨h.edges, List.forall_mem_singleton.mpr he⟩⟩

theorem Sturdy.removeEdge (id : String) : (g.removeEdge id).Sturdy :=
  ⟨h.nodes, fun e he => h.edges e (List.mem_filter.mp he).1⟩

end

end Graph

theorem Document.Sturdy.graph {d : Document} (h : d.Sturdy) :
    Graph.Sturdy ⟨d.nodes, d.edges⟩ where
  nodes n hn := ⟨(withinDigits_toValue.mp h.digits).1 n hn, h.regular.known n hn⟩
  edges := (withinDigits_toValue.mp h.digits).2.1

theorem Document.Sturdy.viewport {d : Document} (h : d.Sturdy) :
    ∀ w ∈ d.viewport, w.toValue.WithinDigits :=
  (withinDigits_toValue.mp h.digits).2.2

end Workflow

import Workflow.Proofs.Document.Reading
import Workflow.Proofs.Store.Request

/-!
# Importing what the gate lets through

Behind the gate nothing can go wrong: the value is read, and the reading is taken over by any
store whatever its state. The handlers of faults behind the gate, in the store and in the
reader of texts, are there for nothing.
-/

namespace Workflow

namespace Store

/-- A document taken over gives a store its graph and, if it has one, its view. -/
theorem graph_and_viewport_of_adopt (s : Store) (d : Document) :
    (s.adopt d).graph = ⟨d.nodes, d.edges⟩ ∧ (s.adopt d).viewport = d.viewport.getD s.viewport := by
  let s₁ : Store :=
    cleared { s with graph := ⟨d.nodes, d.edges⟩, viewport := d.viewport.getD s.viewport }
  let s₂ : Store := { s₁ with history := s₁.history.save s₁.graph }
  obtain ⟨a, ha⟩ := hear_eq s₂.document
    { s₂ with changes := s₂.changes ++ [⟨.importDocument, s₂.document⟩] } s₂.listeners
  have hadopt : s.adopt d
      = { s₂ with changes := s₂.changes ++ [⟨.importDocument, s₂.document⟩], archive := a } := ha
  rw [hadopt]
  exact ⟨rfl, rfl⟩

/-- A value that passes the gate and can be read is taken over by every store. -/
theorem importValue_of_ofValue {v : Value} {d : Document} (hgate : checkDocument v = .ok [])
    (hread : Document.ofValue v = .ok d) (s : Store) :
    s.importValue v = (.ok [], s.adopt d) := by
  simp only [importValue, Document.importValue_of_ofValue hgate hread]

theorem checkDocument_of_importValue {s : Store} {v : Value}
    (h : (s.importValue v).1 = .ok []) :
    checkDocument v = .ok [] := by
  unfold importValue at h
  split at h
  · cases h
  · rename_i d himport
    exact (Document.importValue_eq_document himport).1
  · rename_i problems himport
    have hproblems := Document.problems_ne_nil himport
    split at h
    · dsimp only at h
      cases htold : (s.notify .error s!"Import failed: {problems.length} problem(s) found").1 with
      | error _ =>
          rw [htold] at h
          cases h
      | ok _ =>
          rw [htold] at h
          exact absurd (Except.ok.inj h) hproblems
    · exact absurd (Except.ok.inj h) hproblems

/-- **What the gate lets through is imported.** The document read is regular: its nodes have
distinct identities that are not empty, numeric coordinates, labels, and configurations of
their kinds with operations and operators that exist, and its edges join its nodes. -/
theorem imports_of_checkDocument {v : Value} (hgate : checkDocument v = .ok [])
    (hdigits : v.WithinDigits) :
    ∃ d, Document.ofValue v = .ok d ∧ Graph.Regular ⟨d.nodes, d.edges⟩
      ∧ (∀ tolerates, Document.importValue tolerates v = .ok (.document d))
      ∧ (∀ text, Json.read text = .ok v → Document.importText text = .ok (.document d))
      ∧ ∀ s : Store, ∃ s', s.importValue v = (.ok [], s') ∧ s'.graph = ⟨d.nodes, d.edges⟩
          ∧ s'.viewport = d.viewport.getD s.viewport := by
  obtain ⟨d, hread⟩ := Document.exists_ofValue_of_checkDocument hgate hdigits
  refine ⟨d, hread, Document.regular_of_ofValue hgate hread, ?_, ?_, ?_⟩
  · exact Document.importValue_of_ofValue hgate hread
  · exact fun text htext => Document.importText_of_read hgate hread htext
  · intro s
    exact ⟨s.adopt d, importValue_of_ofValue hgate hread s, graph_and_viewport_of_adopt s d⟩

/-- A label and the identity of an edge that are numbers become texts, and what is left out
of a configuration takes its default. -/
theorem imports_numbers_as_texts :
    let node : Value := .record [("id", .text "a"), ("type", .text "transform"),
      ("position", .record [("x", .int 3), ("y", .float (.nan true))]),
      ("data", .record [("label", .int 7), ("nodeType", .text "transform")])]
    let loop : Value := .record [("id", .int 1), ("source", .text "a"), ("target", .text "a")]
    let v : Value := .record [("nodes", .list [node]), ("edges", .list [loop])]
    let answer := (plain none 0 0).importValue v
    answer.1 = .ok [] ∧ answer.2.graph.nodes.map (·.label) = ["7"]
      ∧ answer.2.graph.nodes.map (·.config) = [some (Config.unset .transform)]
      ∧ answer.2.graph.edges.map (·.id) = ["1"] := by
  intro node loop v answer
  have hgate : checkDocument v = .ok [] := by decide +kernel
  have hdigits : v.WithinDigits := by decide +kernel
  obtain ⟨d, hread, -, -, -, hstore⟩ := imports_of_checkDocument hgate hdigits
  obtain ⟨s', hs', hgraph, -⟩ := hstore (plain none 0 0)
  have hlisted : Document.ofValue v = .ok
      ⟨[⟨"a", .transform, ⟨.int 3, .float (.nan true)⟩, "7", some (Config.unset .transform)⟩],
        [⟨"1", "a", "a", .null, .null, .null, false⟩], none⟩ := by decide +kernel
  obtain rfl := Except.ok.inj (hread.symm.trans hlisted)
  simp only [answer, hs', hgraph, List.map_cons, List.map_nil, and_self]

end Store
end Workflow

import Workflow.Proofs.Graph.Rules
import Workflow.Proofs.Node.Config

/-!
# Regular graphs

A graph is *regular* when it is sound and could be written and read back as a document: every
node has an identity, a label, numeric coordinates and a regular configuration, and every
edge has an identity.

A program that keeps to types gives less: labels may be empty, and operations need not exist.
Its graphs are *typed*, and as for soundness there is one lemma for each way an edit changes
them. What a typed graph lacks is its labels (`withLabels`) and the existence of its
operations (`Known`).
-/

namespace Workflow

def Position.Numeric (p : Position) : Prop := ∃ x y, p = ⟨.number x, .number y⟩

theorem Position.numeric_origin : origin.Numeric := ⟨_, _, rfl⟩

namespace Node

/-- A node as a document can give it. -/
structure Regular (n : Node) : Prop where
  named : n.id ≠ ""
  placed : n.position.Numeric
  labelled : n.label ≠ ""
  configured : ∃ c, n.config = some c ∧ c.kind = n.kind ∧ c.Regular

/-- A node as a program can give it. -/
structure Typed (n : Node) : Prop where
  named : n.id ≠ ""
  placed : n.position.Numeric
  configured : ∃ c, n.config = some c ∧ c.kind = n.kind ∧ c.Typed

/-- Whether the operation of the node, if it has one, exists. -/
def Known (n : Node) : Prop := ∀ c ∈ n.config, c.Known

/-- The node with the label of its kind, if it has none of its own. -/
def withLabel (n : Node) : Node :=
  { n with label := if n.label = "" then n.kind.label else n.label }

theorem withLabel_of_ne {n : Node} (h : n.label ≠ "") : n.withLabel = n := by
  unfold withLabel
  rw [if_neg h]

theorem label_withLabel_ne_empty (n : Node) : n.withLabel.label ≠ "" := by
  have hkind : n.kind.label ≠ "" := by cases n.kind <;> decide
  show (if n.label = "" then n.kind.label else n.label) ≠ ""
  split
  · exact hkind
  · assumption

theorem Typed.regular_withLabel {n : Node} (h : n.Typed) (hknown : n.Known) :
    n.withLabel.Regular where
  named := h.named
  placed := h.placed
  labelled := n.label_withLabel_ne_empty
  configured := by
    obtain ⟨c, hc, hkind, htyped⟩ := h.configured
    exact ⟨c, hc, hkind, Config.regular_iff.mpr ⟨htyped, hknown c hc⟩⟩

theorem Regular.typed {n : Node} (h : n.Regular) : n.Typed where
  named := h.named
  placed := h.placed
  configured := by
    obtain ⟨c, hc, hkind, hregular⟩ := h.configured
    exact ⟨c, hc, hkind, (Config.regular_iff.mp hregular).1⟩

theorem Regular.known {n : Node} (h : n.Regular) : n.Known := by
  obtain ⟨c, hc, -, hregular⟩ := h.configured
  intro c' hc'
  obtain rfl := Option.some.inj (hc.symm.trans hc')
  exact (Config.regular_iff.mp hregular).2

end Node

namespace Graph

/-- A graph as a document can give it. -/
structure Regular (g : Graph) : Prop extends Sound g where
  nodes : ∀ n ∈ g.nodes, n.Regular
  edges : ∀ e ∈ g.edges, e.id ≠ ""

/-- A graph as a program can give it. -/
structure Typed (g : Graph) : Prop extends Sound g where
  nodes : ∀ n ∈ g.nodes, n.Typed
  edges : ∀ e ∈ g.edges, e.id ≠ ""

/-- Whether all operations of a graph exist. -/
def Known (g : Graph) : Prop := ∀ n ∈ g.nodes, n.Known

def Labelled (g : Graph) : Prop := ∀ n ∈ g.nodes, n.label ≠ ""

/-- The graph with the labels of kinds for those that are missing. -/
def withLabels (g : Graph) : Graph := ⟨g.nodes.map Node.withLabel, g.edges⟩

theorem ids_withLabels (g : Graph) : g.withLabels.nodes.map (·.id) = g.nodes.map (·.id) := by
  simp [withLabels, Node.withLabel, Function.comp_def]

theorem Labelled.withLabels_eq {g : Graph} (h : g.Labelled) : g.withLabels = g := by
  have hnodes : g.nodes.map Node.withLabel = g.nodes.map id :=
    List.map_congr_left fun n hn => Node.withLabel_of_ne (h n hn)
  rw [withLabels, hnodes, List.map_id]

theorem Typed.regular_withLabels {g : Graph} (h : g.Typed) (hknown : g.Known) :
    g.withLabels.Regular where
  distinct := g.ids_withLabels ▸ h.distinct
  joined := g.ids_withLabels ▸ h.joined
  configured := by
    intro n hn
    obtain ⟨m, hm, rfl⟩ := List.mem_map.mp hn
    exact h.configured m hm
  nodes := by
    intro n hn
    obtain ⟨m, hm, rfl⟩ := List.mem_map.mp hn
    exact (h.nodes m hm).regular_withLabel (hknown m hm)
  edges := h.edges

/-- A typed graph that lacks neither labels nor operations is regular. -/
theorem Typed.regular {g : Graph} (h : g.Typed) (hlabelled : g.Labelled) (hknown : g.Known) :
    g.Regular :=
  hlabelled.withLabels_eq ▸ h.regular_withLabels hknown

theorem Regular.typed {g : Graph} (h : g.Regular) : g.Typed where
  toSound := h.toSound
  nodes n hn := (h.nodes n hn).typed
  edges := h.edges

theorem Regular.known {g : Graph} (h : g.Regular) : g.Known :=
  fun n hn => (h.nodes n hn).known

theorem Regular.labelled {g : Graph} (h : g.Regular) : g.Labelled :=
  fun n hn => (h.nodes n hn).labelled

/-! ## Edits of what every node has -/

section

variable {P : Node → Prop} {g : Graph}

theorem forall_updateNode (h : ∀ n ∈ g.nodes, P n) {id : String} {f : Node → Node}
    (hchange : ∀ n, g.findNode? id = some n → P n → P (f n)) :
    ∀ n ∈ (g.updateNode id f).nodes, P n := by
  intro n hn
  rcases mem_modifyFirst hn with hn | ⟨m, hm, hfound, rfl⟩
  · exact h n hn
  · exact hchange m hfound (h m hm)

theorem forall_addNode (h : ∀ n ∈ g.nodes, P n) {n : Node} (hn : P n) :
    ∀ m ∈ (g.addNode n).nodes, P m :=
  List.forall_mem_append.mpr ⟨h, List.forall_mem_singleton.mpr hn⟩

theorem forall_removeNodes (h : ∀ n ∈ g.nodes, P n) (ids : List String) :
    ∀ n ∈ (g.removeNodes ids).nodes, P n :=
  fun n hn => h n (List.mem_filter.mp hn).1

end

/-! ## Edits of typed graphs -/

theorem typed_empty : Typed .empty where
  toSound := sound_empty
  nodes _ hn := absurd hn List.not_mem_nil
  edges _ he := absurd he List.not_mem_nil

/-- A change that keeps the identity, and the node found typed, keeps the graph typed. -/
theorem Typed.updateNode {g : Graph} (h : g.Typed) {id : String} {f : Node → Node}
    (hid : ∀ n, (f n).id = n.id)
    (htyped : ∀ n, g.findNode? id = some n → n.Typed → (f n).Typed) :
    (g.updateNode id f).Typed where
  toSound := by
    refine h.toSound.updateNode hid fun n hfound => ?_
    have hn := h.nodes n (findNode?_eq_some hfound).1
    obtain ⟨c, hc, hkind, -⟩ := (htyped n hfound hn).configured
    exact ⟨c, hc, hkind⟩
  nodes := forall_updateNode h.nodes htyped
  edges := h.edges

theorem Typed.addNode {g : Graph} (h : g.Typed) {n : Node}
    (hfresh : n.id ∉ g.nodes.map (·.id)) (htyped : n.Typed) : (g.addNode n).Typed where
  toSound := by
    obtain ⟨c, hc, hkind, -⟩ := htyped.configured
    exact h.toSound.addNode hfresh ⟨c, hc, hkind⟩
  nodes := forall_addNode h.nodes htyped
  edges := h.edges

theorem Typed.removeNodes {g : Graph} (h : g.Typed) (ids : List String) :
    (g.removeNodes ids).Typed where
  toSound := h.toSound.removeNodes ids
  nodes := forall_removeNodes h.nodes ids
  edges e he := h.edges e (List.mem_filter.mp he).1

theorem Typed.removeEdge {g : Graph} (h : g.Typed) (id : String) :
    (g.removeEdge id).Typed where
  toSound := h.toSound.removeEdge id
  nodes := h.nodes
  edges e he := h.edges e (List.mem_filter.mp he).1

theorem Typed.addEdge {g : Graph} (h : g.Typed) {e : Edge}
    (hsource : e.source ∈ g.nodes.map (·.id)) (htarget : e.target ∈ g.nodes.map (·.id))
    (hid : e.id ≠ "") : (g.addEdge e).Typed where
  toSound := h.toSound.addEdge hsource htarget
  nodes := h.nodes
  edges := List.forall_mem_append.mpr ⟨h.edges, List.forall_mem_singleton.mpr hid⟩

end Graph
end Workflow

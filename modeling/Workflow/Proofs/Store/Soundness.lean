import Workflow.Proofs.Graph.Rules
import Workflow.Proofs.Node.Config
import Workflow.Proofs.Store.Request

/-!
# The graph of a store stays sound

However a store is edited, its graph stays sound, and if the documents imported obey the
rules for edges its graph obeys them too. A step through the history lets listeners edit the
store in between; an invariant of stores gets through that if single requests and the step
itself keep it (`after_invariant`). Stepping through the history and importing replace the
graph as a whole, so the invariant here (`Holds`) covers the graph and every snapshot of the
history. For a property of graphs that every revision keeps it is preserved by every request
(`Holds.after`); the two properties are then a matter of revisions (`Revision.sound`,
`Revision.obeysRules`).

The headline is `sound_and_ruled_of_reachable`.
-/

namespace Workflow

namespace Store

/-! ## Invariants under requests within requests -/

/-- Every request made at a request is of a sort. -/
def Throughout (allowed : Store → Request → Prop) (s : Store) (r : Request) : Prop :=
  ∀ m ∈ s.made r, allowed m.1 m.2

theorem throughout_of_unheard {allowed : Store → Request → Prop} {s : Store} {r : Request}
    (hlisteners : s.listeners = []) (hr : allowed s r) : Throughout allowed s r := by
  intro m hm
  rw [made_of_passive (hlisteners ▸ nofun), List.mem_singleton] at hm
  exact hm ▸ hr

section

variable {Q : Store → Prop} {allowed : Store → Request → Prop}

section

variable (hedit : ∀ {s e}, Q s → allowed s (.edit e) → Q (s.perform e).2)
include hedit

theorem performAll_invariant :
    ∀ {s : Store} {edits : List Edit}, Q s → (∀ m ∈ s.performedIn edits, allowed m.1 m.2) →
      Q (s.performAll edits).2
  | _, [], h, _ => h
  | s, e :: edits, h, hallowed => by
      have hstep := hedit h (hallowed (s, .edit e) List.mem_cons_self)
      unfold Store.performedIn at hallowed
      unfold Store.performAll
      generalize s.perform e = result at hstep hallowed ⊢
      obtain ⟨answer, s'⟩ := result
      cases answer with
      | error _ => exact hstep
      | ok _ =>
          exact performAll_invariant hstep fun m hm => hallowed m (List.mem_cons_of_mem _ hm)

theorem hearStep_invariant :
    ∀ {s : Store} {listeners : List ChangeListener}, Q s →
      (∀ m ∈ s.heardIn listeners, allowed m.1 m.2) → Q (s.hearStep listeners)
  | _, [], h, _ => h
  | _, .autosave :: _, h, hallowed => by
      unfold Store.hearStep
      exact hearStep_invariant h hallowed
  | s, .observer edits raises :: rest, h, hallowed => by
      unfold Store.heardIn at hallowed
      have hperformed := performAll_invariant hedit h fun m hm =>
        hallowed m (List.mem_append_left _ hm)
      unfold Store.hearStep
      dsimp only
      by_cases hon : ((s.performAll edits).1 && !raises) = true
      · rw [if_pos hon] at hallowed ⊢
        exact hearStep_invariant hperformed fun m hm => hallowed m (List.mem_append_right _ hm)
      · rw [if_neg hon]
        exact hperformed

end

/-- **From single requests to those with the edits of listeners.** What every request other
than a step through the history keeps, and what holds when a step is announced and when it is
over, is kept by every request. -/
theorem after_invariant
    (hdirect : ∀ {s r}, r ≠ .undo → r ≠ .redo → Q s → allowed s r → Q (s.after r))
    (hannounced : ∀ {s h index} action, s.history.At h index → Q s → Q (s.announced h action))
    (hended : ∀ {s}, Q s → Q { s with history := s.history.endApply }) {s : Store}
    {r : Request} (h : Q s) (hallowed : Throughout allowed s r) : Q (s.after r) := by
  have hself := hallowed (s, r) List.mem_cons_self
  have hedit : ∀ {s e}, Q s → allowed s (.edit e) → Q (s.perform e).2 :=
    fun {_ e} h hallowed => hdirect (r := .edit e) nofun nofun h hallowed
  have hstepped : ∀ {h' : History} {index : Nat} (action : Action), s.history.At h' index →
      (∀ m ∈ (s.announced h' action).heardIn s.listeners, allowed m.1 m.2) →
      Q (s.stepped h' action) := by
    intro h' index action hat hheard
    exact hended (hearStep_invariant hedit (hannounced action hat h) hheard)
  cases r with
  | add _ _ _ | edit _ | execute _ => exact hdirect nofun nofun h hself
  | undo =>
      show Q s.undo.2
      rcases s.undo_cases with hnone | ⟨h', hundo, hstep⟩
      · rw [hnone]
        exact h
      · rw [hstep]
        refine hstepped .undo (History.at_of_undo hundo) fun m hm => hallowed m ?_
        refine List.mem_cons_of_mem _ ?_
        dsimp only
        rw [hundo]
        exact hm
  | redo =>
      show Q s.redo.2
      rcases s.redo_cases with hnone | ⟨h', hredo, hstep⟩
      · rw [hnone]
        exact h
      · rw [hstep]
        refine hstepped .redo (History.at_of_redo hredo) fun m hm => hallowed m ?_
        refine List.mem_cons_of_mem _ ?_
        dsimp only
        rw [hredo]
        exact hm

end

/-! ## Properties of the graph and all snapshots -/

/-- The graph of a store and all snapshots of its history have a property. -/
structure Holds (P : Graph → Prop) (s : Store) : Prop where
  graph : P s.graph
  snapshots : ∀ g ∈ s.history.snapshots, P g

section

variable {P : Graph → Prop} {allowed : Store → Request → Prop}

theorem Holds.of_keeps {s s' : Store} (h : Holds P s) (hkeeps : s.Keeps s') :
    Holds P s' where
  graph := hkeeps.graph ▸ h.graph
  snapshots := hkeeps.history ▸ h.snapshots

theorem Holds.of_commits {s s' : Store} (h : Holds P s) {g : Graph} (hg : P g)
    (hcommits : s.Commits g s') : Holds P s' where
  graph := hcommits.graph ▸ hg
  snapshots := by
    intro g' hmem
    rw [hcommits.history] at hmem
    rcases History.mem_snapshots_save hmem with rfl | hold
    · exact hg
    · exact h.snapshots g' hold

theorem Holds.announced {s : Store} (h : Holds P s) {h' : History} {index : Nat}
    (hat : s.history.At h' index) (action : Action) : Holds P (s.announced h' action) := by
  have hsnapshots : ∀ g ∈ h'.snapshots, P g := hat.snapshots ▸ h.snapshots
  exact ⟨hsnapshots _ h'.current_mem, hsnapshots⟩

variable (hrevise : ∀ {s r g}, allowed s r → P s.graph → Revision s r g → P g)
include hrevise

/-- A request other than a step through the history keeps what revisions keep. -/
theorem Holds.direct {s : Store} {r : Request} (hundo : r ≠ .undo) (hredo : r ≠ .redo)
    (h : Holds P s) (hallowed : allowed s r) : Holds P (s.after r) := by
  have heffect := s.effect_after r
  generalize s.after r = s' at heffect ⊢
  cases heffect with
  | kept hkeeps => exact h.of_keeps hkeeps
  | moved => exact ⟨hrevise hallowed h.graph .move, h.snapshots⟩
  | committed hrevision hcommits =>
      exact h.of_commits (hrevise hallowed h.graph hrevision) hcommits
  | undone _ => exact absurd rfl hundo
  | redone _ => exact absurd rfl hredo

/-- **What revisions keep, requests keep.** -/
theorem Holds.after {s : Store} (h : Holds P s) {r : Request}
    (hallowed : Throughout allowed s r) : Holds P (s.after r) := by
  refine after_invariant ?_ ?_ ?_ h hallowed
  · exact fun hundo hredo h hallowed => Holds.direct hrevise hundo hredo h hallowed
  · exact fun action hat h => h.announced hat action
  · exact fun h => ⟨h.graph, h.snapshots⟩

/-- What is empty at the start and kept by revisions holds wherever requests lead. -/
theorem Holds.of_reachable {s₀ s : Store} (h₀ : Holds P s₀)
    (h : Reachable (Throughout allowed) s₀ s) : Holds P s :=
  h.invariant h₀ fun _ _ hs hallowed => hs.after hrevise hallowed

end

/-! ## Sound graphs -/

/-- The identity drawn for a node that a request is to add. -/
def drawn? (s : Store) : Request → Option String
  | .add id _ _ => some id
  | .edit (.addNode _ _) => some (nodeId (s.issued + 1))
  | _ => none

/-- The identity drawn is not one of a node of the graph. -/
def DrawsNew (s : Store) (r : Request) : Prop :=
  ∀ id ∈ s.drawn? r, id ∉ s.graph.nodes.map (·.id)

/-- A document that is imported obeys the rules for edges. -/
def ImportsObey (s : Store) (r : Request) : Prop :=
  ∀ e d, r = .edit e → s.imported? e = some d → Graph.ObeysRules ⟨d.nodes, d.edges⟩

end Store

theorem Node.kind_of_changedConfig {n : Node} {change : ConfigChange} {c : Config}
    (h : n.changedConfig change = .ok c) : c.kind = n.kind := by
  unfold changedConfig at h
  split at h
  · exact Config.kind_ofRecord h
  · cases h
  · split at h
    · obtain rfl := Except.ok.inj h
      assumption
    · cases h

namespace Store

theorem configured_newNode (id : String) (kind : NodeKind) (position : Option Position) :
    (newNode id kind position).Configured :=
  ⟨Config.initial kind, rfl, Config.kind_initial kind⟩

theorem moved_induction {P : Graph → Prop}
    (hmove : ∀ (g : Graph) (id : String) (position : Position), P g →
      P (g.updateNode id fun n => { n with position }))
    {g : Graph} (h : P g) (moves : List (String × Position)) : P (moved g moves) :=
  List.foldlRecOn moves _ h fun g hg move _ => hmove g move.1 move.2 hg

/-- **Revisions keep a graph sound**, when a node that is added has an identity of its
own. -/
theorem Revision.sound {s : Store} {r : Request} {g : Graph} (hnew : s.DrawsNew r)
    (h : s.graph.Sound) (hrevision : Revision s r g) : g.Sound := by
  have hmove : ∀ (g : Graph) (id : String) (position : Position), g.Sound →
      (g.updateNode id fun n => { n with position }).Sound := by
    intro g id position h
    refine h.updateNode (fun _ => rfl) fun n hfound => ?_
    exact h.configured n (Graph.findNode?_eq_some hfound).1
  cases hrevision with
  | add => exact h.addNode (hnew _ rfl) (configured_newNode _ _ _)
  | addNext => exact h.addNode (hnew _ rfl) (configured_newNode _ _ _)
  | move => exact moved_induction (P := Graph.Sound) hmove h _
  | moves => exact moved_induction (P := Graph.Sound) hmove h _
  | configure hfound hchanged =>
      refine h.updateNode (fun _ => rfl) fun m hm => ?_
      obtain rfl := Option.some.inj (hm.symm.trans hfound)
      have hkind := Node.kind_of_changedConfig hchanged
      exact ⟨_, rfl, hkind⟩
  | rename =>
      refine h.updateNode (fun _ => rfl) fun n hfound => ?_
      exact h.configured n (Graph.findNode?_eq_some hfound).1
  | removeNode => exact h.removeNodes _
  | removeNodes => exact h.removeNodes _
  | connect hsource htarget _ hends _ =>
      obtain ⟨hs, rfl⟩ := Graph.findNode?_eq_some hsource
      obtain ⟨ht, rfl⟩ := Graph.findNode?_eq_some htarget
      exact h.addEdge (hends.1 ▸ List.mem_map_of_mem hs) (hends.2 ▸ List.mem_map_of_mem ht)
  | disconnect => exact h.removeEdge _
  | clear => exact Graph.sound_empty
  | imported htaken =>
      obtain ⟨v, hv⟩ := taken_of_imported htaken
      exact Document.sound_of_taken hv

/-- **Revisions keep the rules for edges**, when what is imported obeys them. -/
theorem Revision.obeysRules {s : Store} {r : Request} {g : Graph} (hnew : s.DrawsNew r)
    (himports : s.ImportsObey r) (hsound : s.graph.Sound) (h : s.graph.ObeysRules)
    (hrevision : Revision s r g) : g.ObeysRules := by
  have hmove : ∀ (g : Graph) (id : String) (position : Position), g.ObeysRules →
      (g.updateNode id fun n => { n with position }).ObeysRules :=
    fun _ _ _ h => h.updateNode (fun _ => rfl) fun _ => rfl
  cases hrevision with
  | add => exact h.addNode hsound (hnew _ rfl)
  | addNext => exact h.addNode hsound (hnew _ rfl)
  | move => exact moved_induction (P := Graph.ObeysRules) hmove h _
  | moves => exact moved_induction (P := Graph.ObeysRules) hmove h _
  | configure _ _ => exact h.updateNode (fun _ => rfl) fun _ => rfl
  | rename => exact h.updateNode (fun _ => rfl) fun _ => rfl
  | removeNode => exact h.removeNodes _
  | removeNodes => exact h.removeNodes _
  | connect hsource htarget hnone hends _ =>
      obtain ⟨hs, rfl⟩ := Graph.findNode?_eq_some hsource
      obtain ⟨ht, rfl⟩ := Graph.findNode?_eq_some htarget
      exact h.addEdge hsound hs ht hnone hends.1 hends.2
  | disconnect => exact h.removeEdge _
  | clear => exact Graph.obeysRules_empty
  | imported htaken => exact himports _ _ rfl htaken

theorem Fresh.holds {s : Store} (h : s.Fresh) {P : Graph → Prop} (hempty : P .empty) :
    Holds P s where
  graph := h.graph ▸ hempty
  snapshots := by
    obtain ⟨asked, hhistory⟩ := h.history
    intro g hg
    rw [hhistory] at hg
    obtain rfl := List.mem_singleton.mp hg
    exact hempty

/-- **Whatever is asked of a fresh store, its graph is sound**, provided that identities are
drawn anew; and where every document that is imported obeys the rules for edges, so does the
graph. -/
theorem sound_and_ruled_of_reachable {s₀ : Store} (h₀ : s₀.Fresh) :
    (∀ s, Reachable (Throughout DrawsNew) s₀ s → s.graph.Sound)
      ∧ ∀ s, Reachable (Throughout fun s r => s.DrawsNew r ∧ s.ImportsObey r) s₀ s →
          s.graph.Sound ∧ s.graph.ObeysRules := by
  have hsounds : ∀ {s r g}, DrawsNew s r → s.graph.Sound → Revision s r g → g.Sound :=
    fun hnew hsound hrevision => hrevision.sound hnew hsound
  have hrules : ∀ {s r g}, DrawsNew s r ∧ ImportsObey s r → s.graph.Sound ∧ s.graph.ObeysRules →
      Revision s r g → g.Sound ∧ g.ObeysRules :=
    fun ⟨hnew, himports⟩ ⟨hsound, hobeys⟩ hrevision =>
      ⟨hrevision.sound hnew hsound, hrevision.obeysRules hnew himports hsound hobeys⟩
  refine ⟨fun s h => ?_, fun s h => ?_⟩
  · exact (Holds.of_reachable hsounds (h₀.holds Graph.sound_empty) h).graph
  · exact (Holds.of_reachable (P := fun g => g.Sound ∧ g.ObeysRules) hrules
      (h₀.holds ⟨Graph.sound_empty, Graph.obeysRules_empty⟩) h).graph

/-- Two nodes are added, the history is stepped through back and forth, and they are
joined. -/
theorem sound_and_ruled_after_joining :
    let s₀ := plain none 0 0
    let s₁ := (s₀.after (.add "first" "start" none)).after (.add "last" "end" none)
    let s₂ := (s₁.after .undo).after .redo
    let s := s₂.after (.edit (.connect "first" "last" .null .null))
    s.graph.edges.length = 1 ∧ s.graph.Sound ∧ s.graph.ObeysRules := by
  intro s₀ s₁ s₂ s
  have hallowed : ∀ {s : Store} {r : Request}, s.listeners = [] → s.DrawsNew r →
      (∀ e, r = .edit e → s.imported? e = none) →
      Throughout (fun s r => s.DrawsNew r ∧ s.ImportsObey r) s r := by
    intro s r hlisteners hnew himports
    refine throughout_of_unheard hlisteners ⟨hnew, fun e d he hd => ?_⟩
    rw [himports e he] at hd
    cases hd
  have hrun : Reachable (Throughout fun s r => s.DrawsNew r ∧ s.ImportsObey r) s₀ s := by
    refine .step _ (.step .redo (.step .undo (.step _ (.step _ .start ?_) ?_) ?_) ?_) ?_
    · exact hallowed rfl (by unfold DrawsNew; decide +kernel) nofun
    · exact hallowed rfl (by unfold DrawsNew; decide +kernel) nofun
    · exact hallowed rfl nofun nofun
    · exact hallowed rfl nofun nofun
    · exact hallowed rfl nofun (by rintro _ ⟨⟩; rfl)
  have hfirst : s₂.graph.findNode? "first" = some (newNode "first" .start none) := by decide +kernel
  have hlast : s₂.graph.findNode? "last" = some (newNode "last" .finish none) := by decide +kernel
  have hnone : s₂.graph.edges = [] := by decide +kernel
  have hapart : ¬ Reaches [] "last" "first" := by
    rw [reaches_nil]
    decide
  have hfree : objection? (newNode "first" .start none) (newNode "last" .finish none) [] = none :=
    Graph.objection?_eq_none_iff.mpr ⟨by decide, nofun, by decide, by decide, hapart⟩
  have hedges : s.graph.edges.length = 1 := by
    rw [(commits_connect hfirst hlast (hnone ▸ hfree) .null .null).graph, Graph.addEdge,
      List.length_append, hnone, List.length_nil, List.length_singleton]
  exact ⟨hedges, (sound_and_ruled_of_reachable (fresh_create ..)).2 s hrun⟩

end Store
end Workflow

import Mathlib.Data.List.Nodup
import Workflow.Graph.Basic
import Workflow.Graph.Connection
import Workflow.Proofs.Graph.Walk

/-!
# Sound graphs and the rules for edges

Two properties of a graph that editing keeps. A graph is *sound* when its identities are
distinct, its edges join nodes it has, and each node has the configuration of its kind. It
*obeys the rules* when no edge is a loop, no two edges join the same nodes in the same
direction, none enters a start node or leaves an end node, and no walk is closed.

There is one lemma for each way an edit changes a graph. Drawing an edge is the only one with
content: `objection?_eq_none_iff` says what the absence of an objection means, and the last
of its conditions is what keeps the edges acyclic.
-/

namespace Workflow

namespace Graph

/-- Distinct identities, edges between nodes of the graph, configurations of the right
kind. -/
structure Sound (g : Graph) : Prop where
  distinct : (g.nodes.map (·.id)).Nodup
  joined : ∀ e ∈ g.edges, e.source ∈ g.nodes.map (·.id) ∧ e.target ∈ g.nodes.map (·.id)
  configured : ∀ n ∈ g.nodes, n.Configured

/-- The five rules for edges. -/
structure ObeysRules (g : Graph) : Prop where
  loopless : ∀ e ∈ g.edges, e.source ≠ e.target
  simple : g.edges.Pairwise fun e f => ¬ (e.source = f.source ∧ e.target = f.target)
  startless : ∀ e ∈ g.edges, ∀ n ∈ g.nodes, n.id = e.target → n.kind ≠ .start
  endless : ∀ e ∈ g.edges, ∀ n ∈ g.nodes, n.id = e.source → n.kind ≠ .finish
  acyclic : Acyclic g.edges

theorem sound_empty : Sound .empty where
  distinct := List.nodup_nil
  joined _ he := absurd he List.not_mem_nil
  configured _ hn := absurd hn List.not_mem_nil

theorem obeysRules_empty : ObeysRules .empty where
  loopless _ he := absurd he List.not_mem_nil
  simple := .nil
  startless _ he := absurd he List.not_mem_nil
  endless _ he := absurd he List.not_mem_nil
  acyclic := acyclic_nil

/-! ## Looking up a node -/

theorem findNode?_eq_some {g : Graph} {id : String} {n : Node} (h : g.findNode? id = some n) :
    n ∈ g.nodes ∧ n.id = id := by
  unfold findNode? at h
  exact ⟨List.mem_of_find?_eq_some h, by simpa using List.find?_some h⟩

theorem Sound.eq_of_id_eq {g : Graph} (h : g.Sound) {m n : Node} (hm : m ∈ g.nodes)
    (hn : n ∈ g.nodes) (hid : m.id = n.id) : m = n :=
  List.inj_on_of_nodup_map h.distinct hm hn hid

/-! ## Changing a node -/

/-- A list in which the first item that passes a test was changed has the old items and the
changed one. -/
theorem mem_modifyFirst {α : Type} {test : α → Bool} {f : α → α} {y : α} :
    ∀ {xs : List α}, y ∈ modifyFirst test f xs →
      y ∈ xs ∨ ∃ x ∈ xs, xs.find? test = some x ∧ y = f x
  | [], h => absurd h List.not_mem_nil
  | x :: xs, h => by
      rw [modifyFirst] at h
      by_cases hx : test x = true
      · rw [if_pos hx] at h
        rcases List.mem_cons.mp h with rfl | h
        · exact Or.inr ⟨x, List.mem_cons_self, List.find?_cons_of_pos hx, rfl⟩
        · exact Or.inl (List.mem_cons_of_mem _ h)
      · rw [if_neg hx] at h
        rcases List.mem_cons.mp h with rfl | h
        · exact Or.inl List.mem_cons_self
        · rcases mem_modifyFirst h with h | ⟨z, hz, hfind, rfl⟩
          · exact Or.inl (List.mem_cons_of_mem _ h)
          · have hfirst : (x :: xs).find? test = some z := by rw [List.find?_cons_of_neg hx, hfind]
            exact Or.inr ⟨z, List.mem_cons_of_mem _ hz, hfirst, rfl⟩

/-- What a change leaves alone it leaves alone all along the list. -/
theorem map_modifyFirst {α β : Type} {test : α → Bool} {f : α → α} {view : α → β}
    (h : ∀ x, view (f x) = view x) :
    ∀ xs : List α, (modifyFirst test f xs).map view = xs.map view
  | [] => rfl
  | x :: xs => by
      rw [modifyFirst]
      split
      · simp only [List.map_cons, h]
      · simp only [List.map_cons, map_modifyFirst h xs]

theorem find?_modifyFirst {α : Type} {test : α → Bool} {f : α → α}
    (h : ∀ x, test x = true → test (f x) = true) :
    ∀ xs : List α, (modifyFirst test f xs).find? test = (xs.find? test).map f
  | [] => rfl
  | x :: xs => by
      rw [modifyFirst]
      by_cases hx : test x = true
      · rw [if_pos hx, List.find?_cons_of_pos (h x hx), List.find?_cons_of_pos hx]
        rfl
      · rw [if_neg hx, List.find?_cons_of_neg hx, List.find?_cons_of_neg hx, find?_modifyFirst h xs]

theorem modifyFirst_modifyFirst {α : Type} {test : α → Bool} {f f' : α → α}
    (h : ∀ x, test x = true → test (f x) = true) :
    ∀ xs : List α, modifyFirst test f' (modifyFirst test f xs) = modifyFirst test (f' ∘ f) xs
  | [] => rfl
  | x :: xs => by
      rw [modifyFirst, modifyFirst]
      by_cases hx : test x = true
      · rw [if_pos hx, if_pos hx, modifyFirst, if_pos (h x hx)]
        rfl
      · rw [if_neg hx, if_neg hx, modifyFirst, if_neg hx, modifyFirst_modifyFirst h xs]

theorem findNode?_updateNode {g : Graph} {id : String} {f : Node → Node}
    (hid : ∀ n, (f n).id = n.id) :
    (g.updateNode id f).findNode? id = (g.findNode? id).map f :=
  find?_modifyFirst (fun n hn => by rwa [hid]) g.nodes

theorem updateNode_updateNode {g : Graph} {id : String} {f f' : Node → Node}
    (hid : ∀ n, (f n).id = n.id) :
    (g.updateNode id f).updateNode id f' = g.updateNode id (f' ∘ f) :=
  congrArg (Graph.mk · g.edges) (modifyFirst_modifyFirst (fun n hn => by rwa [hid]) g.nodes)

theorem ids_updateNode {g : Graph} {id : String} {f : Node → Node}
    (hid : ∀ n, (f n).id = n.id) :
    (g.updateNode id f).nodes.map (·.id) = g.nodes.map (·.id) :=
  map_modifyFirst hid g.nodes

/-- A change that keeps identities, and the node found configured, keeps the graph sound. -/
theorem Sound.updateNode {g : Graph} (h : g.Sound) {id : String} {f : Node → Node}
    (hid : ∀ n, (f n).id = n.id) (hconfig : ∀ n, g.findNode? id = some n → (f n).Configured) :
    (g.updateNode id f).Sound where
  distinct := by
    rw [ids_updateNode hid]
    exact h.distinct
  joined := by
    rw [ids_updateNode hid]
    exact h.joined
  configured := by
    intro n hn
    rcases mem_modifyFirst hn with hn | ⟨m, -, hfind, rfl⟩
    · exact h.configured n hn
    · exact hconfig m hfind

theorem ObeysRules.updateNode {g : Graph} (h : g.ObeysRules) {id : String} {f : Node → Node}
    (hid : ∀ n, (f n).id = n.id) (hkind : ∀ n, (f n).kind = n.kind) :
    (g.updateNode id f).ObeysRules where
  loopless := h.loopless
  simple := h.simple
  startless := by
    intro e he n hn htarget
    rcases mem_modifyFirst hn with hn | ⟨m, hm, -, rfl⟩
    · exact h.startless e he n hn htarget
    · rw [hkind]
      exact h.startless e he m hm (hid m ▸ htarget)
  endless := by
    intro e he n hn hsource
    rcases mem_modifyFirst hn with hn | ⟨m, hm, -, rfl⟩
    · exact h.endless e he n hn hsource
    · rw [hkind]
      exact h.endless e he m hm (hid m ▸ hsource)
  acyclic := h.acyclic

/-! ## Adding and removing nodes -/

theorem Sound.addNode {g : Graph} (h : g.Sound) {n : Node}
    (hfresh : n.id ∉ g.nodes.map (·.id)) (hconfig : n.Configured) : (g.addNode n).Sound where
  distinct := by
    simp only [Graph.addNode, List.map_append, List.map_cons, List.map_nil]
    refine List.nodup_append.mpr ⟨h.distinct, List.nodup_singleton _, ?_⟩
    intro a ha b hb hab
    obtain rfl := List.mem_singleton.mp hb
    exact hfresh (hab ▸ ha)
  joined := by
    intro e he
    simp only [Graph.addNode, List.map_append, List.mem_append]
    exact ⟨Or.inl (h.joined e he).1, Or.inl (h.joined e he).2⟩
  configured := by
    intro m hm
    rcases List.mem_append.mp hm with hm | hm
    · exact h.configured m hm
    · obtain rfl := List.mem_singleton.mp hm
      exact hconfig

theorem ObeysRules.addNode {g : Graph} (h : g.ObeysRules) (hsound : g.Sound) {n : Node}
    (hfresh : n.id ∉ g.nodes.map (·.id)) : (g.addNode n).ObeysRules where
  loopless := h.loopless
  simple := h.simple
  startless := by
    intro e he m hm htarget
    rcases List.mem_append.mp hm with hm | hm
    · exact h.startless e he m hm htarget
    · obtain rfl := List.mem_singleton.mp hm
      exact absurd (htarget ▸ (hsound.joined e he).2) hfresh
  endless := by
    intro e he m hm hsource
    rcases List.mem_append.mp hm with hm | hm
    · exact h.endless e he m hm hsource
    · obtain rfl := List.mem_singleton.mp hm
      exact absurd (hsource ▸ (hsound.joined e he).1) hfresh
  acyclic := h.acyclic

theorem ObeysRules.sublist {g g' : Graph} (h : g.ObeysRules)
    (hnodes : ∀ n ∈ g'.nodes, n ∈ g.nodes) (hedges : g'.edges.Sublist g.edges) :
    g'.ObeysRules where
  loopless e he := h.loopless e (hedges.subset he)
  simple := h.simple.sublist hedges
  startless e he n hn := h.startless e (hedges.subset he) n (hnodes n hn)
  endless e he n hn := h.endless e (hedges.subset he) n (hnodes n hn)
  acyclic := h.acyclic.mono fun _ he => hedges.subset he

theorem Sound.removeNodes {g : Graph} (h : g.Sound) (ids : List String) :
    (g.removeNodes ids).Sound where
  distinct := h.distinct.sublist (List.filter_sublist.map _)
  joined := by
    intro e he
    simp only [Graph.removeNodes, List.mem_filter, decide_eq_true_eq] at he
    obtain ⟨he, hsource, htarget⟩ := he
    have hstay : ∀ id ∈ g.nodes.map (·.id), id ∉ ids →
        id ∈ (g.removeNodes ids).nodes.map (·.id) := by
      intro id hid hkept
      obtain ⟨n, hn, rfl⟩ := List.mem_map.mp hid
      exact List.mem_map_of_mem (List.mem_filter.mpr ⟨hn, decide_eq_true hkept⟩)
    exact ⟨hstay _ (h.joined e he).1 hsource, hstay _ (h.joined e he).2 htarget⟩
  configured n hn := h.configured n (List.mem_filter.mp hn).1

theorem ObeysRules.removeNodes {g : Graph} (h : g.ObeysRules) (ids : List String) :
    (g.removeNodes ids).ObeysRules :=
  h.sublist (fun _ hn => (List.mem_filter.mp hn).1) List.filter_sublist

/-! ## Drawing and removing edges -/

theorem Sound.removeEdge {g : Graph} (h : g.Sound) (id : String) :
    (g.removeEdge id).Sound where
  distinct := h.distinct
  joined e he := h.joined e (List.mem_filter.mp he).1
  configured := h.configured

theorem ObeysRules.removeEdge {g : Graph} (h : g.ObeysRules) (id : String) :
    (g.removeEdge id).ObeysRules :=
  h.sublist (fun _ hn => hn) List.filter_sublist

theorem Sound.addEdge {g : Graph} (h : g.Sound) {e : Edge}
    (hsource : e.source ∈ g.nodes.map (·.id)) (htarget : e.target ∈ g.nodes.map (·.id)) :
    (g.addEdge e).Sound where
  distinct := h.distinct
  joined := by
    intro f hf
    rcases List.mem_append.mp hf with hf | hf
    · exact h.joined f hf
    · obtain rfl := List.mem_singleton.mp hf
      exact ⟨hsource, htarget⟩
  configured := h.configured

theorem endsObjection?_eq_none_iff {source target : Node} {edges : List Edge} :
    endsObjection? source target edges = none ↔
      source.id ≠ target.id ∧ (∀ e ∈ edges, ¬ (e.source = source.id ∧ e.target = target.id))
        ∧ source.kind ≠ .finish ∧ target.kind ≠ .start := by
  have hany : (edges.any fun e => e.source = source.id ∧ e.target = target.id) = true ↔
      ∃ e ∈ edges, e.source = source.id ∧ e.target = target.id := by
    simp only [List.any_eq_true, decide_eq_true_eq]
  unfold endsObjection?
  split
  · rename_i hloop
    exact ⟨nofun, fun h => absurd hloop h.1⟩
  · rename_i hloop
    split
    · rename_i hdup
      obtain ⟨e, he, hjoin⟩ := hany.mp hdup
      exact ⟨nofun, fun h => absurd hjoin (h.2.1 e he)⟩
    · rename_i hdup
      have hnone : ∀ e ∈ edges, ¬ (e.source = source.id ∧ e.target = target.id) :=
        fun e he hjoin => hdup (hany.mpr ⟨e, he, hjoin⟩)
      split
      · rename_i hend
        exact ⟨nofun, fun h => absurd hend h.2.2.1⟩
      · rename_i hend
        split
        · rename_i hstart
          exact ⟨nofun, fun h => absurd hstart h.2.2.2⟩
        · rename_i hstart
          exact ⟨fun _ => ⟨hloop, hnone, hend, hstart⟩, fun _ => rfl⟩

/-- There is no objection to an edge exactly when it would be no loop, no duplicate, leave no
end node, enter no start node, and lead nowhere from which its source can be reached. -/
theorem objection?_eq_none_iff {source target : Node} {edges : List Edge} :
    objection? source target edges = none ↔
      source.id ≠ target.id ∧ (∀ e ∈ edges, ¬ (e.source = source.id ∧ e.target = target.id))
        ∧ source.kind ≠ .finish ∧ target.kind ≠ .start ∧ ¬ Reaches edges target.id source.id := by
  have hsearch : wouldCreateCycle source.id target.id edges = true
      ↔ Reaches edges target.id source.id := searchFrom_singleton
  unfold objection?
  cases hends : endsObjection? source target edges with
  | some o =>
      refine ⟨nofun, fun ⟨h₁, h₂, h₃, h₄, _⟩ => ?_⟩
      rw [endsObjection?_eq_none_iff.mpr ⟨h₁, h₂, h₃, h₄⟩] at hends
      cases hends
  | none =>
      obtain ⟨h₁, h₂, h₃, h₄⟩ := endsObjection?_eq_none_iff.mp hends
      by_cases hback : wouldCreateCycle source.id target.id edges = true
      · simp only [if_pos hback]
        exact ⟨nofun, fun ⟨_, _, _, _, hnot⟩ => absurd (hsearch.mp hback) hnot⟩
      · simp only [if_neg hback, true_iff]
        exact ⟨h₁, h₂, h₃, h₄, fun hreach => hback (hsearch.mpr hreach)⟩

theorem ObeysRules.addEdge {g : Graph} (h : g.ObeysRules) (hsound : g.Sound)
    {source target : Node} (hsource : source ∈ g.nodes) (htarget : target ∈ g.nodes)
    (hnone : objection? source target g.edges = none) {e : Edge} (hes : e.source = source.id)
    (het : e.target = target.id) : (g.addEdge e).ObeysRules := by
  obtain ⟨hloop, hdup, hend, hstart, hback⟩ := objection?_eq_none_iff.mp hnone
  rw [← hes, ← het] at hloop hback
  refine ⟨?_, ?_, ?_, ?_, h.acyclic.append hback⟩
  · intro f hf
    rcases List.mem_append.mp hf with hf | hf
    · exact h.loopless f hf
    · obtain rfl := List.mem_singleton.mp hf
      exact hloop
  · refine List.pairwise_append.mpr ⟨h.simple, List.pairwise_singleton _ _, ?_⟩
    rintro f hf f' hf' ⟨hfs, hft⟩
    obtain rfl := List.mem_singleton.mp hf'
    exact hdup f hf ⟨hfs.trans hes, hft.trans het⟩
  · intro f hf n hn hid
    rcases List.mem_append.mp hf with hf | hf
    · exact h.startless f hf n hn hid
    · obtain rfl := List.mem_singleton.mp hf
      obtain rfl := hsound.eq_of_id_eq hn htarget (hid.trans het)
      exact hstart
  · intro f hf n hn hid
    rcases List.mem_append.mp hf with hf | hf
    · exact h.endless f hf n hn hid
    · obtain rfl := List.mem_singleton.mp hf
      obtain rfl := hsound.eq_of_id_eq hn hsource (hid.trans hes)
      exact hend

end Graph
end Workflow

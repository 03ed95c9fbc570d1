import Workflow.Proofs.Store.Admission
import Workflow.Proofs.Store.Soundness

/-!
# What the identity of an edge identifies

A store removes every edge of an identity that it is asked to remove, so an edge is removed
on its own exactly if no other one has its identity. Nothing sees to this. A document may
give one identity to several edges. An edge that is drawn gets the names of its ends, joined
by a separator that may occur in them, and so may get the identity of another one.

The names of nodes are *separated* when none begins with another one and the separator.
Between such names the identities drawn differ (`Edge.idBetween_inj`), and what edits make of
a graph whose edges are told apart by their identities (`Graph.Identifies`) is such a graph
again. The names that a store draws for its nodes are separated (`separated_nodeId`).

The headline is `disconnects_single`.
-/

namespace Workflow

/-! ## Identities drawn between names -/

/-- What stands in front of a separator is nothing, or begins with it. -/
theorem eq_nil_or_eq_cons_of_cons_eq {c : Char} {mid ys ys' : List Char}
    (h : c :: ys = mid ++ c :: ys') : (mid = [] ∧ ys = ys') ∨ ∃ rest, mid = c :: rest := by
  cases mid with
  | nil => exact .inl ⟨rfl, (List.cons.inj h).2⟩
  | cons d rest => exact .inr ⟨rest, by rw [(List.cons.inj h).1]⟩

/-- A text that is cut in two at a separator is cut at the same place, or one first part
begins with the other and the separator. -/
theorem eq_or_prefix_of_append_eq {c : Char} {xs ys xs' ys' : List Char}
    (h : xs ++ c :: ys = xs' ++ c :: ys') :
    (xs = xs' ∧ ys = ys') ∨ xs ++ [c] <+: xs' ∨ xs' ++ [c] <+: xs := by
  rcases List.append_eq_append_iff.mp h with ⟨mid, rfl, hmid⟩ | ⟨mid, rfl, hmid⟩
  · rcases eq_nil_or_eq_cons_of_cons_eq hmid with ⟨rfl, rfl⟩ | ⟨rest, rfl⟩
    · exact .inl ⟨(List.append_nil xs).symm, rfl⟩
    · exact .inr (.inl ⟨rest, by rw [List.append_assoc, List.singleton_append]⟩)
  · rcases eq_nil_or_eq_cons_of_cons_eq hmid with ⟨rfl, rfl⟩ | ⟨rest, rfl⟩
    · exact .inl ⟨List.append_nil xs', rfl⟩
    · exact .inr (.inr ⟨rest, by rw [List.append_assoc, List.singleton_append]⟩)

namespace Edge

/-- No name begins with another one and the separator. -/
def Separated (names : String → Prop) : Prop :=
  ∀ a b, names a → names b → ¬ a.toList ++ ['_'] <+: b.toList

/-- **Identities drawn between separated names differ.** -/
theorem idBetween_inj {names : String → Prop} (hapart : Separated names)
    {source target source' target' : String} (hsource : names source)
    (hsource' : names source') (h : idBetween source target = idBetween source' target') :
    source = source' ∧ target = target' := by
  have hlist : source.toList ++ '_' :: target.toList = source'.toList ++ '_' :: target'.toList := by
    have hchars := congrArg String.toList h
    simpa [idBetween, toString, String.toList_append] using hchars
  rcases eq_or_prefix_of_append_eq hlist with ⟨hs, ht⟩ | hprefix | hprefix
  · exact ⟨String.toList_inj.mp hs, String.toList_inj.mp ht⟩
  · exact absurd hprefix (hapart _ _ hsource hsource')
  · exact absurd hprefix (hapart _ _ hsource' hsource)

end Edge

namespace Store

theorem underscore_not_mem_hexDigits (width n : Nat) : '_' ∉ Text.hexDigits width n := by
  have hdigit : ∀ d < 16, '_' ≠ Nat.digitChar d := by decide
  have hdigits : '_' ∉ Nat.toDigits 16 n := by
    induction n using Nat.strongRecOn with
    | ind n ih =>
        rw [Nat.toDigits_eq_if (by decide)]
        split
        · rename_i hsmall
          exact fun h => hdigit n hsmall (List.mem_singleton.mp h)
        · intro h
          rcases List.mem_append.mp h with h | h
          · exact ih (n / 16) (by omega) h
          · exact hdigit _ (by omega) (List.mem_singleton.mp h)
  intro h
  rcases List.mem_append.mp h with h | h
  · exact absurd (List.eq_of_mem_replicate h) (by decide)
  · exact hdigits h

/-- The names that a store draws for nodes have one separator each, and so are separated. -/
theorem separated_nodeId : Edge.Separated fun name => ∃ n, name = nodeId n := by
  rintro _ _ ⟨m, rfl⟩ ⟨n, rfl⟩ h
  simp only [nodeId, String.toList_append, String.toList_ofList, List.append_assoc] at h
  have hdigits := (List.prefix_append_right_inj _).mp h
  exact underscore_not_mem_hexDigits 12 n (hdigits.subset (by simp))

end Store

namespace Graph

/-! ## Removing one edge -/

/-- The second graph is the first one without one of its edges, and everything else is in
place. -/
def LacksJust (g : Graph) (e : Edge) (g' : Graph) : Prop :=
  g'.nodes = g.nodes ∧ ∃ before after, g.edges = before ++ e :: after ∧ g'.edges = before ++ after

theorem removeEdge_eq_self_iff {g : Graph} {id : String} :
    g.removeEdge id = g ↔ id ∉ g.edges.map (·.id) := by
  have hgraph : g.removeEdge id = g ↔ (g.removeEdge id).edges = g.edges :=
    ⟨congrArg edges, congrArg (Graph.mk g.nodes)⟩
  rw [hgraph, removeEdge, List.filter_eq_self]
  simp

theorem id_not_mem_removeEdge (g : Graph) (id : String) :
    id ∉ (g.removeEdge id).edges.map (·.id) := by
  simp [removeEdge]

/-- An edge is removed on its own exactly if its identity is that of one edge. -/
theorem lacksJust_removeEdge_iff {g : Graph} {e : Edge} (he : e ∈ g.edges) :
    g.LacksJust e (g.removeEdge e.id) ↔ (g.edges.map (·.id)).count e.id = 1 := by
  constructor
  · rintro ⟨-, before, after, hsplit, hrest⟩
    have hnone := List.count_eq_zero_of_not_mem (g.id_not_mem_removeEdge e.id)
    rw [hrest, List.map_append, List.count_append] at hnone
    rw [hsplit, List.map_append, List.map_cons, List.count_append, List.count_cons_self]
    omega
  · intro hone
    obtain ⟨before, after, hsplit⟩ := List.append_of_mem he
    refine ⟨rfl, before, after, hsplit, ?_⟩
    rw [hsplit, List.map_append, List.map_cons, List.count_append, List.count_cons_self] at hone
    have hkept : ∀ edges : List Edge, (edges.map (·.id)).count e.id = 0 →
        edges.filter (·.id ≠ e.id) = edges := by
      intro edges hzero
      refine List.filter_eq_self.mpr fun f hf => decide_eq_true fun hid => ?_
      exact List.count_eq_zero.mp hzero (List.mem_map.mpr ⟨f, hf, hid⟩)
    rw [removeEdge, hsplit, List.filter_append, List.filter_cons_of_neg (by simp),
      hkept before (by omega), hkept after (by omega)]

/-- Taking away an edge that was added last brings back the graph unless its identity was in
use. -/
theorem removeEdge_addEdge_iff {g : Graph} {e : Edge} :
    (g.addEdge e).removeEdge e.id = g ↔ e.id ∉ g.edges.map (·.id) := by
  have hadded : (g.addEdge e).removeEdge e.id = g.removeEdge e.id := by
    simp [removeEdge, addEdge]
  rw [hadded, removeEdge_eq_self_iff]

/-! ## Graphs whose edges are told apart -/

/-- Nodes have such names, no two edges share an identity, and an edge with an identity that
is drawn between two such names lies between them. -/
structure Identifies (names : String → Prop) (g : Graph) : Prop where
  named : ∀ n ∈ g.nodes, names n.id
  distinct : (g.edges.map (·.id)).Nodup
  between : ∀ e ∈ g.edges, ∀ source target, names source → names target →
    e.id = Edge.idBetween source target → e.source = source ∧ e.target = target

variable {names : String → Prop} {g : Graph}

theorem identifies_empty (names : String → Prop) : Identifies names .empty where
  named _ hn := absurd hn List.not_mem_nil
  distinct := List.nodup_nil
  between _ he := absurd he List.not_mem_nil

theorem Identifies.sublist (h : g.Identifies names) {g' : Graph}
    (hnodes : ∀ n ∈ g'.nodes, names n.id) (hedges : g'.edges.Sublist g.edges) :
    g'.Identifies names where
  named := hnodes
  distinct := h.distinct.sublist (hedges.map _)
  between e he := h.between e (hedges.subset he)

theorem Identifies.updateNode (h : g.Identifies names) {id : String} {f : Node → Node}
    (hid : ∀ n, (f n).id = n.id) : (g.updateNode id f).Identifies names := by
  refine h.sublist (fun n hn => ?_) (List.Sublist.refl _)
  rcases mem_modifyFirst hn with hn | ⟨m, hm, -, rfl⟩
  · exact h.named n hn
  · rw [hid]
    exact h.named m hm

theorem Identifies.addNode (h : g.Identifies names) {n : Node} (hn : names n.id) :
    (g.addNode n).Identifies names :=
  h.sublist (List.forall_mem_append.mpr ⟨h.named, List.forall_mem_singleton.mpr hn⟩)
    (List.Sublist.refl _)

theorem Identifies.removeNodes (h : g.Identifies names) (ids : List String) :
    (g.removeNodes ids).Identifies names :=
  h.sublist (fun n hn => h.named n (List.mem_filter.mp hn).1) List.filter_sublist

/-- Between nodes that are not joined yet, the identity drawn is a new one. -/
theorem Identifies.idBetween_not_mem (h : g.Identifies names) {source target : String}
    (hsource : names source) (htarget : names target)
    (hfree : ∀ e ∈ g.edges, ¬ (e.source = source ∧ e.target = target)) :
    Edge.idBetween source target ∉ g.edges.map (·.id) := by
  intro hmem
  obtain ⟨e, he, hid⟩ := List.mem_map.mp hmem
  exact hfree e he (h.between e he source target hsource htarget hid)

theorem Identifies.addEdge (hapart : Edge.Separated names) (h : g.Identifies names)
    {e : Edge} (hsource : names e.source) (htarget : names e.target)
    (hid : e.id = Edge.idBetween e.source e.target)
    (hfree : ∀ f ∈ g.edges, ¬ (f.source = e.source ∧ f.target = e.target)) :
    (g.addEdge e).Identifies names where
  named := h.named
  distinct := by
    have hnew := h.idBetween_not_mem hsource htarget hfree
    simp only [Graph.addEdge, List.map_append, List.map_cons, List.map_nil]
    refine List.nodup_append.mpr ⟨h.distinct, List.nodup_singleton _, ?_⟩
    rintro id hold _ hlast rfl
    obtain rfl := List.mem_singleton.mp hlast
    exact hnew (hid ▸ hold)
  between := by
    intro f hf source target hs ht hf'
    rcases List.mem_append.mp hf with hf | hf
    · exact h.between f hf source target hs ht hf'
    · obtain rfl := List.mem_singleton.mp hf
      exact Edge.idBetween_inj hapart hsource hs (hid.symm.trans hf')

end Graph

namespace Store

/-! ## Drawing and removing -/

theorem disconnect_of_mem {s : Store} {id : String} (h : id ∈ s.graph.edges.map (·.id)) :
    (s.disconnect id).1 = true ∧ (s.disconnect id).2.graph = s.graph.removeEdge id := by
  obtain ⟨e, he, rfl⟩ := List.mem_map.mp h
  have hshorter : (s.graph.removeEdge e.id).edges.length ≠ s.graph.edges.length := by
    refine Nat.ne_of_lt (List.length_filter_lt_length_iff_exists.mpr ⟨e, he, ?_⟩)
    simp
  have hcommits : s.Commits (s.graph.removeEdge e.id)
      (commit { s with graph := s.graph.removeEdge e.id } (.removeEdge e.id)) :=
    commits_commit rfl rfl rfl rfl rfl
  unfold disconnect
  dsimp only
  rw [if_neg hshorter]
  exact ⟨rfl, hcommits.graph⟩

theorem connect_eq_ok_iff {s : Store} {source target : String}
    {sourceHandle targetHandle : Value} {id : String} :
    (s.connect source target sourceHandle targetHandle).1 = .ok (.ok id) ↔
      id = Edge.idBetween source target ∧ ∃ n m, s.graph.findNode? source = some n
        ∧ s.graph.findNode? target = some m ∧ objection? n m s.graph.edges = none := by
  have hrejected : ∀ rejection, (s.reject rejection).1 ≠ .ok (.ok id) := by
    intro rejection h
    rcases (s.reject_eq rejection).2 with h' | ⟨_, -, h'⟩ <;> cases h.symm.trans h'
  constructor
  · intro h
    unfold connect at h
    split at h
    · rename_i n m hsource htarget
      split at h
      · exact absurd h (hrejected _)
      · rename_i hnone
        exact ⟨Except.ok.inj (Except.ok.inj h.symm), n, m, hsource, htarget, hnone⟩
    · exact absurd h (hrejected _)
  · rintro ⟨rfl, n, m, hsource, htarget, hnone⟩
    simp only [connect, hsource, htarget, hnone]

theorem graph_of_connect {s : Store} {source target : String}
    {sourceHandle targetHandle : Value} {id : String}
    (h : (s.connect source target sourceHandle targetHandle).1 = .ok (.ok id)) :
    (s.connect source target sourceHandle targetHandle).2.graph
      = s.graph.addEdge (edgeBetween source target sourceHandle targetHandle) := by
  obtain ⟨-, n, m, hsource, htarget, hnone⟩ := connect_eq_ok_iff.mp h
  exact (commits_connect hsource htarget hnone sourceHandle targetHandle).graph

theorem disconnect_of_connect {s : Store} {source target : String}
    {sourceHandle targetHandle : Value} {id : String}
    (h : (s.connect source target sourceHandle targetHandle).1 = .ok (.ok id)) :
    let drawn := (s.connect source target sourceHandle targetHandle).2
    (drawn.disconnect id).1 = true
      ∧ ((drawn.disconnect id).2.graph = s.graph ↔ id ∉ s.graph.edges.map (·.id)) := by
  intro drawn
  obtain ⟨rfl, -⟩ := connect_eq_ok_iff.mp h
  have hgraph : drawn.graph = _ := graph_of_connect h
  have hmem : Edge.idBetween source target ∈ drawn.graph.edges.map (·.id) := by
    rw [hgraph]
    simp [Graph.addEdge, edgeBetween]
  obtain ⟨hdone, hremoved⟩ := disconnect_of_mem hmem
  refine ⟨hdone, ?_⟩
  rw [hremoved, hgraph]
  exact Graph.removeEdge_addEdge_iff

/-! ## Edges stay told apart -/

/-- A node is only added under such a name, and the edges of a document that is imported are
told apart by their identities. -/
def Names (names : String → Prop) (s : Store) (r : Request) : Prop :=
  (∀ id ∈ s.drawn? r, names id)
    ∧ ∀ e d, r = .edit e → s.imported? e = some d → Graph.Identifies names ⟨d.nodes, d.edges⟩

/-- **Revisions keep the edges told apart.** -/
theorem Revision.identifies {names : String → Prop} (hapart : Edge.Separated names)
    {s : Store} {r : Request} {g : Graph} (hnames : s.Names names r)
    (h : s.graph.Identifies names) (hrevision : Revision s r g) : g.Identifies names := by
  have hmove : ∀ (g : Graph) (id : String) (position : Position), g.Identifies names →
      (g.updateNode id fun n => { n with position }).Identifies names :=
    fun _ _ _ h => h.updateNode fun _ => rfl
  cases hrevision with
  | add => exact h.addNode (hnames.1 _ rfl)
  | addNext => exact h.addNode (hnames.1 _ rfl)
  | move => exact moved_induction (P := Graph.Identifies names) hmove h _
  | moves => exact moved_induction (P := Graph.Identifies names) hmove h _
  | configure _ _ => exact h.updateNode fun _ => rfl
  | rename => exact h.updateNode fun _ => rfl
  | removeNode => exact h.removeNodes _
  | removeNodes => exact h.removeNodes _
  | connect hsource htarget hnone hends hdrawn =>
      obtain ⟨hs, rfl⟩ := Graph.findNode?_eq_some hsource
      obtain ⟨ht, rfl⟩ := Graph.findNode?_eq_some htarget
      obtain ⟨-, hfree, -⟩ := Graph.objection?_eq_none_iff.mp hnone
      rw [← hends.1, ← hends.2] at hdrawn hfree
      exact h.addEdge hapart (hends.1 ▸ h.named _ hs) (hends.2 ▸ h.named _ ht) hdrawn hfree
  | disconnect => exact h.sublist h.named List.filter_sublist
  | clear => exact Graph.identifies_empty names
  | imported htaken => exact hnames.2 _ _ rfl htaken

/-- **An edge is removed on its own where its identity is its own.** In every store removing
the identity of an edge is granted and removes all edges of this identity, and so this edge
alone exactly if no other one has it. In every store an edge that was just drawn can be
removed again, and this brings back the graph exactly if the identity drawn was not in use.
Both is so wherever requests lead under which nodes have separated names and documents that
are imported tell their edges apart. -/
theorem disconnects_single (s : Store) :
    (∀ e ∈ s.graph.edges,
      (s.disconnect e.id).1 = true ∧ (s.disconnect e.id).2.graph = s.graph.removeEdge e.id
        ∧ (s.graph.LacksJust e (s.disconnect e.id).2.graph
            ↔ (s.graph.edges.map (·.id)).count e.id = 1))
      ∧ (∀ source target sourceHandle targetHandle id,
        let connected := s.connect source target sourceHandle targetHandle
        connected.1 = .ok (.ok id) → (connected.2.disconnect id).1 = true
          ∧ ((connected.2.disconnect id).2.graph = s.graph ↔ id ∉ s.graph.edges.map (·.id)))
      ∧ ∀ names : String → Prop, Edge.Separated names → ∀ s₀ : Store, s₀.Fresh →
        Reachable (Throughout (Names names)) s₀ s →
          (∀ e ∈ s.graph.edges, (s.disconnect e.id).1 = true
            ∧ s.graph.LacksJust e (s.disconnect e.id).2.graph)
          ∧ ∀ source target sourceHandle targetHandle id,
            let connected := s.connect source target sourceHandle targetHandle
            connected.1 = .ok (.ok id) → (connected.2.disconnect id).1 = true
              ∧ (connected.2.disconnect id).2.graph = s.graph := by
  have hremoved : ∀ e ∈ s.graph.edges,
      (s.disconnect e.id).1 = true ∧ (s.disconnect e.id).2.graph = s.graph.removeEdge e.id
        ∧ (s.graph.LacksJust e (s.disconnect e.id).2.graph
            ↔ (s.graph.edges.map (·.id)).count e.id = 1) := by
    intro e he
    obtain ⟨hdone, hgraph⟩ := s.disconnect_of_mem (List.mem_map_of_mem he)
    exact ⟨hdone, hgraph, hgraph ▸ Graph.lacksJust_removeEdge_iff he⟩
  refine ⟨hremoved, fun _ _ _ _ _ => disconnect_of_connect, ?_⟩
  intro names hapart s₀ h₀ hreach
  have hkept : ∀ {s r g}, Names names s r → s.graph.Identifies names → Revision s r g →
      g.Identifies names :=
    fun hnames h hrevision => hrevision.identifies hapart hnames h
  have h := (Holds.of_reachable hkept (h₀.holds (Graph.identifies_empty names)) hreach).graph
  refine ⟨fun e he => ?_, fun source target sourceHandle targetHandle id hdrawn => ?_⟩
  · obtain ⟨hdone, -, hiff⟩ := hremoved e he
    exact ⟨hdone, hiff.mpr (List.count_eq_one_of_mem h.distinct (List.mem_map_of_mem he))⟩
  · obtain ⟨hdone, hiff⟩ := disconnect_of_connect hdrawn
    obtain ⟨rfl, n, m, hsource, htarget, hnone⟩ := connect_eq_ok_iff.mp hdrawn
    obtain ⟨hn, rfl⟩ := Graph.findNode?_eq_some hsource
    obtain ⟨hm, rfl⟩ := Graph.findNode?_eq_some htarget
    obtain ⟨-, hfree, -⟩ := Graph.objection?_eq_none_iff.mp hnone
    exact ⟨hdone, hiff.mpr (h.idBetween_not_mem (h.named n hn) (h.named m hm) hfree)⟩

/-- Between two nodes that the store has named an edge is drawn and removed again. Where the
names of four nodes can be confused, two edges get one identity, and removing the second
removes the first as well. -/
theorem disconnects_single_unless_confused :
    let s₀ := plain none 0 0
    let s := (s₀.after (.edit (.addNode "start" none))).after (.edit (.addNode "end" none))
    let connected := s.connect (nodeId 1) (nodeId 2) .null .null
    let node (id : String) (kind : NodeKind) : Node :=
      ⟨id, kind, .origin, id, some (Config.initial kind)⟩
    let t : Store := { plain none 0 0 with
      graph := ⟨[node "a" .start, node "a_b" .start, node "b_c" .finish, node "c" .finish],
        [edgeBetween "a" "b_c" .null .null]⟩ }
    let confused := t.connect "a_b" "c" .null .null
    connected.1 = .ok (.ok (Edge.idBetween (nodeId 1) (nodeId 2)))
      ∧ (connected.2.disconnect (Edge.idBetween (nodeId 1) (nodeId 2))).2.graph = s.graph
      ∧ confused.1 = .ok (.ok "edge_a_b_c")
      ∧ (confused.2.disconnect "edge_a_b_c").2.graph ≠ t.graph := by
  intro s₀ s connected node t confused
  have hrun : Reachable (Throughout (Names fun name => ∃ n, name = nodeId n)) s₀ s := by
    refine .step _ (.step _ .start ?_) ?_
    · exact throughout_of_unheard rfl ⟨by rintro _ ⟨⟩; exact ⟨1, rfl⟩, by rintro _ _ ⟨⟩ ⟨⟩⟩
    · exact throughout_of_unheard rfl ⟨by rintro _ ⟨⟩; exact ⟨2, rfl⟩, by rintro _ _ ⟨⟩ ⟨⟩⟩
  have hdrawn : connected.1 = .ok (.ok (Edge.idBetween (nodeId 1) (nodeId 2))) := by
    refine connect_eq_ok_iff.mpr ⟨rfl, newNode (nodeId 1) .start none,
      newNode (nodeId 2) .finish none, by decide +kernel, by decide +kernel, ?_⟩
    have hnone : s.graph.edges = [] := by decide +kernel
    rw [hnone]
    refine Graph.objection?_eq_none_iff.mpr ⟨by decide +kernel, nofun, nofun, nofun, ?_⟩
    rw [reaches_nil]
    decide +kernel
  have hconfused : confused.1 = .ok (.ok "edge_a_b_c") := by
    refine connect_eq_ok_iff.mpr ⟨by decide +kernel, node "a_b" .start, node "c" .finish,
      by decide +kernel, by decide +kernel, ?_⟩
    refine Graph.objection?_eq_none_iff.mpr ⟨by decide, by decide, nofun, nofun, fun h => ?_⟩
    have hlast := reaches_closed (P := fun id => id = "c") ?_ rfl h
    · exact absurd hlast (by decide)
    · rintro _ rfl _ ⟨e, he, hsource, -⟩
      obtain rfl := List.mem_singleton.mp he
      exact absurd hsource (by decide)
  obtain ⟨-, -, hreached⟩ := disconnects_single s
  obtain ⟨-, hrestored⟩ :=
    (hreached _ separated_nodeId s₀ (fresh_create ..) hrun).2 _ _ _ _ _ hdrawn
  obtain ⟨-, hany, -⟩ := disconnects_single t
  obtain ⟨-, hiff⟩ := hany _ _ _ _ _ hconfused
  refine ⟨hdrawn, ?_, hconfused, ?_⟩
  · simpa only [connected] using hrestored
  · rw [ne_eq, hiff]
    decide +kernel

end Store
end Workflow

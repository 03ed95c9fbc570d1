import Workflow.Proofs.Graph.Precheck
import Workflow.Proofs.Graph.Rules
import Workflow.Store.Edit

/-!
# Which edges a graph admits

Each of the five objections to an edge stands for a rule that the edges of a graph may keep
or break as they are (`Heeds`). Where identities are distinct, as in every store that was
built by requests, these are together the rules for edges (`obeysRules_iff_heeds`). On the
other side stands what is against a single edge that is to be drawn (`Against`), which is
what is looked at. The two sides say the same: where a rule is kept, it is still kept with an
edge more if and only if the objection does not hold against the edge (`heeds_addEdge_iff`).
Four of the rules speak of each edge or pair of edges by itself; that none of them closes a
walk does not, and the way back has to be searched for in the whole graph.

The reasons to refuse an edge have an order (`Rejection.inOrder`), and the objections are
raised in it (`objection?_eq_find?`).
-/

namespace Workflow

/-- The objections in the order in which they are looked at. -/
def Objection.inOrder : List Objection :=
  [.selfLoop, .duplicate, .fromFinish, .intoStart, .cycle]

/-- The reasons to refuse an edge in the order in which they are looked at: first that an end
is missing, then the objections. -/
def Rejection.inOrder : List Rejection := .unknownNode :: Objection.inOrder.map .objection

namespace Graph

/-- The graph keeps the rule that an objection stands for. An end of an edge is of the kind
of the first node with its identity. -/
def Heeds (g : Graph) : Objection → Prop
  | .selfLoop => ∀ e ∈ g.edges, e.source ≠ e.target
  | .duplicate => g.edges.Pairwise fun e f => ¬ (e.source = f.source ∧ e.target = f.target)
  | .fromFinish => ∀ e ∈ g.edges, ∀ n ∈ g.findNode? e.source, n.kind ≠ .finish
  | .intoStart => ∀ e ∈ g.edges, ∀ n ∈ g.findNode? e.target, n.kind ≠ .start
  | .cycle => Acyclic g.edges

/-- An objection holds against an edge that is to be drawn. -/
def Against (g : Graph) (e : Edge) : Objection → Prop
  | .selfLoop => e.source = e.target
  | .duplicate => ∃ f ∈ g.edges, f.source = e.source ∧ f.target = e.target
  | .fromFinish => ∃ n ∈ g.findNode? e.source, n.kind = .finish
  | .intoStart => ∃ n ∈ g.findNode? e.target, n.kind = .start
  | .cycle => Reaches g.edges e.target e.source

/-- What must hold for an edge not to be refused for a reason: its ends are nodes, and with
it the graph still keeps each of the rules. -/
def Meets (g : Graph) (e : Edge) : Rejection → Prop
  | .unknownNode => e.source ∈ g.nodes.map (·.id) ∧ e.target ∈ g.nodes.map (·.id)
  | .objection o => (g.addEdge e).Heeds o

/-- The reason is the first for which the edge must be refused. -/
def FirstUnmet (g : Graph) (e : Edge) (r : Rejection) : Prop :=
  ∃ before after, Rejection.inOrder = before ++ r :: after
    ∧ (∀ q ∈ before, g.Meets e q) ∧ ¬ g.Meets e r

/-! ## Rules and objections -/

theorem mem_ids_iff {g : Graph} {id : String} :
    id ∈ g.nodes.map (·.id) ↔ ∃ n, g.findNode? id = some n := by
  rw [← Option.isSome_iff_exists, findNode?, List.find?_isSome]
  simp

/-- Where identities are distinct, the rules of the objections are the rules for edges. -/
theorem obeysRules_iff_heeds {g : Graph} (hdistinct : (g.nodes.map (·.id)).Nodup) :
    g.ObeysRules ↔ ∀ o, g.Heeds o := by
  have hfound : ∀ {n : Node} {id : String}, n ∈ g.nodes → n.id = id → g.findNode? id = some n := by
    intro n id hn hid
    obtain ⟨m, hm⟩ := mem_ids_iff.mp (List.mem_map.mpr ⟨n, hn, hid⟩)
    obtain ⟨hmem, hmid⟩ := findNode?_eq_some hm
    rw [hm, List.inj_on_of_nodup_map hdistinct hmem hn (hmid.trans hid.symm)]
  constructor
  · intro h o
    cases o with
    | selfLoop => exact h.loopless
    | duplicate => exact h.simple
    | fromFinish =>
        intro e he n hn
        obtain ⟨hmem, hid⟩ := findNode?_eq_some hn
        exact h.endless e he n hmem hid
    | intoStart =>
        intro e he n hn
        obtain ⟨hmem, hid⟩ := findNode?_eq_some hn
        exact h.startless e he n hmem hid
    | cycle => exact h.acyclic
  · intro h
    refine ⟨h .selfLoop, h .duplicate, ?_, ?_, h .cycle⟩
    · intro e he n hn hid
      exact h .intoStart e he n (hfound hn hid)
    · intro e he n hn hid
      exact h .fromFinish e he n (hfound hn hid)

/-- **Where a rule is kept, an edge more keeps it unless the objection holds against the
edge.** -/
theorem heeds_addEdge_iff {g : Graph} {o : Objection} (h : g.Heeds o) (e : Edge) :
    (g.addEdge e).Heeds o ↔ ¬ g.Against e o := by
  have heach : ∀ {P : Edge → Prop}, (∀ f ∈ g.edges, P f) →
      ((∀ f ∈ (g.addEdge e).edges, P f) ↔ P e) := by
    intro P hall
    simp only [addEdge, List.forall_mem_append, List.forall_mem_singleton]
    exact and_iff_right hall
  cases o with
  | selfLoop => exact heach (P := fun f => f.source ≠ f.target) h
  | duplicate =>
      have hpairs : (g.addEdge e).Heeds .duplicate ↔ g.Heeds .duplicate
          ∧ ∀ f ∈ g.edges, ¬ (f.source = e.source ∧ f.target = e.target) := by
        simp [Heeds, addEdge, List.pairwise_append]
      rw [hpairs, and_iff_right h]
      simp [Against]
  | fromFinish =>
      have hkind := heach (P := fun f => ∀ n ∈ g.findNode? f.source, n.kind ≠ .finish) h
      refine hkind.trans ?_
      simp [Against]
  | intoStart =>
      have hkind := heach (P := fun f => ∀ n ∈ g.findNode? f.target, n.kind ≠ .start) h
      refine hkind.trans ?_
      simp [Against]
  | cycle =>
      constructor
      · intro hacyclic hback
        exact hacyclic e.source (onCycle_append hback)
      · intro hnone
        exact Acyclic.append h hnone

/-! ## The objection that is raised -/

/-- Whether an objection holds can be found out, for a way back by searching for it. -/
instance (g : Graph) (e : Edge) : (o : Objection) → Decidable (g.Against e o)
  | .selfLoop => inferInstanceAs (Decidable (e.source = e.target))
  | .duplicate =>
    inferInstanceAs (Decidable (∃ f ∈ g.edges, f.source = e.source ∧ f.target = e.target))
  | .fromFinish => inferInstanceAs (Decidable (∃ n ∈ g.findNode? e.source, n.kind = .finish))
  | .intoStart => inferInstanceAs (Decidable (∃ n ∈ g.findNode? e.target, n.kind = .start))
  | .cycle =>
    decidable_of_iff (wouldCreateCycle e.source e.target g.edges = true) searchFrom_singleton

/-- **The objection that is raised is the first in order that holds against the edge.** -/
theorem objection?_eq_find? {g : Graph} {e : Edge} {source target : Node}
    (hsource : g.findNode? e.source = some source)
    (htarget : g.findNode? e.target = some target) :
    objection? source target g.edges = Objection.inOrder.find? fun o => g.Against e o := by
  have hs := (findNode?_eq_some hsource).2
  have ht := (findNode?_eq_some htarget).2
  have hself : g.Against e .selfLoop ↔ source.id = target.id := by rw [hs, ht]; rfl
  have hduplicate : g.Against e .duplicate
      ↔ (g.edges.any fun f => f.source = source.id ∧ f.target = target.id) = true := by
    simp [Against, hs, ht]
  have hfrom : g.Against e .fromFinish ↔ source.kind = .finish := by simp [Against, hsource]
  have hinto : g.Against e .intoStart ↔ target.kind = .start := by simp [Against, htarget]
  have hcycle : g.Against e .cycle ↔ wouldCreateCycle source.id target.id g.edges = true := by
    rw [hs, ht]
    exact searchFrom_singleton.symm
  have hcons : ∀ o os, List.find? (fun o => decide (g.Against e o)) (o :: os)
      = if g.Against e o then some o else os.find? fun o => g.Against e o := by
    intro o os
    by_cases hagainst : g.Against e o <;> simp [hagainst]
  simp only [objection?, endsObjection?, Objection.inOrder, hcons, List.find?_nil, hself,
    hduplicate, hfrom, hinto, hcycle]
  split_ifs <;> rfl

/-- An edge between nodes meets every condition, or is refused for the first that it does not
meet, as long as the graph kept the rules without it. -/
theorem objection?_cases {g : Graph} (hrules : ∀ o, g.Heeds o) {e : Edge}
    {source target : Node} (hsource : g.findNode? e.source = some source)
    (htarget : g.findNode? e.target = some target) :
    (objection? source target g.edges = none ∧ ∀ r, g.Meets e r)
      ∨ ∃ o, objection? source target g.edges = some o ∧ g.FirstUnmet e (.objection o) := by
  have hknown : g.Meets e .unknownNode :=
    ⟨mem_ids_iff.mpr ⟨source, hsource⟩, mem_ids_iff.mpr ⟨target, htarget⟩⟩
  have hfirst := objection?_eq_find? hsource htarget
  cases hraised : objection? source target g.edges with
  | none =>
      refine Or.inl ⟨rfl, fun r => ?_⟩
      rw [hraised] at hfirst
      cases r with
      | unknownNode => exact hknown
      | objection o =>
          have hnone := List.find?_eq_none.mp hfirst.symm o (by cases o <;> decide)
          exact (heeds_addEdge_iff (hrules o) e).mpr (by simpa using hnone)
  | some o =>
      refine Or.inr ⟨o, rfl, ?_⟩
      rw [hraised] at hfirst
      obtain ⟨hagainst, before, after, horder, hbefore⟩ :=
        List.find?_eq_some_iff_append.mp hfirst.symm
      refine ⟨.unknownNode :: before.map .objection, after.map .objection, ?_, ?_, ?_⟩
      · simp [Rejection.inOrder, horder]
      · intro q hq
        rcases List.mem_cons.mp hq with rfl | hq
        · exact hknown
        · obtain ⟨p, hp, rfl⟩ := List.mem_map.mp hq
          exact (heeds_addEdge_iff (hrules p) e).mpr (by simpa using hbefore p hp)
      · intro hmeets
        exact (heeds_addEdge_iff (hrules o) e).mp hmeets (by simpa using hagainst)

end Graph
end Workflow

import Mathlib.Order.WellFoundedSet
import Workflow.Proofs.Graph.Cycle
import Workflow.Run.Work

/-!
# Clean reports

The check of a workflow warns of a node by looking at its own edges alone: one must enter it
unless it is a start node, and one must leave it unless it is an end node. That this is
enough for every node to lie on a way from a start node to an end node is an argument about
the whole graph. Where no walk is closed, a walk cannot go on for ever among finitely many
nodes, so from every node some walk leads to a node that no edge leaves
(`Acyclic.exists_last`), which is an end node, and back to one that no edge enters
(`Acyclic.exists_first`), which is a start node.

The headline is `report_clean_iff`.
-/

namespace Workflow

/-! ## Where walks end -/

/-- Without closed walks, and with all its targets among finitely many, a relation leads from
everything among them to something from which it leads nowhere. -/
theorem exists_last_of_irreflexive {α : Type} {r : α → α → Prop} {among : List α}
    (hirrefl : ∀ a, ¬ Relation.TransGen r a a) (htargets : ∀ a b, r a b → b ∈ among) {a : α}
    (ha : a ∈ among) :
    ∃ last ∈ among, Relation.ReflTransGen r a last ∧ ∀ b, ¬ r last b := by
  have : IsStrictOrder α fun b a => Relation.TransGen r a b :=
    { irrefl := hirrefl, trans := fun _ _ _ hba hcb => hcb.trans hba }
  have hfounded := among.finite_toSet.wellFoundedOn (r := fun b a => Relation.TransGen r a b)
  -- By induction on what can still be reached.
  refine hfounded.induction (P := fun a => ∃ last ∈ among, Relation.ReflTransGen r a last
    ∧ ∀ b, ¬ r last b) ha fun a ha ih => ?_
  by_cases hstep : ∃ b, r a b
  · obtain ⟨b, hab⟩ := hstep
    obtain ⟨last, hlast, hreach, hstop⟩ := ih b (htargets a b hab) (.single hab)
    exact ⟨last, hlast, hreach.head hab, hstop⟩
  · exact ⟨a, ha, .refl, not_exists.mp hstep⟩

theorem Acyclic.exists_last {edges : List Edge} (hacyclic : Acyclic edges)
    {ids : List String} (htargets : ∀ e ∈ edges, e.target ∈ ids) {id : String}
    (hid : id ∈ ids) :
    ∃ last ∈ ids, Reaches edges id last ∧ ∀ b, ¬ Leads edges last b := by
  refine exists_last_of_irreflexive hacyclic ?_ hid
  rintro _ _ ⟨e, he, rfl, rfl⟩
  exact htargets e he

theorem Acyclic.exists_first {edges : List Edge} (hacyclic : Acyclic edges)
    {ids : List String} (hsources : ∀ e ∈ edges, e.source ∈ ids) {id : String}
    (hid : id ∈ ids) :
    ∃ first ∈ ids, Reaches edges first id ∧ ∀ a, ¬ Leads edges a first := by
  have hirrefl : ∀ a, ¬ Relation.TransGen (Function.swap (Leads edges)) a a :=
    fun a hcycle => hacyclic a (Relation.transGen_swap.mp hcycle)
  have htargets : ∀ a b, Function.swap (Leads edges) a b → b ∈ ids := by
    rintro _ _ ⟨e, he, rfl, rfl⟩
    exact hsources e he
  obtain ⟨first, hfirst, hreach, hstop⟩ := exists_last_of_irreflexive hirrefl htargets hid
  exact ⟨first, hfirst, Relation.reflTransGen_swap.mp hreach, hstop⟩

/-! ## What the check looks at -/

theorem hasOutgoing_iff {edges : List Edge} {n : Node} :
    hasOutgoing edges n = true ↔ ∃ b, Leads edges n.id b := by
  simp only [hasOutgoing, List.any_eq_true, decide_eq_true_eq, Leads]
  constructor
  · rintro ⟨e, he, hsource⟩
    exact ⟨e.target, e, he, hsource, rfl⟩
  · rintro ⟨_, e, he, hsource, -⟩
    exact ⟨e, he, hsource⟩

theorem hasIncoming_iff {edges : List Edge} {n : Node} :
    hasIncoming edges n = true ↔ ∃ a, Leads edges a n.id := by
  simp only [hasIncoming, List.any_eq_true, decide_eq_true_eq, Leads]
  constructor
  · rintro ⟨e, he, htarget⟩
    exact ⟨e.source, e, he, rfl, htarget⟩
  · rintro ⟨_, e, he, -, htarget⟩
    exact ⟨e, he, htarget⟩

theorem innerWarning?_eq_none_iff {edges : List Edge} {n : Node} :
    innerWarning? edges n = none ↔ hasIncoming edges n = true ∧ hasOutgoing edges n = true := by
  unfold innerWarning?
  cases hasIncoming edges n <;> cases hasOutgoing edges n <;> simp

theorem nodesOf_eq_nil_iff {kind : NodeKind} {nodes : List Node} :
    nodesOf kind nodes = [] ↔ ¬ ∃ n ∈ nodes, n.kind = kind := by
  simp only [nodesOf, List.filter_eq_nil_iff, decide_eq_true_eq, not_exists, not_and]

theorem filter_nodesOf_eq_nil_iff {kind : NodeKind} {nodes : List Node} {good : Node → Bool} :
    (nodesOf kind nodes).filter (!good ·) = [] ↔ ∀ n ∈ nodes, n.kind = kind → good n = true := by
  simp only [nodesOf, List.filter_eq_nil_iff, List.mem_filter, decide_eq_true_eq, and_imp,
    Bool.not_eq_true', Bool.not_eq_false]

/-- There is no warning when there is an end node, an edge leaves every node but end nodes,
an edge enters every node but start nodes, and start nodes begin with records. -/
theorem findWarnings_eq_nil_iff {nodes : List Node} {edges : List Edge} :
    findWarnings nodes edges = [] ↔
      (∃ n ∈ nodes, n.kind = .finish)
        ∧ (∀ n ∈ nodes, n.kind ≠ .finish → ∃ b, Leads edges n.id b)
        ∧ (∀ n ∈ nodes, n.kind ≠ .start → ∃ a, Leads edges a n.id)
        ∧ ∀ n ∈ nodes, n.kind = .start → hasPayload n = true := by
  have hfinish : (if nodesOf .finish nodes = [] then [Warning.noFinish] else []) = []
      ↔ ∃ n ∈ nodes, n.kind = .finish := by
    simp only [ite_eq_right_iff, List.cons_ne_nil, imp_false, nodesOf_eq_nil_iff, not_not]
  have hinner : (innerNodes nodes).filterMap (innerWarning? edges) = []
      ↔ ∀ n ∈ nodes, n.kind ≠ .start → n.kind ≠ .finish →
          (∃ a, Leads edges a n.id) ∧ ∃ b, Leads edges n.id b := by
    simp only [innerNodes, List.filterMap_eq_nil_iff, List.mem_filter, decide_eq_true_eq,
      innerWarning?_eq_none_iff, hasIncoming_iff, hasOutgoing_iff, and_imp]
  simp only [findWarnings, List.append_eq_nil_iff, List.map_eq_nil_iff, filter_nodesOf_eq_nil_iff,
    hfinish, hinner, hasOutgoing_iff, hasIncoming_iff]
  constructor
  · rintro ⟨⟨⟨⟨hfinish, hstarts⟩, hfinishes⟩, hinner⟩, hpayload⟩
    refine ⟨hfinish, fun n hn hkind => ?_, fun n hn hkind => ?_, hpayload⟩
    · by_cases hstart : n.kind = .start
      · exact hstarts n hn hstart
      · exact (hinner n hn hstart hkind).2
    · by_cases hend : n.kind = .finish
      · exact hfinishes n hn hend
      · exact (hinner n hn hkind hend).1
  · rintro ⟨hfinish, hout, hin, hpayload⟩
    refine ⟨⟨⟨⟨hfinish, fun n hn hstart => hout n hn ?_⟩, fun n hn hend => hin n hn ?_⟩,
      fun n hn hstart hend => ⟨hin n hn hstart, hout n hn hend⟩⟩, hpayload⟩
    · rw [hstart]; decide
    · rw [hend]; decide

namespace Graph

/-- A workflow can run when it has a start node and nothing in it reaches a closed walk. -/
theorem report_valid_iff {g : Graph} :
    g.report.valid = true
      ↔ (∃ n ∈ g.nodes, n.kind = .start) ∧ findCycle (g.nodes.map (·.id)) g.edges = none := by
  unfold report checkWorkflow
  split
  · rename_i hempty
    refine iff_of_false Bool.false_ne_true ?_
    rintro ⟨⟨n, hn, -⟩, -⟩
    rw [hempty] at hn
    cases hn
  · rw [Report.valid, List.isEmpty_iff, findDefects, List.append_eq_nil_iff]
    refine and_congr ?_ ?_
    · simp only [ite_eq_right_iff, List.cons_ne_nil, imp_false, nodesOf_eq_nil_iff, not_not]
    · cases findCycle (g.nodes.map (·.id)) g.edges <;> simp

/-- A workflow with a start node can run if its edges all lead upwards. -/
theorem report_valid_of_rank {g : Graph} (rank : String → Nat)
    (hstart : ∃ n ∈ g.nodes, n.kind = .start)
    (hsources : ∀ e ∈ g.edges, e.source ∈ g.nodes.map (·.id))
    (hrank : ∀ e ∈ g.edges, rank e.source < rank e.target) : g.report.valid = true := by
  have hacyclic : Acyclic g.edges := acyclic_of_rank rank hrank
  exact report_valid_iff.mpr ⟨hstart, (findCycle_eq_none_iff_acyclic hsources).mpr hacyclic⟩

/-- The identity lies on a way from a start node to an end node. -/
def OnWay (g : Graph) (id : String) : Prop :=
  (∃ s ∈ g.nodes, s.kind = .start ∧ Reaches g.edges s.id id)
    ∧ ∃ f ∈ g.nodes, f.kind = .finish ∧ Reaches g.edges id f.id

section

variable {g : Graph}

/-- Where each node but end nodes is left and each node but start nodes is entered, every
node lies on a way from a start node to an end node. -/
theorem onWay_of_acyclic
    (hjoined : ∀ e ∈ g.edges, e.source ∈ g.nodes.map (·.id) ∧ e.target ∈ g.nodes.map (·.id))
    (hacyclic : Acyclic g.edges)
    (hleft : ∀ n ∈ g.nodes, n.kind ≠ .finish → ∃ b, Leads g.edges n.id b)
    (hentered : ∀ n ∈ g.nodes, n.kind ≠ .start → ∃ a, Leads g.edges a n.id) {n : Node}
    (hn : n ∈ g.nodes) : g.OnWay n.id := by
  have hid : n.id ∈ g.nodes.map (·.id) := List.mem_map_of_mem hn
  obtain ⟨_, hfirst, hfrom, hfirstmost⟩ := hacyclic.exists_first (fun e he => (hjoined e he).1) hid
  obtain ⟨_, hlast, hto, hlastmost⟩ := hacyclic.exists_last (fun e he => (hjoined e he).2) hid
  obtain ⟨s, hs, rfl⟩ := List.mem_map.mp hfirst
  obtain ⟨f, hf, rfl⟩ := List.mem_map.mp hlast
  refine ⟨⟨s, hs, ?_, hfrom⟩, f, hf, ?_, hto⟩
  · refine Classical.byContradiction fun hkind => ?_
    obtain ⟨a, ha⟩ := hentered s hs hkind
    exact hfirstmost a ha
  · refine Classical.byContradiction fun hkind => ?_
    obtain ⟨b, hb⟩ := hleft f hf hkind
    exact hlastmost b hb

variable (hdistinct : (g.nodes.map (·.id)).Nodup)
include hdistinct

theorem id_ne_of_kind_ne {m n : Node} (hm : m ∈ g.nodes) (hn : n ∈ g.nodes)
    (hkind : m.kind ≠ n.kind) : m.id ≠ n.id :=
  fun hid => hkind (congrArg Node.kind (List.inj_on_of_nodup_map hdistinct hm hn hid))

theorem leads_of_onWay {n : Node} (hn : n ∈ g.nodes) (hkind : n.kind ≠ .finish)
    (hway : g.OnWay n.id) : ∃ b, Leads g.edges n.id b := by
  obtain ⟨-, f, hf, hfinish, hto⟩ := hway
  rcases Relation.ReflTransGen.cases_head hto with hsame | ⟨b, hb, -⟩
  · have hother : n.kind ≠ f.kind := fun h => hkind (h.trans hfinish)
    exact absurd hsame (id_ne_of_kind_ne hdistinct hn hf hother)
  · exact ⟨b, hb⟩

theorem leads_to_of_onWay {n : Node} (hn : n ∈ g.nodes) (hkind : n.kind ≠ .start)
    (hway : g.OnWay n.id) : ∃ a, Leads g.edges a n.id := by
  obtain ⟨⟨s, hs, hstart, hfrom⟩, -⟩ := hway
  rcases Relation.ReflTransGen.cases_tail hfrom with hsame | ⟨a, -, ha⟩
  · have hother : n.kind ≠ s.kind := fun h => hkind (h.trans hstart)
    exact absurd hsame (id_ne_of_kind_ne hdistinct hn hs hother)
  · exact ⟨a, ha⟩

/-- **A clean report means that nothing is dead or out of reach.** Where identities are
distinct, edges join nodes and start nodes begin with records, the check finds neither a
defect nor anything to warn of exactly when there are nodes, no walk is closed, and every
node lies on a way from a start node to an end node. -/
theorem report_clean_iff
    (hjoined : ∀ e ∈ g.edges, e.source ∈ g.nodes.map (·.id) ∧ e.target ∈ g.nodes.map (·.id))
    (hpayload : ∀ n ∈ g.nodes, n.kind = .start → hasPayload n = true) :
    g.report.valid = true ∧ g.report.warnings = []
      ↔ g.nodes ≠ [] ∧ Acyclic g.edges ∧ ∀ n ∈ g.nodes, g.OnWay n.id := by
  have hwarnings : g.nodes ≠ [] → g.report.warnings = findWarnings g.nodes g.edges := by
    intro hsome
    rw [report, checkWorkflow, if_neg hsome]
  rw [report_valid_iff, findCycle_eq_none_iff_acyclic fun e he => (hjoined e he).1]
  constructor
  · rintro ⟨⟨⟨s, hs, -⟩, hacyclic⟩, hclean⟩
    have hsome : g.nodes ≠ [] := List.ne_nil_of_mem hs
    rw [hwarnings hsome, findWarnings_eq_nil_iff] at hclean
    obtain ⟨-, hleft, hentered, -⟩ := hclean
    exact ⟨hsome, hacyclic, fun n => onWay_of_acyclic hjoined hacyclic hleft hentered⟩
  · rintro ⟨hsome, hacyclic, hways⟩
    obtain ⟨n, hn⟩ := List.exists_mem_of_ne_nil _ hsome
    obtain ⟨⟨s, hs, hstart, -⟩, f, hf, hfinish, -⟩ := hways n hn
    refine ⟨⟨⟨s, hs, hstart⟩, hacyclic⟩, ?_⟩
    rw [hwarnings hsome, findWarnings_eq_nil_iff]
    exact ⟨⟨f, hf, hfinish⟩, fun m hm hkind => leads_of_onWay hdistinct hm hkind (hways m hm),
      fun m hm hkind => leads_to_of_onWay hdistinct hm hkind (hways m hm), hpayload⟩

end

/-- Where two branches join, every node lies on a way from start to end; a second end node
that no edge enters does not. -/
theorem report_clean_iff_where_branches_join :
    let node (id : String) (kind : NodeKind) : Node :=
      ⟨id, kind, .origin, id, some (Config.initial kind)⟩
    let edge (a b : String) : Edge := ⟨Edge.idBetween a b, a, b, .null, .null, .null, true⟩
    let g : Graph :=
      ⟨[node "first" .start, node "left" .transform, node "right" .condition, node "last" .finish],
        [edge "first" "left", edge "first" "right", edge "left" "last", edge "right" "last"]⟩
    let g' := g.addNode (node "aside" .finish)
    (∀ n ∈ g.nodes, g.OnWay n.id) ∧ ¬ ∀ n ∈ g'.nodes, g'.OnWay n.id := by
  intro node edge g g'
  have hacyclic : Acyclic g.edges :=
    acyclic_of_rank (["first", "left", "right", "last"].idxOf ·) (by decide)
  have hvalid : g.report.valid = true :=
    report_valid_iff.mpr ⟨by decide, (findCycle_eq_none_iff_acyclic (by decide)).mpr hacyclic⟩
  have hclean : g.report.warnings = [] := by decide
  refine ⟨((report_clean_iff (by decide) (by decide) (by decide)).mp ⟨hvalid, hclean⟩).2.2, ?_⟩
  intro hways
  have hwarned : g'.report.warnings = [] :=
    ((report_clean_iff (g := g') (by decide) (by decide) (by decide)).mpr
      ⟨by decide, hacyclic, hways⟩).2
  exact absurd hwarned (by decide)

end Graph
end Workflow

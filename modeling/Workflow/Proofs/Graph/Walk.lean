import Mathlib.Logic.Relation
import Workflow.Graph.Search

/-!
# Walks along edges

The Prop layer under the two searches of a graph. One edge (`Leads`), zero or more edges
(`Reaches`) and a nonempty closed walk (`OnCycle`) are relations on identities alone: whether
an identity belongs to a node plays no part.

`searchFrom_eq_true_iff` says what the search for a path decides: with a visited set that is
left only through the stack, it meets its goal exactly when something on the stack reaches
it. `Acyclic.append` is the reason to search at all: an edge closes no cycle when its target
does not reach its source.
-/

namespace Workflow

/-- Some edge leads from the first node to the second. -/
def Leads (edges : List Edge) (a b : String) : Prop :=
  ∃ e ∈ edges, e.source = a ∧ e.target = b

/-- Zero or more edges lead from the first node to the second. -/
abbrev Reaches (edges : List Edge) : String → String → Prop :=
  Relation.ReflTransGen (Leads edges)

/-- A nonempty closed walk passes through the node. -/
abbrev OnCycle (edges : List Edge) (id : String) : Prop :=
  Relation.TransGen (Leads edges) id id

/-- No node lies on a closed walk. -/
def Acyclic (edges : List Edge) : Prop := ∀ id, ¬ OnCycle edges id

/-! ## One edge -/

theorem mem_successors {edges : List Edge} {a b : String} :
    b ∈ successors edges a ↔ Leads edges a b := by
  simp only [successors, List.mem_map, List.mem_filter, decide_eq_true_eq, Leads]
  constructor
  · rintro ⟨e, ⟨he, ha⟩, hb⟩
    exact ⟨e, he, ha, hb⟩
  · rintro ⟨e, he, ha, hb⟩
    exact ⟨e, ⟨he, ha⟩, hb⟩

theorem Leads.mono {edges edges' : List Edge} (h : ∀ e ∈ edges, e ∈ edges') {a b : String} :
    Leads edges a b → Leads edges' a b := by
  rintro ⟨e, he, ha, hb⟩
  exact ⟨e, h e he, ha, hb⟩

theorem leads_append {edges : List Edge} {e : Edge} {a b : String} :
    Leads (edges ++ [e]) a b ↔ Leads edges a b ∨ (e.source = a ∧ e.target = b) := by
  simp only [Leads, List.mem_append, List.mem_singleton]
  constructor
  · rintro ⟨f, hf | rfl, hends⟩
    · exact Or.inl ⟨f, hf, hends⟩
    · exact Or.inr hends
  · rintro (⟨f, hf, hends⟩ | hends)
    · exact ⟨f, Or.inl hf, hends⟩
    · exact ⟨e, Or.inr rfl, hends⟩

/-! ## Acyclic edges -/

theorem reaches_nil {a b : String} : Reaches [] a b ↔ a = b := by
  refine ⟨fun h => ?_, fun h => h ▸ .refl⟩
  rcases Relation.ReflTransGen.cases_head h with hsame | ⟨_, ⟨e, he, -⟩, -⟩
  · exact hsame
  · exact absurd he List.not_mem_nil

theorem acyclic_nil : Acyclic [] := by
  intro id hcycle
  obtain ⟨_, ⟨e, he, -⟩, -⟩ := Relation.TransGen.head'_iff.mp hcycle
  exact List.not_mem_nil he

theorem Acyclic.mono {edges edges' : List Edge} (h : ∀ e ∈ edges, e ∈ edges')
    (hacyclic : Acyclic edges') : Acyclic edges := by
  intro id hcycle
  exact hacyclic id (Relation.TransGen.mono (fun _ _ => Leads.mono h) _ _ hcycle)

/-- A walk that may use one edge more either does without it, or leads to its source and goes
on from its target. The new edge is used at most once, for a second use would join its target
to its source. -/
theorem transGen_leads_append {edges : List Edge} {e : Edge}
    (hback : ¬ Reaches edges e.target e.source) {a b : String}
    (h : Relation.TransGen (Leads (edges ++ [e])) a b) :
    Relation.TransGen (Leads edges) a b
      ∨ (Reaches edges a e.source ∧ Reaches edges e.target b) := by
  induction h with
  | single hab =>
      rcases leads_append.mp hab with hab | ⟨rfl, rfl⟩
      · exact Or.inl (.single hab)
      · exact Or.inr ⟨.refl, .refl⟩
  | tail _ hbc ih =>
      rcases leads_append.mp hbc with hbc | ⟨rfl, rfl⟩
      · rcases ih with ih | ⟨hsource, htarget⟩
        · exact Or.inl (ih.tail hbc)
        · exact Or.inr ⟨hsource, htarget.tail hbc⟩
      · rcases ih with ih | ⟨-, htarget⟩
        · exact Or.inr ⟨ih.to_reflTransGen, .refl⟩
        · exact absurd htarget hback

/-- An edge whose target does not reach its source closes no cycle. -/
theorem Acyclic.append {edges : List Edge} {e : Edge} (hacyclic : Acyclic edges)
    (hback : ¬ Reaches edges e.target e.source) : Acyclic (edges ++ [e]) := by
  intro id hcycle
  rcases transGen_leads_append hback hcycle with hold | ⟨hsource, htarget⟩
  · exact hacyclic id hold
  · exact hback (htarget.trans hsource)

theorem acyclic_of_rank {edges : List Edge} (rank : String → Nat)
    (h : ∀ e ∈ edges, rank e.source < rank e.target) : Acyclic edges := by
  have hup : ∀ {a b}, Relation.TransGen (Leads edges) a b → rank a < rank b := by
    intro a b hwalk
    induction hwalk with
    | single hab =>
        obtain ⟨e, he, rfl, rfl⟩ := hab
        exact h e he
    | tail _ hbc ih =>
        obtain ⟨e, he, rfl, rfl⟩ := hbc
        exact Nat.lt_trans ih (h e he)
  exact fun id hcycle => Nat.lt_irrefl _ (hup hcycle)

/-! ## Closed sets -/

theorem reaches_closed {edges : List Edge} {P : String → Prop}
    (hclosed : ∀ a, P a → ∀ b, Leads edges a b → P b) {a b : String} (ha : P a)
    (h : Reaches edges a b) : P b := by
  induction h with
  | refl => exact ha
  | tail _ hbc ih => exact hclosed _ ih _ hbc

/-- Edges leave the visited nodes only to the stack. -/
def ClosedUpTo (edges : List Edge) (visited stack : List String) : Prop :=
  ∀ a ∈ visited, ∀ b, Leads edges a b → b ∈ visited ∨ b ∈ stack

theorem ClosedUpTo.exists_stack {edges : List Edge} {visited stack : List String}
    (hclosed : ClosedUpTo edges visited stack) {a goal : String} (ha : a ∈ visited)
    (hgoal : goal ∉ visited) (h : Reaches edges a goal) :
    ∃ s ∈ stack, Reaches edges s goal := by
  induction h using Relation.ReflTransGen.head_induction_on with
  | refl => exact absurd ha hgoal
  | head hab hrest ih =>
      rcases hclosed _ ha _ hab with hb | hb
      · exact ih hb
      · exact ⟨_, hb, hrest⟩

theorem ClosedUpTo.skip {edges : List Edge} {visited stack : List String} {id : String}
    (hclosed : ClosedUpTo edges visited (id :: stack)) (hseen : id ∈ visited) :
    ClosedUpTo edges visited stack := by
  intro a ha b hab
  rcases hclosed a ha b hab with hb | hb
  · exact Or.inl hb
  · rcases List.mem_cons.mp hb with rfl | hb
    · exact Or.inl hseen
    · exact Or.inr hb

theorem ClosedUpTo.push {edges : List Edge} {visited stack : List String} {id : String}
    (hclosed : ClosedUpTo edges visited (id :: stack)) :
    ClosedUpTo edges (id :: visited)
      (((successors edges id).filter (· ∉ id :: visited)).reverse ++ stack) := by
  intro a ha b hab
  by_cases hb : b ∈ id :: visited
  · exact Or.inl hb
  · refine Or.inr (List.mem_append.mpr ?_)
    rcases List.mem_cons.mp ha with rfl | ha
    · exact Or.inl (List.mem_reverse.mpr
        (List.mem_filter.mpr ⟨mem_successors.mpr hab, decide_eq_true hb⟩))
    · rcases hclosed a ha b hab with hv | hs
      · exact absurd (List.mem_cons_of_mem _ hv) hb
      · rcases List.mem_cons.mp hs with rfl | hs
        · exact absurd List.mem_cons_self hb
        · exact Or.inr hs

/-! ## The search for a path -/

/-- What the search decides when it has passed its goal nowhere and is closed up to the
stack. -/
theorem searchFrom_eq_true_iff {edges : List Edge} {goal : String}
    {visited stack : List String} (hclosed : ClosedUpTo edges visited stack)
    (hgoal : goal ∉ visited) :
    searchFrom edges goal visited stack = true ↔ ∃ s ∈ stack, Reaches edges s goal := by
  fun_induction searchFrom edges goal visited stack with
  | case1 visited => simp
  | case2 visited stack =>
      simp only [List.mem_cons, exists_eq_or_imp, true_iff]
      exact Or.inl .refl
  | case3 visited id stack hid hseen ih =>
      -- A node seen before adds nothing: what it reaches, the rest of the stack reaches.
      have hskip := hclosed.skip hseen
      rw [ih hskip hgoal]
      constructor
      · rintro ⟨s, hs, hreach⟩
        exact ⟨s, List.mem_cons_of_mem _ hs, hreach⟩
      · rintro ⟨s, hs, hreach⟩
        rcases List.mem_cons.mp hs with rfl | hs
        · exact hskip.exists_stack hseen hgoal hreach
        · exact ⟨s, hs, hreach⟩
  | case4 visited id stack hid hfresh next ih =>
      have hpush : ClosedUpTo edges (id :: visited) (next.reverse ++ stack) := hclosed.push
      have hgoal' : goal ∉ id :: visited := by
        intro hmem
        rcases List.mem_cons.mp hmem with heq | hmem
        · exact hid heq.symm
        · exact hgoal hmem
      rw [ih hpush hgoal']
      constructor
      · rintro ⟨s, hs, hreach⟩
        rcases List.mem_append.mp hs with hs | hs
        · have hstep := mem_successors.mp (List.mem_filter.mp (List.mem_reverse.mp hs)).1
          exact ⟨id, List.mem_cons_self, hreach.head hstep⟩
        · exact ⟨s, List.mem_cons_of_mem _ hs, hreach⟩
      · rintro ⟨s, hs, hreach⟩
        rcases List.mem_cons.mp hs with rfl | hs
        · exact hpush.exists_stack List.mem_cons_self hgoal' hreach
        · exact ⟨s, List.mem_append_right _ hs, hreach⟩

/-- The search that begins at one node meets its goal exactly when the node reaches it. -/
theorem searchFrom_singleton {edges : List Edge} {goal start : String} :
    searchFrom edges goal [] [start] = true ↔ Reaches edges start goal := by
  rw [searchFrom_eq_true_iff (fun _ ha => absurd ha List.not_mem_nil) List.not_mem_nil]
  simp only [List.mem_singleton, exists_eq_left]

end Workflow

import Workflow.Proofs.Graph.Cycle

/-!
# Every turn of the search for a cycle

The search below a root is a loop. Each turn of it looks at the frame on top of the stack,
and either changes what is known and the stack (`Turns`) or answers (`Answers`). The search
is the sequence of its turns, and its answer is that of the last one (`search_eq_iff`).

A turn keeps what the search knows (`Turns.searching`), and so it holds at the beginning of
every turn: not only under the first root but under each root whose turn comes, since the
searches before it, which closed no cycle, left nothing active (`Begins.searching`). What
this means for the tables of the search is `Standing.Coherent`.

The headline is `coherent_at_every_turn`.
-/

namespace Workflow
namespace Cycle

open Relation (ReflTransGen)

/-- Where a search stands when a turn of its loop begins. -/
structure Standing where
  known : Knowledge
  stack : List Frame

/-- Where the search below a root stands when its first turn begins. -/
def Standing.first (edges : List Edge) (k : Knowledge) (root : String) : Standing :=
  ⟨k.enterRoot root, [(root, successors edges root)]⟩

/-! ## Turns of the loop -/

/-- A turn that does not answer: it leaves a node all of whose successors were tried, passes
over a successor that the search is done with, or enters a successor that is new. -/
inductive Turns (edges : List Edge) : Standing → Standing → Prop
  | leave {k : Knowledge} {id : String} {stack : List Frame} :
      Turns edges ⟨k, (id, []) :: stack⟩ ⟨k.leave id, stack⟩
  | passOver {k : Knowledge} {id next : String} {rest : List String} {stack : List Frame}
      (hactive : next ∉ k.active) (hvisited : next ∈ k.visited) :
      Turns edges ⟨k, (id, next :: rest) :: stack⟩ ⟨k, (id, rest) :: stack⟩
  | enter {k : Knowledge} {id next : String} {rest : List String} {stack : List Frame}
      (hactive : next ∉ k.active) (hfresh : next ∉ k.visited) :
      Turns edges ⟨k, (id, next :: rest) :: stack⟩
        ⟨k.enter id next, (next, successors edges next) :: (id, rest) :: stack⟩

/-- A turn that answers: there is nothing left on the stack, or a successor is active. -/
inductive Answers : Standing → Option String × Knowledge → Prop
  | spent {k : Knowledge} : Answers ⟨k, []⟩ (none, k)
  | closed {k : Knowledge} {id next : String} {rest : List String} {stack : List Frame}
      (hactive : next ∈ k.active) :
      Answers ⟨k, (id, next :: rest) :: stack⟩
        (some next, { k with parents := (next, id) :: k.parents })

section

variable {edges : List Edge} {s s' : Standing} {k : Knowledge} {stack : List Frame}
  {r : Option String × Knowledge}

theorem Turns.search_eq (h : Turns edges s s') :
    search edges s.known s.stack = search edges s'.known s'.stack := by
  cases h with
  | leave => rw [search]
  | passOver hactive hvisited => rw [search, if_neg hactive, if_pos hvisited]
  | enter hactive hfresh => rw [search, if_neg hactive, if_neg hfresh]

theorem Answers.search_eq (h : Answers s r) : search edges s.known s.stack = r := by
  cases h with
  | spent => rw [search]
  | closed hactive => rw [search, if_pos hactive]

theorem exists_answers (edges : List Edge) (k : Knowledge) (stack : List Frame) :
    ∃ last, ReflTransGen (Turns edges) ⟨k, stack⟩ last ∧ Answers last (search edges k stack) := by
  fun_induction search edges k stack with
  | case1 k => exact ⟨_, .refl, .spent⟩
  | case2 k id stack ih =>
      obtain ⟨last, hturns, hanswers⟩ := ih
      exact ⟨last, hturns.head .leave, hanswers⟩
  | case3 k id next rest stack hactive => exact ⟨_, .refl, .closed hactive⟩
  | case4 k id next rest stack hactive hvisited ih =>
      obtain ⟨last, hturns, hanswers⟩ := ih
      exact ⟨last, hturns.head (.passOver hactive hvisited), hanswers⟩
  | case5 k id next rest stack hactive hfresh ih =>
      obtain ⟨last, hturns, hanswers⟩ := ih
      exact ⟨last, hturns.head (.enter hactive hfresh), hanswers⟩

theorem search_eq_of_turns (h : ReflTransGen (Turns edges) s s') :
    search edges s.known s.stack = search edges s'.known s'.stack := by
  induction h with
  | refl => rfl
  | tail _ hturn ih => exact ih.trans hturn.search_eq

/-- **The search is the sequence of its turns.** -/
theorem search_eq_iff : search edges k stack = r
    ↔ ∃ last, ReflTransGen (Turns edges) ⟨k, stack⟩ last ∧ Answers last r := by
  constructor
  · rintro rfl
    exact exists_answers edges k stack
  · rintro ⟨last, hturns, hanswers⟩
    exact (search_eq_of_turns hturns).trans hanswers.search_eq

/-! ## What every turn keeps -/

theorem Turns.searching (h : Turns edges s s') (hs : Searching edges s.known s.stack) :
    Searching edges s'.known s'.stack := by
  cases h with
  | leave => exact hs.leave
  | passOver hactive hvisited => exact hs.skip ⟨hvisited, hactive⟩
  | enter hactive hfresh => exact hs.enter hfresh

theorem searching_of_turns (h : ReflTransGen (Turns edges) s s')
    (hs : Searching edges s.known s.stack) : Searching edges s'.known s'.stack := by
  induction h with
  | refl => exact hs
  | tail _ hturn ih => exact hturn.searching ih

/-- What the tables of a search say when a turn begins: the nodes on the stack are the active
ones, each of them but the last was entered along an edge from the one below it, and is
recorded so, and what was visited and is no longer on the stack leads to visited nodes only
and lies on no cycle. -/
structure Standing.Coherent (edges : List Edge) (s : Standing) : Prop where
  active : ∀ id, id ∈ s.known.active ↔ id ∈ s.stack.map Prod.fst
  recorded : (s.stack.map Prod.fst).IsChain fun upper lower =>
    Leads edges lower upper ∧ s.known.parents.lookup upper = some lower
  closed : ∀ id ∈ s.known.visited, id ∉ s.stack.map Prod.fst →
    ∀ next, Leads edges id next → next ∈ s.known.visited
  acyclic : ∀ id ∈ s.known.visited, id ∉ s.stack.map Prod.fst → ¬ OnCycle edges id

theorem Searching.coherent (h : Searching edges s.known s.stack) : s.Coherent edges := by
  have hdone : ∀ id ∈ s.known.visited, id ∉ s.stack.map Prod.fst → s.known.Done id :=
    fun id hvisited hoff => ⟨hvisited, fun hactive => hoff ((h.active_iff id).mp hactive)⟩
  exact ⟨h.active_iff, h.descent.recorded,
    fun id hvisited hoff next hnext => (h.closed id (hdone id hvisited hoff) next hnext).1,
    fun id hvisited hoff => h.acyclic id (hdone id hvisited hoff)⟩

/-- With nothing left on the stack, nothing is active, and the search is done with all it
visited. -/
theorem Searching.finished (h : Searching edges k []) :
    k.active = [] ∧ (∀ id ∈ k.visited, ∀ next, Leads edges id next → next ∈ k.visited)
      ∧ ∀ id ∈ k.visited, ¬ OnCycle edges id := by
  have hcoherent : Standing.Coherent edges ⟨k, []⟩ := h.coherent
  refine ⟨?_, fun id hid => hcoherent.closed id hid List.not_mem_nil,
    fun id hid => hcoherent.acyclic id hid List.not_mem_nil⟩
  exact List.eq_nil_iff_forall_not_mem.mpr fun id hid =>
    List.not_mem_nil ((hcoherent.active id).mp hid)

end

/-! ## The roots -/

/-- When the turn of a root comes, the search begins below it: no cycle was closed below the
nodes before it, this is what is known from them, and the root was not visited. -/
def Begins (edges : List Edge) (ids : List String) (k : Knowledge) (root : String) : Prop :=
  ∃ before after, ids = before ++ root :: after ∧ visitAll edges .empty before = (none, k)
    ∧ root ∉ k.visited

section

variable {edges : List Edge} {ids : List String} {k : Knowledge} {root : String}

/-- The search below some nodes and then others is the second search with the knowledge of
the first, unless this closed a cycle. -/
theorem visitAll_append {before : List String} {k₀ : Knowledge} (after : List String)
    (h : visitAll edges k₀ before = (none, k)) :
    visitAll edges k₀ (before ++ after) = visitAll edges k after := by
  induction before generalizing k₀ with
  | nil =>
      obtain rfl := (Prod.mk.inj h).2
      rfl
  | cons id before ih =>
      rw [List.cons_append, visitAll]
      rw [visitAll] at h
      by_cases hid : id ∈ k₀.visited
      · rw [if_pos hid] at h ⊢
        exact ih h
      · rw [if_neg hid] at h ⊢
        generalize visit edges k₀ id = r at h ⊢
        obtain ⟨found, k₁⟩ := r
        cases found with
        | none => exact ih h
        | some start => cases h

/-- Where a search begins below a root, it is part of the search below all nodes. -/
theorem Begins.exists_visitAll_eq (h : Begins edges ids k root) :
    ∃ after, visitAll edges .empty ids = (visit edges k root).1.elim
      (visitAll edges (visit edges k root).2 after)
      fun start => (some start, (visit edges k root).2) := by
  obtain ⟨before, after, rfl, hbefore, hfresh⟩ := h
  refine ⟨after, ?_⟩
  rw [visitAll_append _ hbefore, visitAll, if_neg hfresh]
  generalize visit edges k root = r
  obtain ⟨found, k'⟩ := r
  cases found with
  | none => rfl
  | some start => rfl

/-- The nodes before a root leave no trace but what the search is done with. -/
theorem Begins.searching (h : Begins edges ids k root) :
    Searching edges (k.enterRoot root) [(root, successors edges root)] := by
  obtain ⟨before, after, rfl, hbefore, hfresh⟩ := h
  rcases visitAll_cases before (searching_empty edges) with
    ⟨k', hk', hsearching, -, -⟩ | ⟨start, k', hk', -⟩
  · obtain rfl := (Prod.mk.inj (hk'.symm.trans hbefore)).2
    exact hsearching.enterRoot hfresh
  · cases hk'.symm.trans hbefore

/-! ## The headline theorem -/

/-- **The tables of the search are coherent at every turn of its loop**, below whichever root
it begins and whatever was visited from the roots before. The turns are those that lead to
its answer, and each search that begins is made. If it answers that no cycle closes, nothing
is active any more, and the nodes that were visited are closed under edges and lie on no
cycle. -/
theorem coherent_at_every_turn (h : Begins edges ids k root) :
    (∀ s, ReflTransGen (Turns edges) (.first edges k root) s → s.Coherent edges)
      ∧ (∀ r, visit edges k root = r
        ↔ ∃ last, ReflTransGen (Turns edges) (.first edges k root) last ∧ Answers last r)
      ∧ (∃ after, visitAll edges .empty ids = (visit edges k root).1.elim
          (visitAll edges (visit edges k root).2 after)
          fun start => (some start, (visit edges k root).2))
      ∧ ∀ k', visit edges k root = (none, k') →
        k'.active = [] ∧ (∀ id ∈ k'.visited, ∀ next, Leads edges id next → next ∈ k'.visited)
          ∧ ∀ id ∈ k'.visited, ¬ OnCycle edges id := by
  have hfirst : Searching edges (Standing.first edges k root).known
      (Standing.first edges k root).stack := h.searching
  refine ⟨fun s hturns => (searching_of_turns hturns hfirst).coherent, fun r => search_eq_iff,
    h.exists_visitAll_eq, fun k' hnone => ?_⟩
  obtain ⟨last, hturns, hanswers⟩ := search_eq_iff.mp hnone
  have hlast := searching_of_turns hturns hfirst
  cases hanswers with
  | spent => exact hlast.finished

/-- The second root comes upon a node that the first is done with, and enters one more. -/
theorem coherent_below_the_second_root :
    let edge (a b : String) : Edge := ⟨Edge.idBetween a b, a, b, .null, .null, .null, true⟩
    let edges := [edge "a" "done", edge "b" "done", edge "b" "c"]
    let k : Knowledge := ⟨["done", "a"], [], [("done", "a")]⟩
    let k' : Knowledge := ⟨["c", "b", "done", "a"], ["c", "b"], [("c", "b"), ("done", "a")]⟩
    Begins edges ["a", "b"] k "b" ∧ Standing.Coherent edges ⟨k', [("c", []), ("b", [])]⟩
      ∧ visit edges k "b" = (none, { k' with active := [] }) ∧ ¬ OnCycle edges "done" := by
  intro edge edges k k'
  have hbegins : Begins edges ["a", "b"] k "b" := by
    refine ⟨["a"], [], rfl, ?_, by decide⟩
    simp [edges, edge, k, successors, visitAll, visit, search, Knowledge.empty, Knowledge.enterRoot,
      Knowledge.enter, Knowledge.leave]
  obtain ⟨hcoherent, hvisit, -, hclosed⟩ := coherent_at_every_turn hbegins
  have hfirst : Standing.first edges k "b" = ⟨k.enterRoot "b", [("b", ["done", "c"])]⟩ := by
    simp [Standing.first, edges, edge, successors]
  have hentered : ReflTransGen (Turns edges) (.first edges k "b") ⟨k', [("c", []), ("b", [])]⟩ := by
    rw [hfirst]
    exact .tail (.single (.passOver (by decide) (by decide))) (.enter (by decide) (by decide))
  have hanswer := (hvisit (none, { k' with active := [] })).mpr
    ⟨⟨{ k' with active := [] }, []⟩, (hentered.tail .leave).tail .leave, .spent⟩
  exact ⟨hbegins, hcoherent _ hentered, hanswer, (hclosed _ hanswer).2.2 "done" (by decide)⟩

end

end Cycle
end Workflow

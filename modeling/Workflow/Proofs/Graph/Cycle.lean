import Mathlib.Data.List.Chain
import Workflow.Graph.Cycle
import Workflow.Proofs.Graph.Walk

/-!
# The search for a cycle finds every cycle

The depth-first search of `findCycle` keeps three kinds of nodes apart: those not visited,
the active ones on the stack, and those it is done with. The invariant `Searching` says what
it knows of each: the stack is a walk downwards, each frame entered from the one below and
with every edge it tried leading to its child or to a node that is done, and no edge leaves
the nodes that are done, none of which lies on a cycle.

Nothing in the invariant mentions the root of the search. It holds of the empty stack between
two roots as it holds within one, which is why nodes that are done under one root cannot hide
a cycle from a later one.

`findCycle_isSome_iff` is the headline: a cycle is reported exactly when some node given
reaches a closed walk.
-/

namespace Workflow

namespace Cycle

/-! ## The invariant -/

/-- The search is done with the node: it was visited and has left the stack. -/
def Knowledge.Done (k : Knowledge) (id : String) : Prop := id ∈ k.visited ∧ id ∉ k.active

/-- What holds of a frame, given the node of the frame above it. -/
structure FrameOk (edges : List Edge) (k : Knowledge) (child : Option String) (id : String)
    (rest : List String) : Prop where
  entered : ∀ c, child = some c → Leads edges id c ∧ k.parents.lookup c = some id
  untried : ∀ next ∈ rest, Leads edges id next
  tried : ∀ next, Leads edges id next → next ∈ rest ∨ k.Done next ∨ child = some next

/-- What holds of the frames of a stack, given the node of the frame above them. -/
def Descent (edges : List Edge) (k : Knowledge) : Option String → List Frame → Prop
  | _, [] => True
  | child, (id, rest) :: stack => FrameOk edges k child id rest ∧ Descent edges k (some id) stack

/-- The invariant of the search with a stack of frames. -/
structure Searching (edges : List Edge) (k : Knowledge) (stack : List Frame) : Prop where
  active_iff : ∀ id, id ∈ k.active ↔ id ∈ stack.map Prod.fst
  nodup : (stack.map Prod.fst).Nodup
  visited : ∀ id ∈ k.active, id ∈ k.visited
  descent : Descent edges k none stack
  closed : ∀ a, k.Done a → ∀ b, Leads edges a b → k.Done b
  acyclic : ∀ a, k.Done a → ¬ OnCycle edges a

theorem searching_empty (edges : List Edge) : Searching edges .empty [] where
  active_iff _ := Iff.rfl
  nodup := List.nodup_nil
  visited _ h := absurd h List.not_mem_nil
  descent := trivial
  closed _ h := absurd h.1 List.not_mem_nil
  acyclic _ h := absurd h.1 List.not_mem_nil

/-! ## The stack is a walk -/

/-- More knowledge keeps a descent, as long as the record of who entered whom stays for the
nodes on it. -/
theorem Descent.mono {edges : List Edge} {k k' : Knowledge}
    (hdone : ∀ id, k.Done id → k'.Done id) :
    ∀ {child : Option String} {stack : List Frame},
      (∀ c, child = some c ∨ c ∈ stack.map Prod.fst → k'.parents.lookup c = k.parents.lookup c) →
      Descent edges k child stack → Descent edges k' child stack
  | _, [], _, _ => trivial
  | child, (id, rest) :: stack, hparents, ⟨hframe, hbelow⟩ => by
      refine ⟨⟨?_, hframe.untried, ?_⟩, hbelow.mono hdone ?_⟩
      · intro c hc
        rw [hparents c (Or.inl hc)]
        exact hframe.entered c hc
      · intro next hnext
        rcases hframe.tried next hnext with h | h | h
        · exact Or.inl h
        · exact Or.inr (Or.inl (hdone next h))
        · exact Or.inr (Or.inr h)
      · rintro c (hc | hc)
        · obtain rfl := Option.some.inj hc
          exact hparents id (Or.inr List.mem_cons_self)
        · exact hparents c (Or.inr (List.mem_cons_of_mem _ hc))

theorem Descent.recorded {edges : List Edge} {k : Knowledge} :
    ∀ {child : Option String} {stack : List Frame}, Descent edges k child stack →
      (stack.map Prod.fst).IsChain fun upper lower =>
        Leads edges lower upper ∧ k.parents.lookup upper = some lower
  | _, [], _ => .nil
  | _, [_], _ => .singleton _
  | _, (top, _) :: (_, _) :: _, ⟨_, hbelow⟩ =>
      List.isChain_cons_cons.mpr ⟨hbelow.1.entered top rfl, hbelow.recorded⟩

theorem Descent.reaches_top {edges : List Edge} {k : Knowledge} :
    ∀ {child : Option String} {top : String} {rest : List String} {stack : List Frame},
      Descent edges k child ((top, rest) :: stack) →
      ∀ id ∈ ((top, rest) :: stack).map Prod.fst, Reaches edges id top
  | _, top, rest, [], _, id, hid => by
      obtain rfl : id = top := by simpa using hid
      exact .refl
  | _, top, rest, (below, rest') :: stack, ⟨_, hbelow⟩, id, hid => by
      rcases List.mem_cons.mp hid with rfl | hid
      · exact .refl
      · have hup : Leads edges below top := (hbelow.1.entered top rfl).1
        exact (hbelow.reaches_top id hid).tail hup

/-! ## One step of the search

One lemma for each branch of `search`: a frame is left, an edge to a node that is done is
passed over, a new node is entered, or an edge to an active node closes a cycle. -/

theorem done_leave {k : Knowledge} {id a : String} (hid : id ∈ k.visited) :
    (k.leave id).Done a ↔ k.Done a ∨ a = id := by
  simp only [Knowledge.Done, Knowledge.leave, List.mem_filter, decide_eq_true_eq]
  by_cases h : a = id
  · subst h
    simp [hid]
  · simp [h]

theorem Searching.leave {edges : List Edge} {k : Knowledge} {id : String}
    {stack : List Frame} (h : Searching edges k ((id, []) :: stack)) :
    Searching edges (k.leave id) stack := by
  obtain ⟨hnotin, hnodup⟩ := List.nodup_cons.mp h.nodup
  have hactive : id ∈ k.active := (h.active_iff id).mpr List.mem_cons_self
  have hvisited := h.visited id hactive
  obtain ⟨hframe, hbelow⟩ := h.descent
  have hdone : ∀ a, k.Done a → (k.leave id).Done a :=
    fun a ha => (done_leave hvisited).mpr (Or.inl ha)
  have hself : (k.leave id).Done id := (done_leave hvisited).mpr (Or.inr rfl)
  -- All edges of the node were tried, and with no frame above it they lead to nodes done before.
  have hsuccessors : ∀ b, Leads edges id b → k.Done b := by
    intro b hb
    rcases hframe.tried b hb with h | h | h
    · exact absurd h List.not_mem_nil
    · exact h
    · cases h
  refine ⟨?_, hnodup, ?_, ?_, ?_, ?_⟩
  · intro a
    simp only [Knowledge.leave, List.mem_filter, decide_eq_true_eq, h.active_iff, List.map_cons,
      List.mem_cons]
    constructor
    · rintro ⟨rfl | ha, hne⟩
      · exact absurd rfl hne
      · exact ha
    · intro ha
      exact ⟨Or.inr ha, fun heq => hnotin (heq ▸ ha)⟩
  · intro a ha
    exact h.visited a (List.mem_filter.mp ha).1
  · cases stack with
    | nil => trivial
    | cons frame stack =>
        obtain ⟨below, rest⟩ := frame
        obtain ⟨hlower, hrest⟩ := hbelow
        refine ⟨⟨(fun _ hc => nomatch hc), hlower.untried, ?_⟩, hrest.mono hdone fun _ _ => rfl⟩
        intro next hnext
        rcases hlower.tried next hnext with h | h | h
        · exact Or.inl h
        · exact Or.inr (Or.inl (hdone next h))
        · exact Or.inr (Or.inl (Option.some.inj h ▸ hself))
  · intro a ha b hab
    rcases (done_leave hvisited).mp ha with ha | rfl
    · exact hdone b (h.closed a ha b hab)
    · exact hdone b (hsuccessors b hab)
  · intro a ha hcycle
    rcases (done_leave hvisited).mp ha with ha | rfl
    · exact h.acyclic a ha hcycle
    · -- A cycle through the node goes on among the nodes done before and cannot come back.
      obtain ⟨b, hab, hback⟩ := Relation.TransGen.head'_iff.mp hcycle
      exact (reaches_closed h.closed (hsuccessors b hab) hback).2 hactive

theorem Searching.skip {edges : List Edge} {k : Knowledge} {id next : String}
    {rest : List String} {stack : List Frame}
    (h : Searching edges k ((id, next :: rest) :: stack)) (hdone : k.Done next) :
    Searching edges k ((id, rest) :: stack) := by
  obtain ⟨hframe, hbelow⟩ := h.descent
  refine ⟨h.active_iff, h.nodup, h.visited, ⟨⟨hframe.entered, ?_, ?_⟩, hbelow⟩, h.closed,
    h.acyclic⟩
  · exact fun b hb => hframe.untried b (List.mem_cons_of_mem _ hb)
  · intro b hb
    rcases hframe.tried b hb with hmem | hmem | hmem
    · rcases List.mem_cons.mp hmem with rfl | hmem
      · exact Or.inr (Or.inl hdone)
      · exact Or.inl hmem
    · exact Or.inr (Or.inl hmem)
    · exact Or.inr (Or.inr hmem)

theorem done_enter {k : Knowledge} {parent next a : String} (hfresh : next ∉ k.visited) :
    (k.enter parent next).Done a ↔ k.Done a := by
  simp only [Knowledge.Done, Knowledge.enter, List.mem_cons, not_or]
  constructor
  · rintro ⟨ha | ha, hne, hactive⟩
    · exact absurd ha hne
    · exact ⟨ha, hactive⟩
  · rintro ⟨ha, hactive⟩
    exact ⟨Or.inr ha, fun heq => hfresh (heq ▸ ha), hactive⟩

theorem Searching.enter {edges : List Edge} {k : Knowledge} {id next : String}
    {rest : List String} {stack : List Frame}
    (h : Searching edges k ((id, next :: rest) :: stack)) (hfresh : next ∉ k.visited) :
    Searching edges (k.enter id next)
      ((next, successors edges next) :: (id, rest) :: stack) := by
  obtain ⟨hframe, hbelow⟩ := h.descent
  have hnotin : next ∉ ((id, rest) :: stack).map Prod.fst := fun hmem =>
    hfresh (h.visited next ((h.active_iff next).mpr hmem))
  have hrecord : ∀ c ∈ ((id, rest) :: stack).map Prod.fst,
      (k.enter id next).parents.lookup c = k.parents.lookup c := by
    intro c hc
    have hne : c ≠ next := fun heq => hnotin (heq ▸ hc)
    simp only [Knowledge.enter, List.lookup_cons, beq_false_of_ne hne]
  have hdone : ∀ a, k.Done a → (k.enter id next).Done a := fun a => (done_enter hfresh).mpr
  refine ⟨?_, List.nodup_cons.mpr ⟨hnotin, h.nodup⟩, ?_, ⟨⟨?_, ?_, ?_⟩, ⟨?_, ?_, ?_⟩, ?_⟩, ?_, ?_⟩
  · intro a
    simp only [Knowledge.enter, List.mem_cons, h.active_iff, List.map_cons]
  · intro a ha
    rcases List.mem_cons.mp ha with rfl | ha
    · exact List.mem_cons_self
    · exact List.mem_cons_of_mem _ (h.visited a ha)
  · intro c hc
    cases hc
  · exact fun b hb => mem_successors.mp hb
  · exact fun b hb => Or.inl (mem_successors.mpr hb)
  · intro c hc
    obtain rfl := Option.some.inj hc
    exact ⟨hframe.untried next List.mem_cons_self, by
      simp only [Knowledge.enter, List.lookup_cons, beq_self_eq_true]⟩
  · exact fun b hb => hframe.untried b (List.mem_cons_of_mem _ hb)
  · intro b hb
    rcases hframe.tried b hb with hmem | hmem | hmem
    · rcases List.mem_cons.mp hmem with rfl | hmem
      · exact Or.inr (Or.inr rfl)
      · exact Or.inl hmem
    · exact Or.inr (Or.inl (hdone b hmem))
    · cases hmem
  · refine hbelow.mono hdone fun c hc => hrecord c ?_
    rcases hc with hc | hc
    · obtain rfl := Option.some.inj hc
      exact List.mem_cons_self
    · exact List.mem_cons_of_mem _ hc
  · intro a ha b hab
    exact hdone b (h.closed a ((done_enter hfresh).mp ha) b hab)
  · exact fun a ha => h.acyclic a ((done_enter hfresh).mp ha)

theorem Searching.onCycle {edges : List Edge} {k : Knowledge} {id next : String}
    {rest : List String} {stack : List Frame}
    (h : Searching edges k ((id, next :: rest) :: stack)) (hactive : next ∈ k.active) :
    OnCycle edges next :=
  .tail' (h.descent.reaches_top next ((h.active_iff next).mp hactive))
    (h.descent.1.untried next List.mem_cons_self)

/-! ## A whole search -/

/-- The search of a stack either ends with everything on it done, or reports a node that lies
on a cycle and was reached from where the search began. -/
theorem search_cases {edges : List Edge} {root : String} {k : Knowledge} {stack : List Frame}
    (h : Searching edges k stack)
    (hroot : ∀ id ∈ stack.map Prod.fst, Reaches edges root id) :
    (∃ k', search edges k stack = (none, k') ∧ Searching edges k' []
      ∧ ∀ id ∈ k.visited, id ∈ k'.visited)
    ∨ ∃ start k', search edges k stack = (some start, k') ∧ OnCycle edges start
      ∧ Reaches edges root start := by
  fun_induction search edges k stack with
  | case1 k => exact Or.inl ⟨k, rfl, h, fun _ hid => hid⟩
  | case2 k id stack ih =>
      exact ih h.leave fun a ha => hroot a (List.mem_cons_of_mem _ ha)
  | case3 k id next rest stack hactive =>
      exact Or.inr ⟨next, _, rfl, h.onCycle hactive, hroot next ((h.active_iff next).mp hactive)⟩
  | case4 k id next rest stack hactive hvisited ih =>
      exact ih (h.skip ⟨hvisited, hactive⟩) hroot
  | case5 k id next rest stack hactive hfresh ih =>
      have hnext : Reaches edges root next :=
        (hroot id List.mem_cons_self).tail (h.descent.1.untried next List.mem_cons_self)
      have hroot' : ∀ a ∈ ((next, successors edges next) :: (id, rest) :: stack).map Prod.fst,
          Reaches edges root a := by
        intro a ha
        rcases List.mem_cons.mp ha with rfl | ha
        · exact hnext
        · exact hroot a ha
      rcases ih (h.enter hfresh) hroot' with ⟨k', hk', hdone, hmono⟩ | hfound
      · exact Or.inl ⟨k', hk', hdone, fun a ha => hmono a (List.mem_cons_of_mem _ ha)⟩
      · exact Or.inr hfound

/-- Between two roots the search may start anew from any node it has not visited. -/
theorem Searching.enterRoot {edges : List Edge} {k : Knowledge} {root : String}
    (h : Searching edges k []) (hfresh : root ∉ k.visited) :
    Searching edges (k.enterRoot root) [(root, successors edges root)] := by
  have hnone : ∀ id, id ∉ k.active := fun id hid => List.not_mem_nil ((h.active_iff id).mp hid)
  have hdone : ∀ a, (k.enterRoot root).Done a ↔ k.Done a := fun a =>
    @done_enter k root root a hfresh
  refine ⟨?_, List.pairwise_singleton _ root, ?_, ⟨⟨?_, ?_, ?_⟩, trivial⟩, ?_, ?_⟩
  · intro a
    simp only [Knowledge.enterRoot, List.mem_cons, hnone, or_false, List.map_cons, List.map_nil,
      List.not_mem_nil]
  · intro a ha
    rcases List.mem_cons.mp ha with rfl | ha
    · exact List.mem_cons_self
    · exact absurd ha (hnone a)
  · intro c hc
    cases hc
  · exact fun b hb => mem_successors.mp hb
  · exact fun b hb => Or.inl (mem_successors.mpr hb)
  · intro a ha b hab
    exact (hdone b).mpr (h.closed a ((hdone a).mp ha) b hab)
  · exact fun a ha => h.acyclic a ((hdone a).mp ha)

/-- Searching below all roots ends with every one of them done, or reports a node that lies
on a cycle and was reached from one of them. -/
theorem visitAll_cases {edges : List Edge} :
    ∀ (ids : List String) {k : Knowledge}, Searching edges k [] →
      (∃ k', visitAll edges k ids = (none, k') ∧ Searching edges k' []
        ∧ (∀ id ∈ k.visited, id ∈ k'.visited) ∧ ∀ id ∈ ids, id ∈ k'.visited)
      ∨ ∃ start k', visitAll edges k ids = (some start, k') ∧ OnCycle edges start
        ∧ ∃ id ∈ ids, Reaches edges id start
  | [], k, h => Or.inl ⟨k, rfl, h, fun _ hid => hid, fun _ hid => absurd hid List.not_mem_nil⟩
  | id :: ids, k, h => by
      by_cases hid : id ∈ k.visited
      · simp only [visitAll, if_pos hid]
        rcases visitAll_cases ids h with ⟨k', hk', hdone, hmono, hall⟩ | hfound
        · refine Or.inl ⟨k', hk', hdone, hmono, ?_⟩
          intro a ha
          rcases List.mem_cons.mp ha with rfl | ha
          · exact hmono a hid
          · exact hall a ha
        · obtain ⟨start, k', hk', hcycle, a, ha, hreach⟩ := hfound
          exact Or.inr ⟨start, k', hk', hcycle, a, List.mem_cons_of_mem _ ha, hreach⟩
      · have hroot : ∀ a ∈ [(id, successors edges id)].map Prod.fst, Reaches edges id a := by
          intro a ha
          obtain rfl := List.mem_singleton.mp ha
          exact .refl
        rcases search_cases (h.enterRoot hid) hroot with ⟨k₁, hk₁, hdone₁, hmono₁⟩ | hfound
        · have hvisit : visit edges k id = (none, k₁) := hk₁
          simp only [visitAll, if_neg hid, hvisit]
          rcases visitAll_cases ids hdone₁ with ⟨k', hk', hdone, hmono, hall⟩ | hfound
          · refine Or.inl ⟨k', hk', hdone, ?_, ?_⟩
            · exact fun a ha => hmono a (hmono₁ a (List.mem_cons_of_mem _ ha))
            · intro a ha
              rcases List.mem_cons.mp ha with rfl | ha
              · exact hmono a (hmono₁ a List.mem_cons_self)
              · exact hall a ha
          · obtain ⟨start, k', hk', hcycle, a, ha, hreach⟩ := hfound
            exact Or.inr ⟨start, k', hk', hcycle, a, List.mem_cons_of_mem _ ha, hreach⟩
        · obtain ⟨start, k', hk', hcycle, hreach⟩ := hfound
          have hvisit : visit edges k id = (some start, k') := hk'
          simp only [visitAll, if_neg hid, hvisit]
          exact Or.inr ⟨start, k', rfl, hcycle, id, List.mem_cons_self, hreach⟩

end Cycle

/-! ## The headline theorem -/

/-- The search reports nothing exactly when no closed walk can be reached from the roots. -/
theorem findCycle_eq_none_iff {ids : List String} {edges : List Edge} :
    findCycle ids edges = none ↔
      ∀ root ∈ ids, ∀ id, Reaches edges root id → ¬ OnCycle edges id := by
  rcases Cycle.visitAll_cases ids (Cycle.searching_empty edges) with
    ⟨k, hk, hsearched, -, hall⟩ | ⟨start, k, hk, hcycle, root, hroot, hreach⟩
  · have hnone : findCycle ids edges = none := by simp only [findCycle, hk]
    refine ⟨fun _ root hroot id hreach => ?_, fun _ => hnone⟩
    have hdone : k.Done root :=
      ⟨hall root hroot, fun h => List.not_mem_nil ((hsearched.active_iff _).mp h)⟩
    exact hsearched.acyclic id (reaches_closed hsearched.closed hdone hreach)
  · have hsome : findCycle ids edges = some (Cycle.pathOf k.parents start) := by
      simp only [findCycle, hk]
    rw [hsome]
    constructor
    · intro h
      cases h
    · intro h
      exact absurd hcycle (h root hroot start hreach)

/-- Where all edges begin at nodes given, nothing is reported exactly when no walk is
closed. -/
theorem findCycle_eq_none_iff_acyclic {ids : List String} {edges : List Edge}
    (hsources : ∀ e ∈ edges, e.source ∈ ids) :
    findCycle ids edges = none ↔ Acyclic edges := by
  rw [findCycle_eq_none_iff]
  constructor
  · intro h id hcycle
    obtain ⟨_, ⟨e, he, rfl, -⟩, -⟩ := Relation.TransGen.head'_iff.mp hcycle
    exact h e.source (hsources e he) e.source .refl hcycle
  · exact fun hacyclic _ _ id _ => hacyclic id

/-- **A cycle is found exactly when there is one to be reached.** For any nodes and edges,
whether or not the ends of the edges are nodes, the search reports a cycle if and only if
some node reaches, along zero or more edges, an identity on a nonempty closed walk. -/
theorem findCycle_isSome_iff (nodes : List Node) (edges : List Edge) :
    (findCycle (nodes.map (·.id)) edges).isSome = true
      ↔ ∃ n ∈ nodes, ∃ id, Reaches edges n.id id ∧ OnCycle edges id := by
  rw [← Option.ne_none_iff_isSome, Ne, findCycle_eq_none_iff]
  simp only [List.forall_mem_map]
  constructor
  · intro h
    refine Classical.byContradiction fun hnone => h ?_
    exact fun n hn id hreach hcycle => hnone ⟨n, hn, id, hreach, hcycle⟩
  · rintro ⟨n, hn, id, hreach, hcycle⟩ h
    exact h n hn id hreach hcycle

end Workflow

import Mathlib.Data.List.Chain
import Mathlib.Data.List.Nodup
import Mathlib.Data.List.Perm.Subperm
import Workflow.Proofs.Graph.Cycle

/-!
# The cycle that is reported

When a search meets an active node, it enters it once more, and the cycle is read off by
climbing from node to node along the record of who entered whom. The record also holds the
entries of branches that are done and of earlier roots, and the new entry hides the one by
which the start of the cycle was entered at first.

That the climb comes back to its start is due to the stack: below the top of it the record of
each node is the next frame (`Descent.climbs`), and the start is one of the frames. So what
is read off is a part of the stack, and inherits from it that it leads along edges and
repeats nothing.

The climb is described without a bound (`Climbs`). A climb that ends never comes to a node
twice, so the bound by the length of the record is never felt (`Climbs.pathOf_eq`).

`circuit_of_findCycle` is the headline.
-/

namespace Workflow

/-- A walk along edges, by the nodes on it, that comes back to where it began and passes no
node twice before. -/
structure Circuit (edges : List Edge) (path : List String) : Prop where
  long : 2 ≤ path.length
  closed : path.head? = path.getLast?
  along : path.IsChain (Leads edges)
  once : path.dropLast.Nodup

namespace Cycle

/-! ## Climbing -/

/-- The nodes passed on the climb from a node, until the start is met or nothing is recorded.
A climb that goes on for ever has no such list. -/
inductive Climbs (parents : Parents) (start : String) : Option String → List String → Prop
  | off : Climbs parents start none []
  | home : Climbs parents start (some start) []
  | up {id : String} {path : List String} (hne : id ≠ start)
      (h : Climbs parents start (parents.lookup id) path) :
      Climbs parents start (some id) (id :: path)

namespace Climbs

variable {parents : Parents} {start : String} {at? : Option String} {path path' : List String}

theorem unique (h : Climbs parents start at? path) (h' : Climbs parents start at? path') :
    path = path' := by
  induction h generalizing path' with
  | off =>
      cases h'
      rfl
  | home =>
      cases h' with
      | home => rfl
      | up hne => exact absurd rfl hne
  | @up id _ hne _ ih =>
      cases h' with
      | home => exact absurd rfl hne
      | up _ hrest => exact congrArg (id :: ·) (ih hrest)

/-- From every node that is passed the climb is no longer than it was. -/
theorem exists_of_mem (h : Climbs parents start at? path) {id : String} (hid : id ∈ path) :
    ∃ path', Climbs parents start (some id) path' ∧ path'.length ≤ path.length := by
  induction h with
  | off | home => cases hid
  | up hne hrest ih =>
      rcases List.mem_cons.mp hid with rfl | hid
      · exact ⟨_, .up hne hrest, Nat.le_refl _⟩
      · obtain ⟨path', hpath', hle⟩ := ih hid
        exact ⟨path', hpath', Nat.le_succ_of_le hle⟩

/-- A climb that ends does not come to a node twice, for it would go on from there as
before. -/
theorem nodup (h : Climbs parents start at? path) : path.Nodup := by
  induction h with
  | off | home => exact List.nodup_nil
  | @up id path hne hrest ih =>
      refine List.nodup_cons.mpr ⟨fun hid => ?_, ih⟩
      obtain ⟨path', hpath', hle⟩ := hrest.exists_of_mem hid
      obtain rfl := hpath'.unique (.up hne hrest)
      exact Nat.not_succ_le_self _ hle

theorem recorded (h : Climbs parents start at? path) :
    ∀ id ∈ path.dropLast, id ∈ parents.map Prod.fst := by
  induction h with
  | off | home => nofun
  | @up id path hne hrest ih =>
      intro other hother
      cases hparent : parents.lookup id with
      | none =>
          rw [hparent] at hrest
          cases hrest
          cases hother
      | some parent =>
          cases path with
          | nil => cases hother
          | cons next rest =>
              rcases List.mem_cons.mp hother with rfl | hother
              · have hsome : (parents.lookup other).isSome = true := by
                  rw [hparent, Option.isSome_some]
                obtain ⟨entry, hentry, hid⟩ := List.lookup_isSome_iff.mp hsome
                rw [eq_of_beq hid]
                exact List.mem_map_of_mem hentry
              · exact ih other hother

/-- A climb that ends passes at most one node more than the record has entries. -/
theorem length_le (h : Climbs parents start at? path) :
    path.length ≤ parents.length + 1 := by
  have hnodup : path.dropLast.Nodup := h.nodup.sublist (List.dropLast_sublist path)
  have hlength := (List.subperm_of_subset hnodup h.recorded).length_le
  rw [List.length_dropLast, List.length_map] at hlength
  omega

/-- With a bound that is long enough, the nodes chased are those of the climb. -/
theorem chase_eq {id : String} {fuel : Nat} (h : Climbs parents start (some id) path)
    (hfuel : path.length ≤ fuel) : chase parents start fuel id = path := by
  induction fuel generalizing id path with
  | zero =>
      cases h with
      | home => rfl
      | up hne hrest => cases hfuel
  | succ fuel ih =>
      cases h with
      | home => rw [chase, if_pos rfl]
      | up hne hrest =>
          rw [chase, if_neg hne]
          cases hparent : parents.lookup id with
          | none =>
              rw [hparent] at hrest
              cases hrest
              rfl
          | some parent =>
              rw [hparent] at hrest
              exact congrArg (id :: ·) (ih hrest (Nat.le_of_succ_le_succ hfuel))

/-- **The cycle that is read off** a record on which the climb from the start ends. -/
theorem pathOf_eq (h : Climbs parents start (parents.lookup start) path) :
    pathOf parents start = start :: path.reverse ++ [start] := by
  unfold pathOf
  cases hparent : parents.lookup start with
  | none =>
      rw [hparent] at h
      cases h
      rfl
  | some parent =>
      rw [hparent] at h
      show (start :: chase parents start (parents.length + 1) parent ++ [start]).reverse = _
      rw [h.chase_eq h.length_le, List.reverse_concat, List.reverse_cons]
      rfl

end Climbs

/-! ## The stack below an active node -/

theorem Descent.along {edges : List Edge} {k : Knowledge} {child : Option String}
    {stack : List Frame} (h : Descent edges k child stack) :
    (stack.map Prod.fst).IsChain fun a b => Leads edges b a :=
  h.recorded.imp fun _ _ h => h.1

/-- When an active node is entered once more, the record leads from the top of the stack down
to it, frame by frame. -/
theorem Descent.climbs {edges : List Edge} {k : Knowledge} {start : String} (closer : String) :
    ∀ {child : Option String} {top : String} {rest : List String} {stack : List Frame},
      Descent edges k child ((top, rest) :: stack) →
      start ∈ ((top, rest) :: stack).map Prod.fst →
      Climbs ((start, closer) :: k.parents) start (some top)
        ((((top, rest) :: stack).map Prod.fst).takeWhile (· ≠ start))
  | _, top, rest, stack, ⟨_, hbelow⟩, hstart => by
      by_cases htop : top = start
      · subst htop
        rw [List.map_cons, List.takeWhile_cons_of_neg (by simp)]
        exact .home
      · have hlower : start ∈ stack.map Prod.fst :=
          (List.mem_cons.mp hstart).resolve_left fun h => htop h.symm
        rw [List.map_cons, List.takeWhile_cons_of_pos (by simpa using htop)]
        refine .up htop ?_
        rw [List.lookup_cons, beq_false_of_ne htop]
        cases stack with
        | nil => cases hlower
        | cons frame stack =>
            obtain ⟨below, rest'⟩ := frame
            rw [(hbelow.1.entered top rfl).2]
            exact hbelow.climbs closer hlower

theorem begins_takeWhile_ne {a : String} : ∀ {ids : List String}, a ∈ ids →
    ids.takeWhile (· ≠ a) ++ [a] <+: ids
  | id :: ids, h => by
      by_cases hid : id = a
      · subst hid
        rw [List.takeWhile_cons_of_neg (by simp)]
        exact ⟨ids, rfl⟩
      · have htail : a ∈ ids := (List.mem_cons.mp h).resolve_left fun h => hid h.symm
        rw [List.takeWhile_cons_of_pos (by simpa using hid), List.cons_append]
        exact (List.prefix_cons_inj id).mpr (begins_takeWhile_ne htail)

/-! ## Where a search reports -/

/-- A search that began at the root stands at an edge to an active node, and enters this node
once more. -/
def Closes (edges : List Edge) (root start : String) (k : Knowledge) : Prop :=
  ∃ k' closer rest below, Searching edges k' ((closer, start :: rest) :: below)
    ∧ start ∈ k'.active ∧ k = { k' with parents := (start, closer) :: k'.parents }
    ∧ ∀ id ∈ ((closer, start :: rest) :: below).map Prod.fst, Reaches edges root id

theorem search_closes {edges : List Edge} {root start : String} {k k' : Knowledge}
    {stack : List Frame} (h : Searching edges k stack)
    (hroot : ∀ id ∈ stack.map Prod.fst, Reaches edges root id)
    (hfound : search edges k stack = (some start, k')) : Closes edges root start k' := by
  fun_induction search edges k stack with
  | case1 k => cases hfound
  | case2 k id stack ih =>
      exact ih h.leave (fun a ha => hroot a (List.mem_cons_of_mem _ ha)) hfound
  | case3 k id next rest stack hactive =>
      obtain ⟨rfl, rfl⟩ := Prod.mk.inj hfound |>.imp_left Option.some.inj
      exact ⟨k, id, rest, stack, h, hactive, rfl, hroot⟩
  | case4 k id next rest stack hactive hvisited ih =>
      exact ih (h.skip ⟨hvisited, hactive⟩) hroot hfound
  | case5 k id next rest stack hactive hfresh ih =>
      have hnext : Reaches edges root next :=
        (hroot id List.mem_cons_self).tail (h.descent.1.untried next List.mem_cons_self)
      refine ih (h.enter hfresh) (fun a ha => ?_) hfound
      rcases List.mem_cons.mp ha with rfl | ha
      · exact hnext
      · exact hroot a ha

theorem visitAll_closes {edges : List Edge} {start : String} {k' : Knowledge} :
    ∀ (ids : List String) {k : Knowledge}, Searching edges k [] →
      visitAll edges k ids = (some start, k') → ∃ root ∈ ids, Closes edges root start k'
  | [], _, _, hfound => nomatch hfound
  | id :: ids, k, h, hfound => by
      by_cases hid : id ∈ k.visited
      · rw [visitAll, if_pos hid] at hfound
        obtain ⟨root, hmem, hcloses⟩ := visitAll_closes ids h hfound
        exact ⟨root, List.mem_cons_of_mem _ hmem, hcloses⟩
      · have hroot : ∀ a ∈ [(id, successors edges id)].map Prod.fst, Reaches edges id a := by
          intro a ha
          obtain rfl := List.mem_singleton.mp ha
          exact .refl
        have hvisit :
            visit edges k id = search edges (k.enterRoot id) [(id, successors edges id)] := rfl
        rw [visitAll, if_neg hid] at hfound
        rcases search_cases (h.enterRoot hid) hroot with ⟨k₁, hk₁, hdone, -⟩ | ⟨found, k₁, hk₁, -⟩
        · rw [hvisit, hk₁] at hfound
          obtain ⟨root, hmem, hcloses⟩ := visitAll_closes ids hdone hfound
          exact ⟨root, List.mem_cons_of_mem _ hmem, hcloses⟩
        · rw [hvisit, hk₁] at hfound
          exact ⟨id, List.mem_cons_self, search_closes (h.enterRoot hid) hroot (hk₁.trans hfound)⟩

/-- **What is read off where a search reports.** The climb from the start ends, and what it
passed is a circuit of nodes that the root reaches. -/
theorem Closes.circuit {edges : List Edge} {root start : String} {k : Knowledge}
    (h : Closes edges root start k) :
    ∃ inner, Climbs k.parents start (k.parents.lookup start) inner
      ∧ Circuit edges (start :: inner.reverse ++ [start])
      ∧ ∀ id ∈ start :: inner.reverse ++ [start], Reaches edges root id := by
  obtain ⟨k', closer, rest, below, hsearching, hactive, rfl, hroot⟩ := h
  obtain ⟨hframe, -⟩ := hsearching.descent
  have hstart := (hsearching.active_iff start).mp hactive
  generalize hids : ((closer, start :: rest) :: below).map Prod.fst = ids at hstart hroot
  have hclimb := hsearching.descent.climbs closer (hids ▸ hstart)
  have halong := hsearching.descent.along
  have hnodup := hsearching.nodup
  rw [hids] at hclimb halong hnodup
  -- What is read off, upwards from the top of the stack, is the stack down to the start.
  obtain ⟨inner, hinner⟩ : ∃ inner, ids.takeWhile (· ≠ start) = inner := ⟨_, rfl⟩
  have hbegins : inner ++ [start] <+: ids := hinner ▸ begins_takeWhile_ne hstart
  have hupwards : (start :: (inner ++ [start])).IsChain fun a b => Leads edges b a := by
    refine List.IsChain.prefix ?_ ((List.prefix_cons_inj start).mpr hbegins)
    rw [← hids] at halong ⊢
    exact List.isChain_cons_cons.mpr ⟨hframe.untried start List.mem_cons_self, halong⟩
  have hreverse : (start :: (inner ++ [start])).reverse = start :: inner.reverse ++ [start] := by
    rw [List.reverse_cons, List.reverse_append]
    rfl
  refine ⟨inner, ?_, ⟨?_, ?_, ?_, ?_⟩, fun id hid => ?_⟩
  · rw [List.lookup_cons, beq_self_eq_true]
    exact hinner ▸ hclimb
  · rw [List.length_append, List.length_cons]
    exact Nat.succ_le_succ (Nat.succ_pos _)
  · rw [List.getLast?_concat]
    rfl
  · rw [← hreverse]
    exact List.isChain_reverse.mpr hupwards
  · rw [List.dropLast_concat]
    have hreversed : (inner ++ [start]).reverse = start :: inner.reverse := by
      rw [List.reverse_append]
      rfl
    exact hreversed ▸ List.nodup_reverse.mpr (hnodup.sublist hbegins.sublist)
  · rw [← hreverse, List.mem_reverse] at hid
    refine hroot id (hbegins.subset ?_)
    rcases List.mem_cons.mp hid with rfl | hid
    · exact List.mem_append_right _ List.mem_cons_self
    · exact hid

end Cycle

/-- **A cycle that is reported is a circuit.** For any nodes and edges it has two places or
more, the same identity at both ends, an edge from each place to the next and no identity
twice but at the ends, and everything on it is reached from some node. The climb by which it
is read off, along the record that the search left, comes to an end, and it is what the climb
passed. -/
theorem circuit_of_findCycle {nodes : List Node} {edges : List Edge} {path : List String}
    (h : findCycle (nodes.map (·.id)) edges = some path) :
    Circuit edges path ∧ (∀ id ∈ path, ∃ n ∈ nodes, Reaches edges n.id id)
      ∧ ∃ start k inner, Cycle.visitAll edges .empty (nodes.map (·.id)) = (some start, k)
        ∧ Cycle.Climbs k.parents start (k.parents.lookup start) inner
        ∧ path = start :: inner.reverse ++ [start] := by
  generalize hvisited : Cycle.visitAll edges .empty (nodes.map (·.id)) = visited
  obtain ⟨found, k⟩ := visited
  unfold findCycle at h
  rw [hvisited] at h
  cases found with
  | none => cases h
  | some start =>
      obtain rfl := Option.some.inj h
      obtain ⟨root, hroot, hcloses⟩ :=
        Cycle.visitAll_closes _ (Cycle.searching_empty edges) hvisited
      obtain ⟨n, hn, rfl⟩ := List.mem_map.mp hroot
      obtain ⟨inner, hclimbs, hcircuit, hreaches⟩ := hcloses.circuit
      rw [hclimbs.pathOf_eq]
      exact ⟨hcircuit, fun id hid => ⟨n, hn, hreaches id hid⟩, start, k, inner, rfl, hclimbs, rfl⟩

/-- The second root comes upon a node that the first is done with before it finds the
cycle. -/
theorem circuit_behind_a_finished_branch :
    let node (id : String) : Node := ⟨id, .transform, .origin, id, none⟩
    let edge (a b : String) : Edge := ⟨Edge.idBetween a b, a, b, .null, .null, .null, true⟩
    let nodes := [node "a", node "b"]
    let edges := [edge "a" "done", edge "b" "done", edge "b" "c", edge "c" "d", edge "d" "c"]
    findCycle (nodes.map (·.id)) edges = some ["c", "d", "c"]
      ∧ Circuit edges ["c", "d", "c"] ∧ ∃ n ∈ nodes, Reaches edges n.id "d" := by
  intro node edge nodes edges
  have hfound : findCycle (nodes.map (·.id)) edges = some ["c", "d", "c"] := by
    simp [nodes, edges, node, edge, successors, findCycle, Cycle.visitAll, Cycle.visit,
      Cycle.search, Cycle.Knowledge.empty, Cycle.Knowledge.enterRoot, Cycle.Knowledge.enter,
      Cycle.Knowledge.leave, Cycle.pathOf, Cycle.chase, List.lookup_cons]
  obtain ⟨hcircuit, hreaches, -⟩ := circuit_of_findCycle hfound
  exact ⟨hfound, hcircuit, hreaches "d" (by decide)⟩

end Workflow

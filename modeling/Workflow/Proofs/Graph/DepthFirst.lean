import Workflow.Graph.Cycle
import Workflow.Proofs.Graph.Walk

/-!
# The search for a cycle as a recursion

`Cycle.search` keeps a stack of its own, so that no graph is too deep for it. `DepthFirst`
holds the search as it is usually told, which calls itself for every node that it enters: a
node is white until it is entered, gray while the search is below it, and black from then on.
The successors of a node are tried in their order. A gray one closes a cycle and ends the
search, a black one is passed over, and below a white one the search goes on, once it is
recorded from where it was entered.

A stack is what such calls leave to be done. The search with a stack does for the frame on
top what the recursion does, and goes on with the frames below if no cycle was closed
(`search_cons`): this is the simulation, by induction along the recursion, and `Mirrors` is
what relates the colours to the tables of the search throughout. The headline is
`visit_as_recursion`.
-/

namespace Workflow

namespace DepthFirst

open Workflow.Cycle (Knowledge Parents)

/-! ## Colours -/

/-- How far the search has come with a node: it was not entered, the search is below it, or
the search has left it. -/
inductive Colour
  | white
  | gray
  | black
  deriving DecidableEq, Repr

/-- What the search knows: the colour of every node, and from where the nodes were
entered. -/
structure Marks where
  colour : String → Colour
  parents : Parents

namespace Marks

def blank : Marks := ⟨fun _ => .white, []⟩

def paint (m : Marks) (id : String) (c : Colour) : Marks :=
  { m with colour := fun other => if other = id then c else m.colour other }

/-- Records from which node a node is entered. -/
def record (m : Marks) (id parent : String) : Marks :=
  { m with parents := (id, parent) :: m.parents }

def enter (m : Marks) (parent id : String) : Marks := (m.record id parent).paint id .gray

/-- No node that was entered became white again. -/
def Darkens (m m' : Marks) : Prop := ∀ id, m'.colour id = .white → m.colour id = .white

def openCount (m : Marks) (edges : List Edge) : Nat :=
  edges.countP fun e => m.colour e.source = .white

variable {m m' m'' : Marks} {id : String}

theorem colour_paint_self (m : Marks) (id : String) (c : Colour) :
    (m.paint id c).colour id = c :=
  if_pos rfl

theorem colour_enter_ne (m : Marks) (parent id : String) :
    (m.enter parent id).colour id ≠ .white :=
  fun hwhite => nomatch (colour_paint_self (m.record id parent) id .gray).symm.trans hwhite

theorem Darkens.refl (m : Marks) : Darkens m m := fun _ h => h

theorem Darkens.trans (h : Darkens m m') (h' : Darkens m' m'') : Darkens m m'' :=
  fun id hid => h id (h' id hid)

theorem darkens_paint (m : Marks) (id : String) {c : Colour} (hc : c ≠ .white) :
    Darkens m (m.paint id c) := by
  intro other hother
  unfold paint at hother
  dsimp only at hother
  split at hother
  · exact absurd hother hc
  · exact hother

theorem darkens_enter (m : Marks) (parent id : String) : Darkens m (m.enter parent id) :=
  (m.record id parent).darkens_paint id nofun

theorem openCount_le (h : Darkens m m') (edges : List Edge) :
    m'.openCount edges ≤ m.openCount edges := by
  refine List.countP_mono_left fun e _ he => ?_
  rw [decide_eq_true_eq] at he ⊢
  exact h e.source he

theorem openCount_lt {edges : List Edge} (h : Darkens m m') (hwhite : m.colour id = .white)
    (hdark : m'.colour id ≠ .white) (hleads : successors edges id ≠ []) :
    m'.openCount edges < m.openCount edges := by
  obtain ⟨next, hnext⟩ := List.exists_mem_of_ne_nil _ hleads
  obtain ⟨e, he, rfl, -⟩ := mem_successors.mp hnext
  obtain ⟨before, after, rfl⟩ := List.append_of_mem he
  have hbefore := openCount_le h before
  have hafter := openCount_le h after
  unfold openCount at *
  rw [List.countP_append, List.countP_append, List.countP_cons_of_neg (by simpa using hdark),
    List.countP_cons_of_pos (by simpa using hwhite)]
  omega

end Marks

/-! ## The recursion -/

/-- Searches on below a gray node with the successors that are still to be tried. The result
is the node at which a cycle closes, if one does, and what is known then. -/
def explore (edges : List Edge) (m : Marks) (id : String) :
    List String → { r : Option String × Marks // m.Darkens r.2 }
  | [] => ⟨(none, m.paint id .black), m.darkens_paint id nofun⟩
  | next :: rest =>
    match _ : m.colour next with
    | .gray => ⟨(some next, m.record next id), .refl m⟩
    | .black => explore edges m id rest
    | .white =>
      match explore edges (m.enter id next) next (successors edges next) with
      | ⟨(some start, m'), hm'⟩ => ⟨(some start, m'), (m.darkens_enter id next).trans hm'⟩
      | ⟨(none, m'), hm'⟩ =>
        have hdarkens := (m.darkens_enter id next).trans hm'
        match explore edges m' id rest with
        | ⟨r, hr⟩ => ⟨r, hdarkens.trans hr⟩
termination_by rest => (m.openCount edges, rest.length)
decreasing_by
  · exact Prod.Lex.right _ (Nat.lt_succ_self _)
  · rename_i hwhite
    have hdarkens := m.darkens_enter id next
    have hdark := m.colour_enter_ne id next
    rw [Prod.lex_def]
    by_cases hleads : successors edges next = []
    · have := Marks.openCount_le hdarkens edges
      simp only [hleads, List.length_cons, List.length_nil]
      omega
    · exact Or.inl (Marks.openCount_lt hdarkens hwhite hdark hleads)
  · have hle : m'.openCount edges ≤ m.openCount edges := Marks.openCount_le hdarkens edges
    rw [Prod.lex_def]
    simp only [List.length_cons]
    omega

def visit (edges : List Edge) (m : Marks) (root : String) : Option String × Marks :=
  (explore edges (m.paint root .gray) root (successors edges root)).1

/-- Searches below each of the nodes that is still white when its turn comes, until a cycle
closes. -/
def visitAll (edges : List Edge) (m : Marks) : List String → Option String × Marks
  | [] => (none, m)
  | id :: ids =>
    if m.colour id = .white then
      match visit edges m id with
      | (some start, m) => (some start, m)
      | (none, m) => visitAll edges m ids
    else visitAll edges m ids

/-- The cycle that the recursion reports, if it comes upon one. -/
def findCycle (ids : List String) (edges : List Edge) : Option (List String) :=
  match visitAll edges .blank ids with
  | (some start, m) => some (Cycle.pathOf m.parents start)
  | (none, _) => none

/-! ## The simulation -/

/-- The tables of the search say the same as the colours: the active nodes are the gray ones,
and the nodes that were visited are those that are not white. -/
structure Mirrors (k : Knowledge) (m : Marks) : Prop where
  active : ∀ id, id ∈ k.active ↔ m.colour id = .gray
  visited : ∀ id, id ∈ k.visited ↔ m.colour id ≠ .white
  parents : k.parents = m.parents

namespace Mirrors

variable {k : Knowledge} {m : Marks} {id next : String}

theorem fresh (h : Mirrors k m) (hwhite : m.colour id = .white) :
    id ∉ k.active ∧ id ∉ k.visited := by
  rw [h.active, h.visited, hwhite]
  exact ⟨nofun, fun hne => hne rfl⟩

theorem record (h : Mirrors k m) :
    Mirrors { k with parents := (next, id) :: k.parents } (m.record next id) :=
  ⟨h.active, h.visited, congrArg _ h.parents⟩

theorem enterRoot (h : Mirrors k m) : Mirrors (k.enterRoot id) (m.paint id .gray) := by
  refine ⟨fun other => ?_, fun other => ?_, h.parents⟩
  · unfold Knowledge.enterRoot Marks.paint
    rw [List.mem_cons, h.active]
    by_cases hother : other = id <;> simp [hother]
  · unfold Knowledge.enterRoot Marks.paint
    rw [List.mem_cons, h.visited]
    by_cases hother : other = id <;> simp [hother]

theorem enter (h : Mirrors k m) : Mirrors (k.enter id next) (m.enter id next) :=
  h.record.enterRoot

theorem leave (h : Mirrors k m) (hid : m.colour id ≠ .white) :
    Mirrors (k.leave id) (m.paint id .black) := by
  refine ⟨fun other => ?_, fun other => ?_, h.parents⟩
  · unfold Knowledge.leave Marks.paint
    rw [List.mem_filter, h.active]
    by_cases hother : other = id <;> simp [hother]
  · unfold Knowledge.leave Marks.paint
    rw [h.visited]
    by_cases hother : other = id <;> simp [hother, hid]

end Mirrors

/-- **A stack is what the calls leave to be done.** The search does for the frame on top what
the recursion does, and goes on with the frames below unless a cycle was closed. -/
theorem search_cons {edges : List Edge} {k : Knowledge} {m : Marks} {id : String}
    (rest : List String) (h : Mirrors k m) (hid : m.colour id ≠ .white)
    (stack : List Cycle.Frame) :
    ∃ k', Mirrors k' (explore edges m id rest).1.2
      ∧ Cycle.search edges k ((id, rest) :: stack)
        = (explore edges m id rest).1.1.elim (Cycle.search edges k' stack)
            fun start => (some start, k') := by
  fun_induction explore edges m id rest generalizing k stack with
  | case1 m id =>
      refine ⟨k.leave id, h.leave hid, ?_⟩
      rw [Cycle.search]
      rfl
  | case2 m id next rest hgray =>
      refine ⟨_, h.record, ?_⟩
      rw [Cycle.search, if_pos ((h.active next).mpr hgray)]
      rfl
  | case3 m id next rest hblack ih =>
      have hinactive : next ∉ k.active := by
        rw [h.active, hblack]
        decide
      have hvisited : next ∈ k.visited := by
        rw [h.visited, hblack]
        decide
      rw [Cycle.search, if_neg hinactive, if_pos hvisited]
      exact ih h hid stack
  | case4 m id next rest hwhite start m' hm' hbelow ih =>
      obtain ⟨hinactive, hfresh⟩ := h.fresh hwhite
      obtain ⟨k', hk', hsearch⟩ := ih h.enter (m.colour_enter_ne id next) ((id, rest) :: stack)
      rw [hbelow] at hk' hsearch
      refine ⟨k', hk', ?_⟩
      rw [Cycle.search, if_neg hinactive, if_neg hfresh, hsearch]
      rfl
  | case5 m id next rest hwhite m' hm' hbelow hdarkens r hr hrest ih ih' =>
      obtain ⟨hinactive, hfresh⟩ := h.fresh hwhite
      obtain ⟨k', hk', hsearch⟩ := ih h.enter (m.colour_enter_ne id next) ((id, rest) :: stack)
      rw [hbelow] at hk' hsearch
      obtain ⟨k'', hk'', hsearch'⟩ := ih' hk' (fun hid' => hid (hdarkens id hid')) stack
      rw [hrest] at hk'' hsearch'
      refine ⟨k'', hk'', ?_⟩
      rw [Cycle.search, if_neg hinactive, if_neg hfresh, hsearch]
      exact hsearch'

theorem visit_mirrors (edges : List Edge) {k : Knowledge} {m : Marks} (h : Mirrors k m)
    (root : String) :
    (Cycle.visit edges k root).1 = (visit edges m root).1
      ∧ Mirrors (Cycle.visit edges k root).2 (visit edges m root).2 := by
  have hgray : (m.paint root .gray).colour root ≠ .white := by
    rw [m.colour_paint_self]
    nofun
  have hroot : Mirrors (k.enterRoot root) (m.paint root .gray) := h.enterRoot
  obtain ⟨k', hk', hsearch⟩ := search_cons (successors edges root) hroot hgray []
  unfold Cycle.visit visit
  rw [hsearch]
  cases hfound : (explore edges (m.paint root .gray) root (successors edges root)).1.1 with
  | none =>
      rw [Option.elim_none, Cycle.search]
      exact ⟨rfl, hk'⟩
  | some start => exact ⟨rfl, hk'⟩

theorem visitAll_mirrors (edges : List Edge) :
    ∀ (ids : List String) {k : Knowledge} {m : Marks},
    Mirrors k m → (Cycle.visitAll edges k ids).1 = (visitAll edges m ids).1
      ∧ Mirrors (Cycle.visitAll edges k ids).2 (visitAll edges m ids).2
  | [], _, _, h => ⟨rfl, h⟩
  | id :: ids, k, m, h => by
      rw [Cycle.visitAll, visitAll]
      by_cases hwhite : m.colour id = .white
      · rw [if_neg (h.fresh hwhite).2, if_pos hwhite]
        obtain ⟨hresult, hmirrors⟩ := visit_mirrors edges h id
        generalize Cycle.visit edges k id = r at *
        generalize visit edges m id = d at *
        obtain ⟨found, k'⟩ := r
        obtain ⟨found', m'⟩ := d
        obtain rfl : found = found' := hresult
        cases found with
        | none => exact visitAll_mirrors edges ids hmirrors
        | some start => exact ⟨rfl, hmirrors⟩
      · have hvisited : id ∈ k.visited := (h.visited id).mpr hwhite
        rw [if_pos hvisited, if_neg hwhite]
        exact visitAll_mirrors edges ids h

theorem findCycle_eq (ids : List String) (edges : List Edge) :
    Workflow.findCycle ids edges = findCycle ids edges := by
  have hblank : Mirrors .empty .blank :=
    ⟨fun _ => by simp [Knowledge.empty, Marks.blank],
      fun _ => by simp [Knowledge.empty, Marks.blank], rfl⟩
  obtain ⟨hresult, hmirrors⟩ := visitAll_mirrors edges ids hblank
  unfold Workflow.findCycle findCycle
  generalize Cycle.visitAll edges .empty ids = r at *
  generalize visitAll edges .blank ids = d at *
  obtain ⟨found, k⟩ := r
  obtain ⟨found', m⟩ := d
  obtain rfl : found = found' := hresult
  cases found with
  | none => rfl
  | some start =>
      have hparents : k.parents = m.parents := hmirrors.parents
      dsimp only
      rw [hparents]

theorem successors_append (edges edges' : List Edge) (id : String) :
    successors (edges ++ edges') id = successors edges id ++ successors edges' id := by
  unfold successors
  rw [List.filter_append, List.map_append]

def edgesTo (source : String) (targets : List String) : List Edge :=
  targets.map fun target =>
    ⟨Edge.idBetween source target, source, target, .null, .null, .null, true⟩

theorem successors_edgesTo (source : String) (targets : List String) (id : String) :
    successors (edgesTo source targets) id = if id = source then targets else [] := by
  have hsource : ∀ e ∈ edgesTo source targets, e.source = source := by
    simp [edgesTo]
  have htargets : (edgesTo source targets).map (·.target) = targets := by
    unfold edgesTo
    rw [List.map_map]
    exact List.map_id targets
  unfold successors
  by_cases hid : id = source
  · have hall : (edgesTo source targets).filter (·.source = id) = edgesTo source targets :=
      List.filter_eq_self.mpr fun e he => by simp [hsource e he, hid]
    rw [if_pos hid, hall, htargets]
  · have hnone : (edgesTo source targets).filter (·.source = id) = [] :=
      List.filter_eq_nil_iff.mpr fun e he => by simp [hsource e he, Ne.symm hid]
    rw [if_neg hid, hnone]
    rfl

theorem exists_successors_eq : ∀ table : List (String × List String),
    ∃ edges, ∀ id, successors edges id = (table.lookup id).getD []
  | [] => ⟨[], fun _ => rfl⟩
  | (source, targets) :: table => by
      obtain ⟨edges, hedges⟩ := exists_successors_eq table
      refine ⟨edgesTo source targets ++ edges.filter (·.source ≠ source), fun id => ?_⟩
      rw [successors_append, successors_edgesTo, List.lookup_cons]
      by_cases hid : id = source
      · subst hid
        simp [successors]
      · have hkept : successors (edges.filter (·.source ≠ source)) id = successors edges id := by
          unfold successors
          rw [List.filter_filter]
          congr 2
          funext e
          by_cases he : e.source = id <;> simp [he, hid]
        rw [if_neg hid, beq_false_of_ne hid, hkept]
        exact hedges id

/-- **The search with a stack is the recursion.** From any node, with any nodes visited
before and none active, and whatever was recorded, the two report the same node or none, and
leave the same nodes visited, the same ones active and the same record. So the cycle found in
a graph is the one that the recursion reports. This is said of every table of successors, for
each of them is that of some edges. -/
theorem visit_as_recursion :
    (∀ (edges : List Edge) (visited : List String) (parents : Parents) (root : String),
      let r := Cycle.visit edges ⟨visited, [], parents⟩ root
      let d := visit edges ⟨fun id => if id ∈ visited then .black else .white, parents⟩ root
      r.1 = d.1 ∧ (∀ id, id ∈ r.2.visited ↔ d.2.colour id ≠ .white)
        ∧ (∀ id, id ∈ r.2.active ↔ d.2.colour id = .gray) ∧ r.2.parents = d.2.parents)
      ∧ (∀ edges ids, Workflow.findCycle ids edges = findCycle ids edges)
      ∧ ∀ table : List (String × List String),
        ∃ edges, ∀ id, successors edges id = (table.lookup id).getD [] := by
  refine ⟨?_, fun edges ids => findCycle_eq ids edges, exists_successors_eq⟩
  intro edges visited parents root r d
  have hidle : Mirrors ⟨visited, [], parents⟩
      ⟨fun id => if id ∈ visited then .black else .white, parents⟩ := by
    refine ⟨fun id => ?_, fun id => ?_, rfl⟩
    · by_cases hid : id ∈ visited <;> simp [hid]
    · by_cases hid : id ∈ visited <;> simp [hid]
  obtain ⟨hresult, hmirrors⟩ := visit_mirrors edges hidle root
  exact ⟨hresult, hmirrors.visited, hmirrors.active, hmirrors.parents⟩

end DepthFirst
end Workflow

import Mathlib.Data.Finset.Insert
import Mathlib.Data.List.Nodup
import Workflow.Proofs.Run.BreadthFirst
import Workflow.Proofs.Run.Carriage

/-!
# Queues run dry

A walk looks three things up: the node of an identity, the targets of a node, and the edge
between two nodes. Whatever these tables say, the queue of a walk cannot be served for ever
(`WalkTables.wellFounded_serves`). No counter goes down, for a node may be executed many
times and queue more work than was taken. But work that follows other work has one node more
on its way, and the nodes on a way are nodes of the table but for the one at which the walk
began. So work is only as deep as there are nodes, and `Graph.cost` weighs a piece of work by
all that can follow it.

`WalkTables.Serves` is one turn of the queue, stated from the tables alone. A workflow looks
things up in the tables when it gives the same answers (`Graph.LooksUp`); every step of its
walk serves the queue, unless the walk is asked to stop.
-/

namespace Workflow

/-- Where a walk looks things up: nodes by their identity, the targets of a node, and the
edge that leads from one node to another. -/
structure WalkTables where
  nodes : List (String × Node)
  targets : List (String × List String)
  edges : List ((String × String) × Edge)
  /-- Nodes are filed under their own identity. -/
  named : ∀ entry ∈ nodes, entry.2.id = entry.1
  /-- No node has targets in two places. -/
  apart : (targets.map Prod.fst).Nodup

namespace WalkTables

def node? (t : WalkTables) (id : String) : Option Node := t.nodes.lookup id

/-- The targets of a node; a node that is not in the table has none. -/
def targetsOf (t : WalkTables) (id : String) : List String := (t.targets.lookup id).getD []

/-- The handle of the edge between two nodes, if there is such an edge. -/
def handle (t : WalkTables) (source target : String) : Value :=
  match t.edges.lookup (source, target) with
  | some edge => edge.sourceHandle
  | none => .null

/-! ## One turn of the queue -/

/-- Whether a condition is not followed to a target: its edge is for the other result. -/
def Bars (t : WalkTables) (w : Work) (target : String) (met : Bool) : Prop :=
  w.node.kind = .condition ∧
    (t.handle w.node.id target = .text "true" ∧ met = false
      ∨ t.handle w.node.id target = .text "false" ∧ met = true)

instance (t : WalkTables) (w : Work) (target : String) (met : Bool) :
    Decidable (t.Bars w target met) :=
  inferInstanceAs (Decidable (_ ∧ _))

/-- The work for a target, unless it is unknown or barred. -/
def child? (t : WalkTables) (w : Work) (o : Outcome) (target : String) : Option Work :=
  match t.node? target with
  | some n => if t.Bars w target o.conditionMet then none
      else some ⟨n, o.output, w.node.id :: w.visited⟩
  | none => none

/-- The work that an executed node queues: none if it fails, else that for its targets in
order. -/
def children (t : WalkTables) (w : Work) : List Work :=
  let o := executeNode w.node w.input
  if o.status = .error then [] else (t.targetsOf w.node.id).filterMap (t.child? w o)

/-- One turn of the queue. A node that was passed before on the way to it is dropped; any
other is executed, and its children come last. -/
inductive Serves (t : WalkTables) : List Work → List Work → Prop
  | passed {w : Work} {queue : List Work} (hpassed : w.revisits = true) :
      Serves t (w :: queue) queue
  | executed {w : Work} {queue : List Work} (hfresh : ¬ w.revisits = true) :
      Serves t (w :: queue) (queue ++ t.children w)

theorem mem_children {t : WalkTables} {w v : Work} (h : v ∈ t.children w) :
    ∃ target n, t.node? target = some n
      ∧ v = ⟨n, (executeNode w.node w.input).output, w.node.id :: w.visited⟩ := by
  unfold children at h
  dsimp only at h
  split at h
  · cases h
  · obtain ⟨target, -, hchild⟩ := List.mem_filterMap.mp h
    unfold child? at hchild
    split at hchild
    · rename_i n hn
      split at hchild
      · cases hchild
      · exact ⟨target, n, hn, (Option.some.inj hchild).symm⟩
    · cases hchild

theorem named_of_lookup : ∀ {nodes : List (String × Node)} {id : String} {n : Node},
    (∀ entry ∈ nodes, entry.2.id = entry.1) → nodes.lookup id = some n → n.id = id
  | [], _, _, _, h => nomatch h
  | (key, m) :: nodes, id, n, hnamed, h => by
      obtain ⟨hfirst, hrest⟩ := List.forall_mem_cons.mp hnamed
      rw [List.lookup_cons] at h
      split at h
      · rename_i hkey
        obtain rfl := Option.some.inj h
        rw [beq_iff_eq.mp hkey]
        exact hfirst
      · exact named_of_lookup hrest h

theorem id_of_node? {t : WalkTables} {id : String} {n : Node} (h : t.node? id = some n) :
    n.id = id :=
  named_of_lookup t.named h

/-- Children have a node more on their way than the work they follow. -/
theorem passed_ssubset {t : WalkTables} {w v : Work} (hfresh : ¬ w.revisits = true)
    (hv : v ∈ t.children w) : w.visited.toFinset ⊂ v.visited.toFinset := by
  obtain ⟨-, n, -, rfl⟩ := mem_children hv
  have hnew : w.node.id ∉ w.visited.toFinset := by simpa [Work.revisits] using hfresh
  rw [List.toFinset_cons]
  exact Finset.ssubset_insert hnew

/-! ### What is on a way -/

/-- The nodes on the way of a piece of work are known, but for the one at which the walk
began. -/
structure Along (t : WalkTables) (start : String) (w : Work) : Prop where
  node : (t.node? w.node.id).isSome ∨ w.node.id = start
  visited : ∀ id ∈ w.visited, (t.node? id).isSome ∨ id = start

theorem Along.child {t : WalkTables} {start : String} {w v : Work} (h : t.Along start w)
    (hv : v ∈ t.children w) : t.Along start v := by
  obtain ⟨target, n, hn, rfl⟩ := mem_children hv
  have hid : n.id = target := id_of_node? hn
  refine ⟨Or.inl ?_, List.forall_mem_cons.mpr ⟨h.node, h.visited⟩⟩
  show (t.node? n.id).isSome
  rw [hid, hn]
  rfl

theorem along_of_serves {t : WalkTables} {start : String} {before after : List Work}
    (h : ∀ w ∈ before, t.Along start w) (hserves : t.Serves before after) :
    ∀ w ∈ after, t.Along start w := by
  cases hserves with
  | passed hpassed => exact (List.forall_mem_cons.mp h).2
  | executed hfresh =>
      obtain ⟨hw, hqueue⟩ := List.forall_mem_cons.mp h
      exact List.forall_mem_append.mpr ⟨hqueue, fun v hv => hw.child hv⟩

theorem along_of_reaches {t : WalkTables} {start : String} {before after : List Work}
    (h : ∀ w ∈ before, t.Along start w)
    (hreach : Relation.ReflTransGen t.Serves before after) :
    ∀ w ∈ after, t.Along start w := by
  induction hreach with
  | refl => exact h
  | tail _ hserves ih => exact along_of_serves ih hserves

end WalkTables

/-! ## Workflows that answer as the tables do -/

/-- A workflow in which a walk finds what the tables say. -/
structure Graph.LooksUp (g : Graph) (t : WalkTables) : Prop where
  node : ∀ id, g.node? id = t.node? id
  targets : ∀ id, successors g.edges id = t.targetsOf id
  handle : ∀ id, ∀ target ∈ t.targetsOf id, g.handle id target = t.handle id target

theorem Graph.LooksUp.goesOn_iff {g : Graph} {t : WalkTables} (h : g.LooksUp t) {w : Work}
    {target : String} (htarget : target ∈ t.targetsOf w.node.id) (met : Bool) :
    g.goesOn w.node target met = true ↔ ¬ t.Bars w target met := by
  have hother : ¬ Value.text "true" = Value.text "false" := by decide
  unfold Graph.goesOn Graph.admits WalkTables.Bars
  rw [h.handle _ target htarget]
  by_cases hkind : w.node.kind = .condition
  · by_cases htrue : t.handle w.node.id target = .text "true"
    · simp [hkind, htrue, hother]
    · by_cases hfalse : t.handle w.node.id target = .text "false"
      · simp [hkind, hfalse]
      · simp [hkind, htrue, hfalse]
  · simp [hkind]

/-- What a walk queues behind an executed node are the children of the tables. -/
theorem Graph.LooksUp.followers {g : Graph} {t : WalkTables} (h : g.LooksUp t) {w : Work}
    (hfresh : ¬ w.revisits = true) :
    g.followers w (executeNode w.node w.input) = t.children w := by
  unfold Graph.followers WalkTables.children
  by_cases herror : (executeNode w.node w.input).status = .error
  · rw [if_pos (Or.inl herror)]
    exact (if_pos herror).symm
  · rw [if_neg (not_or.mpr ⟨herror, hfresh⟩), h.targets]
    dsimp only
    rw [if_neg herror]
    refine List.filterMap_congr fun target htarget => ?_
    have hgoes := h.goesOn_iff htarget (executeNode w.node w.input).conditionMet
    unfold Graph.next? WalkTables.child?
    rw [h.node target]
    cases t.node? target with
    | none => rfl
    | some n =>
        dsimp only
        by_cases hbars : t.Bars w target (executeNode w.node w.input).conditionMet
        · rw [if_pos hbars, if_neg (fun hon => hgoes.mp hon hbars)]
        · rw [if_neg hbars, if_pos (hgoes.mpr hbars)]

namespace WalkTables

/-- The edges to the targets of a node, with the handles that the table has for them. -/
def edgesFrom (t : WalkTables) (entry : String × List String) : List Edge :=
  entry.2.map fun target => ⟨"", entry.1, target, t.handle entry.1 target, .null, .null, true⟩

/-- A workflow with the nodes of the tables, and an edge for each target. -/
def graph (t : WalkTables) : Graph where
  nodes := (t.nodes.map Prod.snd).reverse
  edges := t.targets.flatMap t.edgesFrom

theorem find?_eq_lookup : ∀ {nodes : List (String × Node)} (id : String),
    (∀ entry ∈ nodes, entry.2.id = entry.1) →
      (nodes.map Prod.snd).find? (fun n => decide (n.id = id)) = nodes.lookup id
  | [], _, _ => rfl
  | (key, m) :: nodes, id, hnamed => by
      obtain ⟨hfirst, hrest⟩ := List.forall_mem_cons.mp hnamed
      have hkey : decide (m.id = id) = (id == key) := by
        rw [show m.id = key from hfirst, Bool.beq_eq_decide_eq]
        exact decide_eq_decide.mpr eq_comm
      rw [List.map_cons, List.find?_cons, List.lookup_cons, hkey, find?_eq_lookup id hrest]

theorem successors_append (edges rest : List Edge) (id : String) :
    successors (edges ++ rest) id = successors edges id ++ successors rest id := by
  rw [successors, List.filter_append, List.map_append]
  rfl

theorem successors_edgesFrom (t : WalkTables) (source : String) (targets : List String)
    (id : String) :
    successors (t.edgesFrom (source, targets)) id = if source = id then targets else [] := by
  unfold successors edgesFrom
  dsimp only
  rw [List.filter_map, List.map_map]
  split
  · rename_i hsource
    simp [Function.comp_def, hsource]
  · rename_i hsource
    simp [Function.comp_def, hsource]

theorem successors_flatMap (t : WalkTables) (id : String) :
    ∀ {entries : List (String × List String)},
    (entries.map Prod.fst).Nodup →
      successors (entries.flatMap t.edgesFrom) id = (entries.lookup id).getD []
  | [], _ => rfl
  | (source, targets) :: entries, hapart => by
      obtain ⟨hnew, hrest⟩ := List.nodup_cons.mp hapart
      rw [List.flatMap_cons, successors_append, successors_edgesFrom, successors_flatMap t id hrest,
        List.lookup_cons]
      by_cases hsource : source = id
      · have hnone : entries.lookup id = none := by
          rw [List.lookup_eq_none_iff]
          rintro ⟨key, _⟩ hmem
          have hkey : key ≠ source := by
            rintro rfl
            exact hnew (List.mem_map.mpr ⟨_, hmem, rfl⟩)
          simpa [← hsource] using hkey.symm
        simp [hsource, hnone]
      · have hother : (id == source) = false := by simpa using fun h => hsource h.symm
        simp [hsource, hother]

theorem handle_of_mem (t : WalkTables) {edge : Edge} (h : edge ∈ t.graph.edges) :
    edge.sourceHandle = t.handle edge.source edge.target := by
  obtain ⟨entry, -, hedge⟩ := List.mem_flatMap.mp h
  obtain ⟨target, -, rfl⟩ := List.mem_map.mp hedge
  rfl

/-- Whatever the tables say, there is a workflow that answers as they do. -/
theorem looksUp_graph (t : WalkTables) : t.graph.LooksUp t where
  node id := by
    show (t.nodes.map Prod.snd).reverse.reverse.find? _ = _
    rw [List.reverse_reverse]
    exact find?_eq_lookup id t.named
  targets id := successors_flatMap t id t.apart
  handle id target htarget := by
    have hleads : target ∈ successors t.graph.edges id := by
      rw [show successors t.graph.edges id = t.targetsOf id from successors_flatMap t id t.apart]
      exact htarget
    obtain ⟨edge, hedge, hsource, htarget⟩ := mem_successors.mp hleads
    unfold Graph.handle
    cases hfirst : t.graph.edges.find? fun e => e.source = id ∧ e.target = target with
    | none =>
        have hnone := List.find?_eq_none.mp hfirst edge hedge
        exact absurd (decide_eq_true ⟨hsource, htarget⟩) hnone
    | some first =>
        obtain ⟨hsource', htarget'⟩ : first.source = id ∧ first.target = target := by
          simpa using List.find?_some hfirst
        have hhandle := t.handle_of_mem (List.mem_of_find?_eq_some hfirst)
        rw [hsource', htarget'] at hhandle
        exact hhandle

/-! ## No queue is served for ever -/

theorem queueCost_lt {t : WalkTables} {g : Graph} (h : g.LooksUp t)
    {before after : List Work} (hserves : t.Serves before after) :
    g.queueCost after < g.queueCost before := by
  cases hserves with
  | @passed w queue hpassed =>
      have hcost := g.five_le_cost w
      simp only [Graph.queueCost]
      omega
  | @executed w queue hfresh =>
      have hcost := g.cost_followers w (executeNode w.node w.input)
      rw [h.followers hfresh] at hcost
      simp only [Graph.queueCost, Graph.queueCost_append]
      omega

theorem wellFounded_serves (t : WalkTables) :
    WellFounded fun after before => t.Serves before after :=
  Subrelation.wf (queueCost_lt t.looksUp_graph) (InvImage.wf t.graph.queueCost Nat.lt_wfRel.wf)

/-! ## What a walk does to its queue -/

/-- What a step leaves of a queue: the queue is served, any number of times, or it is given
up when this was asked for. -/
def Advances (t : WalkTables) (before after : List Work) (asked : Prop) : Prop :=
  Relation.ReflTransGen t.Serves before after ∨ after = [] ∧ asked

namespace Advances

variable (t : WalkTables) (r : Run) (e : Executor)

theorem of_refuse (defects : List Defect) (asked : Prop) :
    t.Advances [] (r.refuse e defects).2.pending asked := by
  cases defects <;> exact Or.inl .refl

theorem of_take (w : Work) (queue : List Work) :
    t.Advances (w :: queue) (r.take e w queue []).2.pending (e.cancelRequested = true) := by
  unfold Run.take
  split
  · rename_i hasked
    exact Or.inr ⟨rfl, hasked⟩
  · split
    · rename_i hpassed
      show t.Advances (w :: queue) (queue ++ []) _
      rw [List.append_nil]
      exact Or.inl (.single (.passed hpassed))
    · show t.Advances (w :: queue) (w :: queue ++ []) _
      rw [List.append_nil]
      exact Or.inl .refl

theorem of_walk (queue : List Work) :
    t.Advances queue (r.walk e queue []).2.pending (e.cancelRequested = true) := by
  cases queue with
  | cons w queue => exact of_take t r e w queue
  | nil => exact Or.inl .refl

theorem of_warn (hnone : r.plan.starts = []) (warnings : List Warning) :
    t.Advances [] (r.warn e warnings).2.pending (e.cancelRequested = true) := by
  cases warnings with
  | cons w rest => exact Or.inl .refl
  | nil =>
      show t.Advances [] (if r.plan.report.valid = true then _ else _ : Executor × Turn).2.pending _
      split
      · rw [hnone]
        exact of_walk t r e []
      · exact of_refuse t r e _ _

variable {t r}

theorem of_leave (hlooks : r.plan.LooksUp t) {w : Work} (hfresh : ¬ w.revisits = true)
    (queue : List Work) :
    t.Advances (w :: queue) (r.leave e w (executeNode w.node w.input) queue []).2.pending
      (e.cancelRequested = true) := by
  have hserves : t.Serves (w :: queue) (queue ++ t.children w) := .executed hfresh
  unfold Run.leave
  split
  · rename_i herror
    have hnone : t.children w = [] := if_pos herror
    rw [hnone, List.append_nil] at hserves
    show t.Advances (w :: queue) (queue ++ []) _
    rw [List.append_nil]
    exact Or.inl (.single hserves)
  · rw [hlooks.followers hfresh]
    exact (of_walk t r e _).imp_left fun hrest => .head hserves hrest

/-- Going on serves the queue, or gives it up if the run is to be cancelled. -/
theorem of_resume {g : Graph} (hlooks : g.LooksUp t) {P : Work → Prop} {signal : Signal}
    (h : r.Carries g [] P signal) :
    t.Advances r.stage.pending (r.resume e).2.pending (e.cancelRequested = true) := by
  obtain ⟨rfl, hstage, -⟩ := h
  have hrest : ∀ {queue : List Work} {rest : List Node}, Queued P [] queue rest → rest = [] :=
    fun hqueued => List.eq_nil_iff_forall_not_mem.mpr fun n hn => nomatch hqueued.rest n hn
  unfold Run.resume
  cases hat : r.stage with
  | opened | warning _ =>
      rw [hat] at hstage
      exact of_warn t r e hstage.symm _
  | refusing rest => exact of_refuse t r e rest _
  | walking queue rest =>
      rw [hat] at hstage
      rw [hrest hstage]
      show t.Advances (queue ++ []) _ _
      rw [List.append_nil]
      exact of_walk t r e queue
  | paused w queue rest =>
      dsimp only
      split
      · rename_i hasked
        exact Or.inr ⟨rfl, hasked⟩
      · exact Or.inl .refl
  | entered w queue rest | noted w o queue rest => exact Or.inl .refl
  | left w o queue rest =>
      rw [hat] at hstage
      obtain ⟨hfresh, rfl, hqueued⟩ := hstage
      rw [hrest hqueued]
      show t.Advances (w :: queue ++ []) _ _
      rw [List.append_nil]
      exact of_leave e hlooks hfresh queue
  | concluding | closing ending => exact Or.inl .refl

theorem of_breakOff (i : Interrupt) {asked : Prop} (hasked : asked) :
    t.Advances r.stage.pending (r.breakOff e i).2.pending asked := by
  refine Or.inr ⟨?_, hasked⟩
  unfold Run.breakOff
  split <;> rfl

theorem of_proceed {g : Graph} (hlooks : g.LooksUp t) {P : Work → Prop} {signal : Signal}
    (h : r.Carries g [] P signal) (reply : Reply) :
    t.Advances r.stage.pending (r.proceed e reply).2.pending
      (e.cancelRequested = true ∨ ∃ i, reply = .interrupt i) := by
  cases reply with
  | resume => exact (of_resume e hlooks h).imp_right fun hgiven => ⟨hgiven.1, Or.inl hgiven.2⟩
  | interrupt i => exact of_breakOff e i (Or.inr ⟨i, rfl⟩)

end Advances

end WalkTables

/-- A walk from one piece of work, where it begins. -/
def Graph.setOut (g : Graph) (w : Work) : Turn := .waits .pause (Run.walkFrom g w)

theorem Graph.carries_of_setOut {g : Graph} {w : Work} {turn : Turn}
    (hreach : Relation.ReflTransGen Turn.Follows (g.setOut w) turn) :
    turn.Carries g [] fun _ => True := by
  have hall : g.Inherits [] fun _ => True := ⟨fun _ _ => trivial, fun _ _ _ _ => trivial⟩
  exact Turn.Carries.of_reaches hall (Run.carries_walkFrom g trivial) hreach

namespace WalkTables

theorem advances_of_setOut {t : WalkTables} {g : Graph} (hlooks : g.LooksUp t) {w : Work}
    {signal : Signal} {r : Run}
    (hreach : Relation.ReflTransGen Turn.Follows (g.setOut w) (.waits signal r))
    (e : Executor) (reply : Reply) :
    t.Advances r.stage.pending (r.proceed e reply).2.pending
      (e.cancelRequested = true ∨ ∃ i, reply = .interrupt i) := by
  have hcarries : r.Carries g [] (fun _ => True) signal := Graph.carries_of_setOut hreach
  exact Advances.of_proceed e hlooks hcarries reply

theorem eq_nil_of_serves {t : WalkTables} {after : List Work}
    (h : Relation.ReflTransGen t.Serves [] after) : after = [] := by
  rcases h.cases_head with hnone | ⟨_, hserves, -⟩
  · exact hnone.symm
  · cases hserves

/-- What a walk has before it, it has got by serving its queue, unless it was asked to
stop. -/
theorem serves_of_setOut {t : WalkTables} {g : Graph} (hlooks : g.LooksUp t) {w : Work}
    {turn : Turn} (hreach : Relation.ReflTransGen Turn.Follows (g.setOut w) turn) :
    Relation.ReflTransGen t.Serves [w] turn.pending ∨ turn.pending = [] := by
  induction hreach with
  | refl => exact Or.inl .refl
  | tail hreach hstep ih =>
      cases hstep with
      | reply signal r e reply =>
          rcases advances_of_setOut hlooks hreach e reply with hserves | ⟨hnone, -⟩
          · rcases ih with hbefore | hempty
            · exact Or.inl (hbefore.trans hserves)
            · rw [show r.stage.pending = [] from hempty] at hserves
              exact Or.inr (eq_nil_of_serves hserves)
          · exact Or.inr hnone

/-! ## The headline theorem -/

/-- **The queue of a walk runs dry**, whatever the tables say and wherever the walk begins.
No queue is served for ever. The nodes on the way of queued work are known, but for the start
node; a node that was passed before queues nothing, and what any other node queues has more
nodes on its way than the work it follows. A workflow that answers as the tables do, and
there is one, is walked by serving the queue, as long as nobody asks to stop: within a bound,
to an end in all surroundings, and left alone until nothing is queued. -/
theorem queue_runs_dry (t : WalkTables) (start : Node) (input : Packet) :
    let first : Work := ⟨start, input, []⟩
    WellFounded (fun after before => t.Serves before after)
    ∧ (∀ queue, Relation.ReflTransGen t.Serves [first] queue → ∀ w ∈ queue, ∀ id ∈ w.visited,
        (t.node? id).isSome ∨ id = start.id)
    ∧ (∀ w queue after, t.Serves (w :: queue) after → ∃ children, after = queue ++ children
        ∧ (w.revisits = true → children = [])
        ∧ ∀ v ∈ children, w.visited.toFinset ⊂ v.visited.toFinset)
    ∧ t.graph.LooksUp t
    ∧ ∀ g : Graph, g.LooksUp t →
      (∀ turn, Relation.ReflTransGen Turn.Follows (g.setOut first) turn →
        Relation.ReflTransGen t.Serves [first] turn.pending ∨ turn.pending = [])
      ∧ (∀ signal r, Relation.ReflTransGen Turn.Follows (g.setOut first) (.waits signal r) →
        ∀ e reply, t.Advances r.stage.pending (r.proceed e reply).2.pending
          (e.cancelRequested = true ∨ ∃ i, reply = .interrupt i))
      ∧ (∀ turns, (g.setOut first :: turns).IsChain Turn.Follows →
        turns.length ≤ (g.setOut first).work)
      ∧ (∀ (ω : Type) (env : Environment ω) (e : Executor) (w : ω),
        Relation.ReflTransGen Turn.Follows (g.setOut first)
          (.ends (env.drive e w (g.setOut first)).1))
      ∧ ∀ e, e.cancelRequested = false → ∃ result, (g.walk first e).1 = .returned result
        ∧ result.status = .completed := by
  intro first
  have hfirst : ∀ w ∈ [first], t.Along start.id w :=
    List.forall_mem_singleton.mpr ⟨Or.inr rfl, nofun⟩
  refine ⟨t.wellFounded_serves,
    fun queue hreach w hw => (along_of_reaches hfirst hreach w hw).visited,
    fun w queue after hserves => ?_, t.looksUp_graph, fun g hlooks => ⟨?_, ?_, ?_, ?_, ?_⟩⟩
  · cases hserves with
    | passed hpassed => exact ⟨[], (List.append_nil queue).symm, fun _ => rfl, nofun⟩
    | executed hfresh =>
        exact ⟨_, rfl, fun hpassed => absurd hpassed hfresh, fun v hv => passed_ssubset hfresh hv⟩
  · exact fun turn hreach => serves_of_setOut hlooks hreach
  · exact fun signal r hreach e reply => advances_of_setOut hlooks hreach e reply
  · exact fun turns => Turn.length_le_work
  · exact fun ω env e w => env.reaches_ending e w (g.setOut first)
  · intro e hgo
    obtain ⟨_, hresult⟩ := g.walk_result first hgo
    exact ⟨_, hresult, rfl⟩

/-- A node that leads to itself twice, behind a start node that is not in the table and that
leads to an unknown node as well. -/
theorem queue_runs_dry_at_a_loop :
    let loop : Node := ⟨"loop", .start, .origin, "Loop", some (.start (.record []))⟩
    let start : Node := ⟨"first", .start, .origin, "Start", some (.start (.record []))⟩
    let t : WalkTables := {
      nodes := [("loop", loop)]
      targets := [("first", ["loop", "unknown"]), ("loop", ["loop", "loop"])]
      edges := []
      named := List.forall_mem_singleton.mpr rfl
      apart := by decide }
    let again : Work := ⟨loop, [], ["loop", "first"]⟩
    Relation.ReflTransGen t.Serves [⟨start, [], []⟩] [again, again]
      ∧ (∀ id ∈ again.visited, (t.node? id).isSome ∨ id = "first")
      ∧ (∀ after, t.Serves [again, again] after → after = [again])
      ∧ ∃ result, (t.graph.walk ⟨start, [], []⟩ (.idle none 0)).1 = .returned result
        ∧ result.status = .completed := by
  intro loop start t again
  obtain ⟨-, hknown, hserves, hlooks, hwalk⟩ := queue_runs_dry t start []
  have hreach : Relation.ReflTransGen t.Serves [⟨start, [], []⟩] [again, again] :=
    .head (.executed (by decide)) (.single (.executed (w := ⟨loop, [], ["first"]⟩) (by decide)))
  refine ⟨hreach, hknown _ hreach again List.mem_cons_self, fun after hafter => ?_,
    (hwalk t.graph hlooks).2.2.2.2 _ rfl⟩
  obtain ⟨children, hchildren, hnone, -⟩ := hserves again [again] after hafter
  rw [hchildren, hnone (by decide), List.append_nil]

end WalkTables

end Workflow

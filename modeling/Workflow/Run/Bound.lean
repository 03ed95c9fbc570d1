import Workflow.Run.Stage

/-!
# Every run ends

The number of signals a run can still give is bounded. Each piece of work that follows
another one has a node more on its path, so work can only be as deep as there are nodes, and
a node has at most as many followers as there are edges. Main statement: whatever the
surroundings reply, the bound goes down with every signal.
-/

namespace Workflow

namespace Graph

def openNodes (p : Graph) (visited : List String) : Nat :=
  p.nodes.countP fun n => n.id ∉ visited

def knows (p : Graph) (id : String) : Bool := p.nodes.any (·.id = id)

def depth (p : Graph) (w : Work) : Nat :=
  2 * p.openNodes w.visited + if p.knows w.node.id then 0 else 1

/-- A bound on the signals of the work of a depth, with the given number of followers. -/
def signalBound (width : Nat) : Nat → Nat
  | 0 => 5
  | depth + 1 => 5 + width * signalBound width depth

/-- A bound on the signals of a piece of work and all that follows it. -/
def cost (p : Graph) (w : Work) : Nat := signalBound p.edges.length (p.depth w)

/-- A bound on the signals of a queue and all that follows it. -/
def queueCost (p : Graph) : List Work → Nat
  | [] => 0
  | w :: queue => p.cost w + p.queueCost queue

/-- A bound on the signals of a queue and of the start nodes after it. -/
def walkCost (p : Graph) (queue : List Work) (starts : List Node) : Nat :=
  p.queueCost queue + p.queueCost (starts.map seed)

theorem five_le_signalBound (width depth : Nat) : 5 ≤ signalBound width depth := by
  cases depth <;> simp [signalBound]

theorem signalBound_mono (width : Nat) {m n : Nat} (h : m ≤ n) :
    signalBound width m ≤ signalBound width n := by
  induction n generalizing m with
  | zero => simp [Nat.le_zero.mp h]
  | succ n ih =>
    cases m with
    | zero => exact five_le_signalBound width _
    | succ m =>
      simp only [signalBound]
      exact Nat.add_le_add_left (Nat.mul_le_mul_left _ (ih (by omega))) _

theorem five_le_cost (p : Graph) (w : Work) : 5 ≤ p.cost w := five_le_signalBound _ _

theorem node?_mem {p : Graph} {id : String} {n : Node} (h : p.node? id = some n) :
    n ∈ p.nodes ∧ n.id = id := by
  unfold node? at h
  have mem := List.mem_of_find?_eq_some h
  have eq := List.find?_some h
  exact ⟨List.mem_reverse.mp mem, by simpa using eq⟩

theorem openNodes_cons_le (p : Graph) (visited : List String) (id : String) :
    p.openNodes (id :: visited) ≤ p.openNodes visited := by
  unfold openNodes
  exact List.countP_mono_left fun n _ h => by simp_all

theorem openNodes_cons_lt {p : Graph} {visited : List String} {id : String}
    (known : p.knows id = true) (fresh : id ∉ visited) :
    p.openNodes (id :: visited) < p.openNodes visited := by
  unfold openNodes knows at *
  obtain ⟨n, hn, rfl⟩ : ∃ n ∈ p.nodes, n.id = id := by simpa using known
  revert hn
  induction p.nodes with
  | nil => simp
  | cons m ms ih =>
    intro hn
    have tail := List.countP_mono_left (l := ms)
      (p := fun x => decide (x.id ∉ n.id :: visited)) (q := fun x => decide (x.id ∉ visited))
      fun x _ h => by simp_all
    by_cases hm : m.id = n.id
    · rw [List.countP_cons_of_neg (by simp [hm]),
        List.countP_cons_of_pos (by simpa [hm] using fresh)]
      omega
    · have hn' : n ∈ ms := by
        rcases List.mem_cons.mp hn with h | h
        · exact absurd (h ▸ rfl) hm
        · exact h
      have := ih hn'
      simp only [List.countP_cons]
      by_cases hv : m.id ∈ visited <;> simp_all

/-- Work at a node of the workflow is less deep than the work that passed one node less. -/
theorem depth_lt {p : Graph} {w : Work} {id : String} {n : Node} (fresh : ¬ w.revisits)
    (found : p.node? id = some n) (input : Packet) :
    p.depth ⟨n, input, w.node.id :: w.visited⟩ < p.depth w := by
  obtain ⟨hmem, hid⟩ := node?_mem found
  have known : p.knows n.id = true := by
    simp only [knows, List.any_eq_true]
    exact ⟨n, hmem, by simp⟩
  have hv : w.node.id ∉ w.visited := by simpa [Work.revisits] using fresh
  simp only [depth, known, if_true]
  by_cases hk : p.knows w.node.id = true
  · have := openNodes_cons_lt hk hv
    simp only [hk, if_true]
    omega
  · have := openNodes_cons_le p w.visited w.node.id
    simp only [hk]
    simp
    omega

theorem depth_next {p : Graph} {w w' : Work} {o : Outcome} {target : String}
    (fresh : ¬ w.revisits) (h : p.next? w o target = some w') : p.depth w' < p.depth w := by
  unfold next? at h
  split at h
  case h_2 => simp at h
  case h_1 n hn =>
    split at h
    case isFalse => simp at h
    case isTrue =>
      obtain rfl := Option.some.inj h
      exact depth_lt fresh hn o.output

theorem queueCost_append (p : Graph) (queue rest : List Work) :
    p.queueCost (queue ++ rest) = p.queueCost queue + p.queueCost rest := by
  induction queue with
  | nil => simp [queueCost]
  | cons w queue ih => simp only [List.cons_append, queueCost, ih]; omega

theorem queueCost_le (p : Graph) {queue : List Work} {bound : Nat}
    (h : ∀ w ∈ queue, p.cost w ≤ bound) : p.queueCost queue ≤ queue.length * bound := by
  induction queue with
  | nil => simp [queueCost]
  | cons w queue ih =>
    have hw := h w List.mem_cons_self
    have := ih fun v hv => h v (List.mem_cons_of_mem _ hv)
    simp only [queueCost, List.length_cons, Nat.add_mul, Nat.one_mul]
    omega

theorem successors_length_le (edges : List Edge) (id : String) :
    (successors edges id).length ≤ edges.length := by
  simp only [successors, List.length_map]
  exact List.length_filter_le _ _

theorem cost_followers (p : Graph) (w : Work) (o : Outcome) :
    p.queueCost (p.followers w o) + 5 ≤ p.cost w := by
  unfold followers
  split
  · simpa [queueCost] using five_le_cost p w
  · rename_i h
    have fresh : ¬ w.revisits := fun hr => h (Or.inr hr)
    generalize hts : successors p.edges w.node.id = targets
    have hlen : targets.length ≤ p.edges.length := hts ▸ successors_length_le _ _
    have each : ∀ w' ∈ targets.filterMap (p.next? w o),
        p.cost w' ≤ signalBound p.edges.length (p.depth w - 1) := by
      intro w' hw'
      obtain ⟨t, _, ht⟩ := List.mem_filterMap.mp hw'
      exact signalBound_mono _ (by have := depth_next fresh ht; omega)
    have total := queueCost_le p each
    have few : (targets.filterMap (p.next? w o)).length ≤ targets.length :=
      List.length_filterMap_le _ _
    unfold cost
    cases hd : p.depth w with
    | zero =>
      have : targets.filterMap (p.next? w o) = [] := by
        apply List.filterMap_eq_nil_iff.mpr
        intro t _
        cases ht : p.next? w o t with
        | none => rfl
        | some w' => have := depth_next fresh ht; omega
      simp [this, signalBound, queueCost]
    | succ d =>
      rw [hd] at total
      simp only [Nat.add_sub_cancel] at total
      have := Nat.mul_le_mul_right (signalBound p.edges.length d) (Nat.le_trans few hlen)
      simp only [signalBound]
      omega

end Graph

namespace Run

def checkedCost (p : Graph) : Nat := p.report.defects.length + p.walkCost [] p.starts + 2

/-- A bound on the signals a run still gives after the one at which it stands. -/
def work (r : Run) : Nat :=
  match r.stage with
  | .opened => r.plan.report.warnings.length + checkedCost r.plan
  | .warning rest => rest.length + checkedCost r.plan
  | .refusing rest => rest.length + 1
  | .walking queue starts => r.plan.walkCost queue starts + 2
  | .paused w queue starts => r.plan.cost w + r.plan.walkCost queue starts + 1
  | .entered w queue starts => r.plan.cost w + r.plan.walkCost queue starts
  | .noted w _ queue starts => r.plan.cost w + r.plan.walkCost queue starts - 1
  | .left w _ queue starts => r.plan.cost w + r.plan.walkCost queue starts - 2
  | .concluding => 1
  | .closing _ => 0

end Run

def Turn.work : Turn → Nat
  | .waits _ run => run.work + 1
  | .ends _ => 0

namespace Run

theorem close_work (r : Run) (e : Executor) (ending : Ending) :
    (r.close e ending).2.work = 1 := rfl

theorem conclude_work (r : Run) (e : Executor) : (r.conclude e).2.work = 1 := rfl

theorem stop_work (r : Run) (e : Executor) : (r.stop e).2.work = 2 := rfl

theorem take_work (r : Run) (e : Executor) (w : Work) (queue : List Work)
    (starts : List Node) :
    (r.take e w queue starts).2.work ≤ r.plan.cost w + r.plan.walkCost queue starts + 2 := by
  have := Graph.five_le_cost r.plan w
  unfold take
  split
  · simp only [stop_work]; omega
  · split
    · simp only [Turn.work, work, goTo]; omega
    · simp only [Turn.work, work, goTo]; omega

theorem walk_work (r : Run) (e : Executor) (queue : List Work) (starts : List Node) :
    (r.walk e queue starts).2.work ≤ r.plan.walkCost queue starts + 2 := by
  cases queue with
  | cons w queue =>
    refine Nat.le_trans (take_work r e w queue starts) ?_
    simp only [Graph.walkCost, Graph.queueCost]
    omega
  | nil =>
    cases starts with
    | nil => simp [walk, conclude_work]
    | cons n starts =>
      refine Nat.le_trans (take_work r e (Graph.seed n) [] starts) ?_
      simp only [Graph.walkCost, List.map_cons, Graph.queueCost]
      omega

theorem refuse_work (r : Run) (e : Executor) (defects : List Defect) :
    (r.refuse e defects).2.work ≤ defects.length + 1 := by
  cases defects with
  | nil => simp [refuse, conclude_work]
  | cons d rest => simp [refuse, noteSystem, Turn.work, work, goTo]

theorem warn_work (r : Run) (e : Executor) (warnings : List Warning) :
    (r.warn e warnings).2.work ≤ warnings.length + checkedCost r.plan := by
  cases warnings with
  | cons w rest =>
    simp only [warn, noteSystem, Turn.work, work, goTo, List.length_cons]
    omega
  | nil =>
    simp only [warn, checkedCost, List.length_nil]
    split
    · have := walk_work r e [] r.plan.starts; omega
    · have := refuse_work r e r.plan.report.defects; omega

theorem resume_work (r : Run) (e : Executor) : (r.resume e).2.work < r.work + 1 := by
  unfold resume
  split
  case h_1 h => have := warn_work r e r.plan.report.warnings; simp only [work, h]; omega
  case h_2 rest h => have := warn_work r e rest; simp only [work, h]; omega
  case h_3 rest h => have := refuse_work r e rest; simp only [work, h]; omega
  case h_4 queue starts h => have := walk_work r e queue starts; simp only [work, h]; omega
  case h_5 w queue starts h =>
    have := Graph.five_le_cost r.plan w
    split
    · simp only [stop_work, work, h]; omega
    · simp only [Turn.work, work, h, goTo]; omega
  case h_6 w queue starts h =>
    have := Graph.five_le_cost r.plan w
    simp only [execute, Turn.work, work, h]; omega
  case h_7 w o queue starts h =>
    have := Graph.five_le_cost r.plan w
    simp only [announce, Turn.work, work, h, goTo]; omega
  case h_8 w o queue starts h =>
    have := Graph.five_le_cost r.plan w
    unfold leave
    split
    · simp only [Turn.work, work, h, goTo]; omega
    · have bound := walk_work r e (queue ++ r.plan.followers w o) starts
      have followers := Graph.cost_followers r.plan w o
      simp only [Graph.walkCost, Graph.queueCost_append] at bound
      simp only [work, h, Graph.walkCost]
      omega
  case h_9 h => simp only [conclude_work, work, h]; omega
  case h_10 ending h => simp only [Turn.work, work, h]; omega

theorem breakOff_work (r : Run) (e : Executor) (i : Interrupt) :
    (r.breakOff e i).2.work < r.work + 1 := by
  unfold breakOff
  split
  · exact Nat.succ_pos _
  · exact Nat.succ_pos _
  · rename_i h₁ h₂
    rw [close_work]
    unfold work
    split <;> try omega
    case h_1 h => exact absurd h h₁
    case h_6 => have := Graph.five_le_cost r.plan ‹_›; omega
    case h_7 => have := Graph.five_le_cost r.plan ‹_›; omega
    case h_8 => have := Graph.five_le_cost r.plan ‹_›; omega
    case h_10 ending h => exact absurd h (h₂ ending)
    all_goals simp [checkedCost]; try omega

theorem proceed_work (r : Run) (e : Executor) (reply : Reply) :
    (r.proceed e reply).2.work < r.work + 1 := by
  cases reply with
  | resume => exact resume_work r e
  | interrupt i => exact breakOff_work r e i

end Run
end Workflow

import Workflow.Proofs.Run.Alone
import Workflow.Proofs.Run.Paths

/-!
# What is known of the work of a run

A run gets its work from two places: from the start nodes, and from the nodes that it
executed. So a property that the start nodes have and that goes over to what follows
(`Graph.Inherits`) holds of all work that is before a run, and of all work that it notes as
done without an error, whatever its surroundings do. `Turn.Carries` is what the steps of a
run keep of it. What a run notes that nobody interferes with follows from its visits
(`Graph.exists_result_vouched`).
-/

namespace Workflow

/-- An entry notes what the execution of a piece of work gave. -/
def LogEntry.Notes (entry : LogEntry) (w : Work) : Prop :=
  ∃ time, entry = Visit.line ⟨w.node, w.input, executeNode w.node w.input, true⟩ time

/-- A property that work has from the start nodes on. -/
structure Graph.Inherits (g : Graph) (starts : List Node) (P : Work → Prop) : Prop where
  seed : ∀ n ∈ starts, P (Graph.seed n)
  next : ∀ w, P w → ∀ v ∈ g.followers w (executeNode w.node w.input), P v

/-- A queue of work with a property, and behind it some of the start nodes. -/
structure Queued (P : Work → Prop) (starts : List Node) (queue : List Work) (rest : List Node) :
    Prop where
  work : ∀ w ∈ queue, P w
  rest : ∀ n ∈ rest, n ∈ starts

namespace Queued

variable {g : Graph} {P : Work → Prop} {starts rest : List Node} {queue : List Work} {w : Work}

theorem tail (h : Queued P starts (w :: queue) rest) : Queued P starts queue rest :=
  ⟨fun v hv => h.work v (List.mem_cons_of_mem _ hv), h.rest⟩

theorem append (h : Queued P starts queue rest) {more : List Work} (hmore : ∀ w ∈ more, P w) :
    Queued P starts (queue ++ more) rest :=
  ⟨fun v hv => (List.mem_append.mp hv).elim (h.work v) (hmore v), h.rest⟩

theorem seed (hP : g.Inherits starts P) {n : Node} (h : Queued P starts [] (n :: rest)) :
    Queued P starts [Graph.seed n] rest := by
  obtain ⟨hn, hrest⟩ := List.forall_mem_cons.mp h.rest
  exact ⟨List.forall_mem_singleton.mpr (hP.seed n hn), hrest⟩

theorem pending (hP : g.Inherits starts P) (h : Queued P starts queue rest) :
    ∀ w ∈ queue ++ rest.map Graph.seed, P w := by
  intro w hw
  rcases List.mem_append.mp hw with hw | hw
  · exact h.work w hw
  · obtain ⟨n, hn, rfl⟩ := List.mem_map.mp hw
    exact hP.seed n (h.rest n hn)

end Queued

/-- What is known at a stage of a run with the given start nodes. -/
def Stage.Carries (g : Graph) (starts : List Node) (P : Work → Prop) : Stage → Prop
  | .opened | .warning _ | .refusing _ => starts = g.starts
  | .walking queue rest => Queued P starts queue rest
  | .paused w queue rest | .entered w queue rest =>
    ¬ w.revisits = true ∧ Queued P starts (w :: queue) rest
  | .noted w o queue rest | .left w o queue rest =>
    ¬ w.revisits = true ∧ o = executeNode w.node w.input ∧ Queued P starts (w :: queue) rest
  | .concluding | .closing _ => True

theorem Stage.Carries.pending {g : Graph} {starts : List Node} {P : Work → Prop}
    (hP : g.Inherits starts P) {stage : Stage} (h : stage.Carries g starts P) :
    ∀ w ∈ stage.pending, P w := by
  cases stage with
  | walking => exact Queued.pending hP h
  | paused | entered => exact Queued.pending hP h.2
  | noted | left => exact Queued.pending hP h.2.2
  | opened | warning | refusing | concluding | closing => exact fun w hw => nomatch hw

/-- An entry that tells of no error notes work with the property. -/
def LogEntry.Vouched (P : Work → Prop) (entry : LogEntry) : Prop :=
  entry.status = .success → ∃ w, P w ∧ ¬ w.revisits = true ∧ entry.Notes w

/-- What is known of a run where it stands. -/
structure Run.Carries (g : Graph) (starts : List Node) (P : Work → Prop) (signal : Signal)
    (r : Run) : Prop where
  plan : r.plan = g
  stage : r.stage.Carries g starts P
  entry : ∀ entry, signal = .event (.log entry) → entry.Vouched P

def Turn.Carries (g : Graph) (starts : List Node) (P : Work → Prop) : Turn → Prop
  | .waits signal r => r.Carries g starts P signal
  | .ends _ => True

namespace Run

variable {g : Graph} {starts : List Node} {P : Work → Prop}

section

variable {r : Run} (hplan : r.plan = g) (e : Executor)
include hplan

theorem carries_noteSystem {status : LogStatus} (hstatus : status ≠ .success)
    (message : String) (stage : Stage) (hstage : stage.Carries g starts P) :
    (r.noteSystem e status message stage).2.Carries g starts P := by
  refine ⟨hplan, hstage, ?_⟩
  rintro entry ⟨⟩ hsuccess
  exact absurd hsuccess hstatus

theorem carries_stop : (r.stop e).2.Carries g starts P := by
  have hskipped : LogStatus.skipped ≠ .success := nofun
  exact carries_noteSystem (r := { r with status := .cancelled }) hplan e hskipped _ .concluding
    trivial

theorem carries_conclude : (r.conclude e).2.Carries g starts P := ⟨hplan, trivial, nofun⟩

theorem carries_take {w : Work} {queue : List Work} {rest : List Node}
    (hqueued : Queued P starts (w :: queue) rest) :
    (r.take e w queue rest).2.Carries g starts P := by
  unfold take
  split
  · exact carries_stop hplan e
  · split
    · refine ⟨hplan, hqueued.tail, ?_⟩
      rintro entry ⟨⟩ hsuccess
      cases hsuccess
    · rename_i hfresh
      exact ⟨hplan, ⟨hfresh, hqueued⟩, nofun⟩

theorem carries_refuse (hstarts : starts = g.starts) (defects : List Defect) :
    (r.refuse e defects).2.Carries g starts P := by
  cases defects with
  | cons d rest =>
      have herror : LogStatus.error ≠ .success := nofun
      exact carries_noteSystem hplan e herror _ (.refusing rest) hstarts
  | nil => exact carries_conclude (r := { r with status := .invalid }) hplan e

variable (hP : g.Inherits starts P)
include hP

theorem carries_walk {queue : List Work} {rest : List Node}
    (hqueued : Queued P starts queue rest) :
    (r.walk e queue rest).2.Carries g starts P := by
  cases queue with
  | cons w queue => exact carries_take hplan e hqueued
  | nil =>
      cases rest with
      | cons n rest => exact carries_take hplan e (hqueued.seed hP)
      | nil => exact carries_conclude hplan e

theorem carries_warn (hstarts : starts = g.starts) (warnings : List Warning) :
    (r.warn e warnings).2.Carries g starts P := by
  cases warnings with
  | cons w rest =>
      have hskipped : LogStatus.skipped ≠ .success := nofun
      exact carries_noteSystem hplan e hskipped _ (.warning rest) hstarts
  | nil =>
      show (if r.plan.report.valid = true then _ else _ : Executor × Turn).2.Carries g starts P
      split
      · refine carries_walk hplan e hP ⟨nofun, fun n hn => ?_⟩
        rw [hplan, ← hstarts] at hn
        exact hn
      · exact carries_refuse hplan e hstarts _

theorem carries_leave {w : Work} {queue : List Work} {rest : List Node}
    (hqueued : Queued P starts (w :: queue) rest) :
    (r.leave e w (executeNode w.node w.input) queue rest).2.Carries g starts P := by
  unfold leave
  split
  · exact ⟨hplan, hqueued.tail, nofun⟩
  · rw [hplan]
    have hw : P w := hqueued.work w List.mem_cons_self
    exact carries_walk hplan e hP (hqueued.tail.append (hP.next w hw))

end

variable (hP : g.Inherits starts P) {signal : Signal} {r : Run}
include hP

theorem Carries.resume (h : r.Carries g starts P signal) (e : Executor) :
    (r.resume e).2.Carries g starts P := by
  obtain ⟨hplan, hstage, -⟩ := h
  unfold Run.resume
  cases hat : r.stage with
  | opened | warning rest =>
      rw [hat] at hstage
      exact carries_warn hplan e hP hstage _
  | refusing rest =>
      rw [hat] at hstage
      exact carries_refuse hplan e hstage rest
  | walking queue rest =>
      rw [hat] at hstage
      exact carries_walk hplan e hP hstage
  | paused w queue rest =>
      rw [hat] at hstage
      dsimp only
      split
      · exact carries_stop hplan e
      · exact ⟨hplan, hstage, nofun⟩
  | entered w queue rest =>
      rw [hat] at hstage
      have hw : P w := hstage.2.work w List.mem_cons_self
      refine ⟨hplan, ⟨hstage.1, rfl, hstage.2⟩, ?_⟩
      rintro entry ⟨⟩ -
      exact ⟨w, hw, hstage.1, _, rfl⟩
  | noted w o queue rest =>
      rw [hat] at hstage
      exact ⟨hplan, hstage, nofun⟩
  | left w o queue rest =>
      rw [hat] at hstage
      obtain ⟨-, rfl, hqueued⟩ := hstage
      exact carries_leave hplan e hP hqueued
  | concluding => exact carries_conclude hplan e
  | closing ending => exact trivial

omit hP in
theorem Carries.breakOff (h : r.Carries g starts P signal) (e : Executor) (i : Interrupt) :
    (r.breakOff e i).2.Carries g starts P := by
  unfold Run.breakOff
  split
  · exact trivial
  · exact trivial
  · exact ⟨h.plan, trivial, nofun⟩

end Run

namespace Turn

variable {g : Graph} {starts : List Node} {P : Work → Prop} (hP : g.Inherits starts P)
include hP

theorem Carries.step {t t' : Turn} (h : t.Carries g starts P) (hstep : Follows t t') :
    t'.Carries g starts P := by
  cases hstep with
  | reply signal r e reply =>
      cases reply with
      | resume => exact Run.Carries.resume hP h e
      | interrupt i => exact Run.Carries.breakOff h e i

/-- **What is known of all work is known wherever a run stands**, whatever its surroundings
did. -/
theorem Carries.of_reaches {t t' : Turn} (h : t.Carries g starts P)
    (hreach : Relation.ReflTransGen Follows t t') : t'.Carries g starts P := by
  induction hreach with
  | refl => exact h
  | tail _ hstep ih => exact ih.step hP hstep

end Turn

theorem Run.carries_start (g : Graph) (P : Work → Prop) (e : Executor) :
    (Run.start g e).2.Carries g g.starts P := by
  unfold start
  split
  · exact trivial
  · exact ⟨rfl, rfl, nofun⟩

theorem Run.carries_walkFrom (g : Graph) {P : Work → Prop} {w : Work} (hw : P w) :
    (Turn.waits .pause (Run.walkFrom g w)).Carries g [] P :=
  ⟨rfl, ⟨List.forall_mem_singleton.mpr hw, nofun⟩, nofun⟩

/-! ## A run alone -/

theorem Queued.visit {g : Graph} {P : Work → Prop} {starts : List Node}
    (hP : g.Inherits starts P) :
    ∀ {queue : List Work} {rest : List Node}, Queued P starts queue rest →
      ∀ v ∈ g.visits queue rest, ∃ w, P w ∧ v = (g.tree w).root
  | [], [], _, v, hv => by
      rw [Graph.visits_nil_nil] at hv
      cases hv
  | w :: queue, rest, h, v, hv => by
      have hw : P w := h.work w List.mem_cons_self
      rw [Graph.visits_cons] at hv
      rcases List.mem_cons.mp hv with rfl | hv
      · exact ⟨w, hw, rfl⟩
      · exact (h.tail.append (hP.next w hw)).visit hP v hv
  | [], n :: rest, h, v, hv => by
      rw [Graph.visits_nil_cons] at hv
      exact (h.seed hP).visit hP v hv
termination_by queue rest => (g.walkCost queue rest, rest.length)
decreasing_by
  · refine Prod.Lex.left _ _ ?_
    have hless := Graph.cost_followers g w (executeNode w.node w.input)
    simp only [Graph.walkCost, Graph.queueCost_append, Graph.queueCost]
    omega
  · have hsame : g.walkCost [Graph.seed n] rest = g.walkCost [] (n :: rest) := by
      simp only [Graph.walkCost, Graph.queueCost, List.map_cons, Nat.add_zero, Nat.zero_add]
    rw [hsame]
    exact Prod.Lex.right _ (Nat.lt_succ_self _)

theorem mem_stamped : ∀ {lines : List Line} {clock : Nat} {entry : LogEntry},
    entry ∈ stamped clock lines → ∃ line ∈ lines, ∃ time, entry = line time
  | line :: lines, clock, entry, h => by
      rcases List.mem_cons.mp h with rfl | h
      · exact ⟨line, List.mem_cons_self, _, rfl⟩
      · obtain ⟨other, hother, htime⟩ := mem_stamped h
        exact ⟨other, List.mem_cons_of_mem _ hother, htime⟩

theorem Work.vouched_visit {g : Graph} {P : Work → Prop} {w : Work} (hw : P w)
    (time : Instant) :
    ((g.tree w).root.line time).Vouched P := by
  intro hsuccess
  by_cases hpassed : w.revisits = true
  · rw [Graph.tree_of_revisits hpassed] at hsuccess
    cases hsuccess
  · rw [Graph.root_tree_of_fresh hpassed]
    exact ⟨w, hw, hpassed, time, rfl⟩

/-- What a run notes alone tells of no error only for work with the property. -/
theorem Graph.exists_result_vouched {g : Graph} {P : Work → Prop}
    (hP : g.Inherits g.starts P) {e : Executor} (hidle : e.executing = false) :
    ∃ result, (g.run e).1 = .returned result
      ∧ result.status = (if g.report.valid then .completed else .invalid)
      ∧ ∀ entry ∈ result.logs, entry.Vouched P := by
  obtain ⟨result, hresult, hstatus, -, hlogs⟩ := g.run_alone hidle
  refine ⟨result, hresult, hstatus, fun entry hentry => ?_⟩
  have hkept : entry ∈ stamped (e.clock + 1) g.account := by
    rw [hlogs] at hentry
    unfold Executor.keep at hentry
    split at hentry
    · exact mem_of_mem_keepLast hentry
    · exact hentry
  obtain ⟨line, hline, time, rfl⟩ := mem_stamped hkept
  rcases List.mem_append.mp hline with hwarning | hrest
  · obtain ⟨w, -, rfl⟩ := List.mem_map.mp hwarning
    exact nofun
  · split at hrest
    · obtain ⟨v, hv, rfl⟩ := List.mem_map.mp hrest
      have hqueued : Queued P g.starts [] g.starts := ⟨nofun, fun n hn => hn⟩
      obtain ⟨w, hw, rfl⟩ := hqueued.visit hP v hv
      exact Work.vouched_visit hw time
    · obtain ⟨d, -, rfl⟩ := List.mem_map.mp hrest
      exact nofun

end Workflow

import Workflow.Proofs.Run.Log
import Workflow.Proofs.Run.Paths
import Workflow.Proofs.Run.Surroundings

/-!
# Cancelled runs

What a run of a valid workflow executes is settled before it begins: the level order of its
execution trees, its itinerary. A pause stands before each visit of it and nowhere else, so a
run that is cancelled executes as many nodes as it passed pauses before, whatever it was
doing when the wish came (`Stands`, and `Stands.step` for one step of it). The wish is read
at two places only, when work is taken and when the pause before it is over, and both are
before the visit that the next pause belongs to: nothing is noted but that the run was
cancelled.

The headline is `Graph.run_cancelled_at`.
-/

namespace Workflow

/-! ## What a run has done after so many pauses -/

def cancelLine : Line := fun time =>
  ⟨systemId, "System", .start, [], [], time, .skipped, cancelMessage⟩

namespace Graph

/-- All that a run of a valid workflow visits when nobody interferes with it. -/
def itinerary (g : Graph) : List Visit := g.visits [] g.starts

/-- A single piece of work is visited, and what follows it comes next. -/
theorem visits_singleton {g : Graph} {w : Work} {rest : List Work} (starts : List Node)
    (hfresh : ¬ w.revisits = true)
    (hrest : g.followers w (executeNode w.node w.input) = rest) :
    g.visits [w] starts
      = ⟨w.node, w.input, executeNode w.node w.input, true⟩ :: g.visits rest starts := by
  rw [visits_cons, root_tree_of_fresh hfresh, List.nil_append, hrest]

/-- The log of such a run when nothing is dropped, with the times of a clock. -/
def ledger (g : Graph) (clock : Nat) : List LogEntry :=
  stamped clock (g.report.warnings.map Warning.line ++ g.itinerary.map Visit.line)

/-- What a run has noted that executed the given number of nodes. -/
def linesUpTo (g : Graph) (passed : Nat) : List Line :=
  g.report.warnings.map Warning.line ++ (g.itinerary.take passed).map Visit.line

/-- All that a run notes that executes the given number of nodes and no more. -/
def linesOf (g : Graph) (passed : Nat) : List Line :=
  g.linesUpTo passed ++ if passed < g.itinerary.length then [cancelLine] else []

/-- What a run gives in the end that passed so many pauses, when its log began with that of
an executor. It stops ahead of its time only if it was asked to. -/
structure Stopped (g : Graph) (base : Executor) (passed : Nat) (asked : Bool) (r : RunResult) :
    Prop where
  asked_of_lt : passed < g.itinerary.length → asked = true
  status : r.status = if passed < g.itinerary.length then .cancelled else .completed
  visited : r.visited = (g.itinerary.take passed).map (·.node.id)
  logs : r.logs = (base.writeAll (g.linesOf passed)).logs

/-- A run of the workflow that executed so many nodes. -/
def standing (g : Graph) (started : Instant) (executed : Nat) (stage : Stage) : Run :=
  ⟨g, started, (g.itinerary.take executed).map (·.node.id), .completed, stage⟩

end Graph

/-- The executor with or without a wish to cancel its run. -/
def Executor.asked (e : Executor) (asked : Bool) : Executor :=
  { e with cancelRequested := asked }

/-- Where a run of a valid workflow stands that nobody breaks off: how many pauses it has
passed, and whether it was asked to stop. At each stage the executor holds the lines of the
nodes that were executed, and what is still to be visited is the rest of the itinerary. -/
inductive Stands (g : Graph) (base : Executor) (started : Instant) :
    Nat → Bool → Executor × Turn → Prop
  | opened (asked : Bool) (event : Event) :
      Stands g base started 0 asked
        (base.asked asked, .waits (.event event) (g.standing started 0 .opened))
  | warning {noted rest : List Warning} (hnoted : g.report.warnings = noted ++ rest)
      (asked : Bool) (event : Event) :
      Stands g base started 0 asked
        ((base.writeAll (noted.map Warning.line)).asked asked,
          .waits (.event event) (g.standing started 0 (.warning rest)))
  | walking {n : Nat} {queue : List Work} {starts : List Node} (hpaths : g.OnPaths queue starts)
      (hahead : g.visits queue starts = g.itinerary.drop n) (asked : Bool) (event : Event) :
      Stands g base started n asked
        ((base.writeAll (g.linesUpTo n)).asked asked,
          .waits (.event event) (g.standing started n (.walking queue starts)))
  | paused {n : Nat} {w : Work} {queue : List Work} {starts : List Node}
      (hpaths : g.OnPaths (w :: queue) starts)
      (hahead : g.visits (w :: queue) starts = g.itinerary.drop n) (asked : Bool) :
      Stands g base started n asked
        ((base.writeAll (g.linesUpTo n)).asked asked,
          .waits .pause (g.standing started n (.paused w queue starts)))
  | entered {n : Nat} {w : Work} {queue : List Work} {starts : List Node}
      (hpaths : g.OnPaths (w :: queue) starts)
      (hahead : g.visits (w :: queue) starts = g.itinerary.drop n) (asked : Bool) (event : Event) :
      Stands g base started (n + 1) asked
        ((base.writeAll (g.linesUpTo n)).asked asked,
          .waits (.event event) (g.standing started n (.entered w queue starts)))
  | noted {n : Nat} {w : Work} {o : Outcome} {queue : List Work} {starts : List Node}
      (hpaths : g.OnPaths (queue ++ g.followers w o) starts)
      (hahead : g.visits (queue ++ g.followers w o) starts = g.itinerary.drop n) (asked : Bool)
      (event : Event) :
      Stands g base started n asked
        ((base.writeAll (g.linesUpTo n)).asked asked,
          .waits (.event event) (g.standing started n (.noted w o queue starts)))
  | left {n : Nat} {w : Work} {o : Outcome} {queue : List Work} {starts : List Node}
      (hpaths : g.OnPaths (queue ++ g.followers w o) starts)
      (hahead : g.visits (queue ++ g.followers w o) starts = g.itinerary.drop n) (asked : Bool)
      (event : Event) :
      Stands g base started n asked
        ((base.writeAll (g.linesUpTo n)).asked asked,
          .waits (.event event) (g.standing started n (.left w o queue starts)))
  | concluding {n : Nat} (hshort : n < g.itinerary.length) (event : Event) :
      Stands g base started n true
        ((base.writeAll (g.linesOf n)).asked true,
          .waits (.event event) { g.standing started n .concluding with status := .cancelled })
  | closing {n : Nat} {asked : Bool} {r : Run} {result : RunResult}
      (hstage : r.stage = .closing (.returned result)) (hstopped : g.Stopped base n asked result)
      (e : Executor) (event : Event) :
      Stands g base started n asked (e.release, .waits (.event event) r)
  | ended {n : Nat} {asked : Bool} {result : RunResult}
      (hstopped : g.Stopped base n asked result) (e : Executor) :
      Stands g base started n asked (e.release, .ends (.returned result))

/-! ## One step -/

namespace Executor

theorem asked_write (e : Executor) (asked : Bool) (line : Line) :
    (e.asked asked).write line = (e.write line).asked asked := rfl

theorem asked_writeAll_write (e : Executor) (asked : Bool) (lines : List Line) (line : Line) :
    ((e.writeAll lines).asked asked).write line = (e.writeAll (lines ++ [line])).asked asked := by
  rw [asked_write, writeAll_append]
  rfl

end Executor

namespace Stands

variable {g : Graph} {base : Executor} {started : Instant}

/-- What one piece of work does to the itinerary: its visit comes next. -/
theorem ahead_cons {w : Work} {queue : List Work} {starts : List Node} {n : Nat}
    (hahead : g.visits (w :: queue) starts = g.itinerary.drop n) :
    n < g.itinerary.length
      ∧ g.itinerary.take (n + 1) = g.itinerary.take n ++ [(g.tree w).root]
      ∧ g.visits (queue ++ g.followers w (executeNode w.node w.input)) starts
        = g.itinerary.drop (n + 1) := by
  rw [Graph.visits_cons] at hahead
  have hlt : n < g.itinerary.length := by
    refine Nat.lt_of_not_le fun hle => ?_
    rw [List.drop_of_length_le hle] at hahead
    cases hahead
  rw [List.drop_eq_getElem_cons hlt] at hahead
  obtain ⟨hroot, hrest⟩ := List.cons.inj hahead
  exact ⟨hlt, by rw [hroot, List.take_append_getElem], hrest⟩

theorem linesUpTo_succ {v : Visit} {n : Nat}
    (htake : g.itinerary.take (n + 1) = g.itinerary.take n ++ [v]) :
    g.linesUpTo (n + 1) = g.linesUpTo n ++ [v.line] := by
  rw [Graph.linesUpTo, Graph.linesUpTo, htake, List.map_append, List.map_singleton,
    List.append_assoc]

/-- A run that reads the wish to stop it notes this and nothing more. -/
theorem of_stop {n : Nat} (hshort : n < g.itinerary.length) (stage : Stage) :
    Stands g base started n true
      ((g.standing started n stage).stop ((base.writeAll (g.linesUpTo n)).asked true)) := by
  have hwritten : ((base.writeAll (g.linesUpTo n)).asked true).write cancelLine
      = (base.writeAll (g.linesOf n)).asked true := by
    rw [Executor.asked_writeAll_write, Graph.linesOf, if_pos hshort]
  show Stands g base started n true
    (((base.writeAll (g.linesUpTo n)).asked true).write cancelLine, .waits _ _)
  rw [hwritten]
  exact .concluding hshort _

theorem of_conclude {r : Run} {n : Nat} {asked : Bool} {e : Executor}
    (hstopped : ∀ finished, g.Stopped base n asked
      ⟨r.status, r.visited, e.logs, some r.started, some finished⟩) :
    Stands g base started n asked (r.conclude e) := .closing rfl (hstopped _) _ _

section

variable (hvalid : g.report.valid = true)
include hvalid

theorem of_take {n : Nat} (asked : Bool) {w : Work} {queue : List Work} {starts : List Node}
    (hpaths : g.OnPaths (w :: queue) starts)
    (hahead : g.visits (w :: queue) starts = g.itinerary.drop n) (stage : Stage) :
    Stands g base started n asked
      ((g.standing started n stage).take ((base.writeAll (g.linesUpTo n)).asked asked) w queue
        starts) := by
  have hfresh := (hpaths.1 w List.mem_cons_self).not_revisits hvalid
  cases asked with
  | true => exact of_stop (ahead_cons hahead).1 stage
  | false =>
      have hgo : ¬ ((base.writeAll (g.linesUpTo n)).asked false).cancelRequested = true :=
        Bool.false_ne_true
      unfold Run.take
      rw [if_neg hgo, if_neg hfresh]
      exact .paused hpaths hahead false

theorem of_walk {n : Nat} (asked : Bool) {queue : List Work} {starts : List Node}
    (hpaths : g.OnPaths queue starts)
    (hahead : g.visits queue starts = g.itinerary.drop n) (stage : Stage) :
    Stands g base started n asked
      ((g.standing started n stage).walk ((base.writeAll (g.linesUpTo n)).asked asked) queue
        starts) := by
  cases queue with
  | cons w queue => exact of_take hvalid asked hpaths hahead stage
  | nil =>
      cases starts with
      | cons s starts =>
          rw [Graph.visits_nil_cons] at hahead
          exact of_take hvalid asked hpaths.begin hahead stage
      | nil =>
          rw [Graph.visits_nil_nil] at hahead
          have hall : ¬ n < g.itinerary.length :=
            Nat.not_lt.mpr (List.drop_eq_nil_iff.mp hahead.symm)
          refine of_conclude fun finished => ⟨fun hlt => absurd hlt hall, ?_, rfl, ?_⟩
          · rw [if_neg hall]
            rfl
          · rw [Graph.linesOf, if_neg hall, List.append_nil]
            rfl

theorem of_warn (asked : Bool) {noted rest : List Warning}
    (hnoted : g.report.warnings = noted ++ rest) (stage : Stage) :
    Stands g base started 0 asked
      ((g.standing started 0 stage).warn ((base.writeAll (noted.map Warning.line)).asked asked)
        rest) := by
  cases rest with
  | cons warning rest =>
      have hwritten : ((base.writeAll (noted.map Warning.line)).asked asked).write warning.line
          = (base.writeAll ((noted ++ [warning]).map Warning.line)).asked asked := by
        rw [Executor.asked_writeAll_write, List.map_append, List.map_singleton]
      show Stands g base started 0 asked
        (((base.writeAll (noted.map Warning.line)).asked asked).write warning.line, .waits _ _)
      rw [hwritten]
      exact .warning (hnoted.trans (List.append_cons noted warning rest)) asked _
  | nil =>
      have hlines : noted.map Warning.line = g.linesUpTo 0 := by
        rw [List.append_nil] at hnoted
        rw [Graph.linesUpTo, hnoted, List.take_zero, List.map_nil, List.append_nil]
      have hwalks : ∀ e, (g.standing started 0 stage).warn e []
          = (g.standing started 0 stage).walk e [] g.starts := fun e => if_pos hvalid
      have hbegin : g.OnPaths [] g.starts := ⟨nofun, fun n hn => hn⟩
      rw [hlines, hwalks]
      exact of_walk hvalid asked hbegin rfl stage

theorem of_execute {n : Nat} (asked : Bool) {w : Work} {queue : List Work}
    {starts : List Node} (hpaths : g.OnPaths (w :: queue) starts)
    (hahead : g.visits (w :: queue) starts = g.itinerary.drop n) (stage : Stage) :
    Stands g base started (n + 1) asked
      ((g.standing started n stage).execute ((base.writeAll (g.linesUpTo n)).asked asked) w queue
        starts) := by
  obtain ⟨-, htake, hrest⟩ := ahead_cons hahead
  rw [Graph.root_tree_of_fresh ((hpaths.1 w List.mem_cons_self).not_revisits hvalid)] at htake
  have hfollow : g.OnPaths (queue ++ g.followers w (executeNode w.node w.input)) starts :=
    hpaths.tail.append fun v hv => (hpaths.1 w List.mem_cons_self).followers hv
  have hnoted : ∀ event, Stands g base started (n + 1) asked (_, .waits (.event event) _) :=
    fun event => .noted hfollow hrest asked event
  rw [linesUpTo_succ htake, ← Executor.asked_writeAll_write, Graph.standing, htake,
    List.map_append, List.map_singleton] at hnoted
  exact hnoted _

/-- **One step of a run that nobody breaks off.** It passes a pause if it stands at one and
was not asked to stop. -/
theorem step {n : Nat} {asked : Bool} {e : Executor} {signal : Signal} {r : Run}
    (h : Stands g base started n asked (e, .waits signal r)) :
    Stands g base started (if signal = .pause ∧ asked = false then n + 1 else n) asked
      (r.resume e) := by
  have hstay : ∀ event, ¬ (Signal.event event = .pause ∧ asked = false) := nofun
  cases h with
  | opened asked event =>
      have hnone : g.report.warnings = [] ++ g.report.warnings := rfl
      rw [if_neg (hstay event)]
      exact of_warn hvalid asked hnone .opened
  | @warning noted rest hnoted asked event =>
      rw [if_neg (hstay event)]
      exact of_warn hvalid asked hnoted (.warning rest)
  | @walking n queue starts hpaths hahead asked event =>
      rw [if_neg (hstay event)]
      exact of_walk hvalid asked hpaths hahead (.walking queue starts)
  | @paused n w queue starts hpaths hahead asked =>
      cases asked with
      | true =>
          rw [if_neg (by rintro ⟨-, h⟩; cases h)]
          exact of_stop (ahead_cons hahead).1 (.paused w queue starts)
      | false =>
          rw [if_pos ⟨rfl, rfl⟩]
          exact .entered hpaths hahead false _
  | @entered n w queue starts hpaths hahead asked event =>
      rw [if_neg (hstay event)]
      exact of_execute hvalid asked hpaths hahead (.entered w queue starts)
  | noted hpaths hahead asked event =>
      rw [if_neg (hstay event)]
      exact .left hpaths hahead asked _
  | @left n w o queue starts hpaths hahead asked event =>
      rw [if_neg (hstay event)]
      show Stands g base started n asked (Run.leave _ _ w o queue starts)
      unfold Run.leave
      by_cases herror : o.status = .error
      · have hnone : g.followers w o = [] := if_pos (Or.inl herror)
        rw [hnone, List.append_nil] at hpaths hahead
        rw [if_pos herror]
        exact .walking hpaths hahead asked _
      · rw [if_neg herror]
        exact of_walk hvalid asked hpaths hahead (.left w o queue starts)
  | concluding hshort event =>
      rw [if_neg (hstay event)]
      refine of_conclude fun finished => ⟨fun _ => rfl, ?_, rfl, rfl⟩
      rw [if_pos hshort]
  | @closing n asked r result hstage hstopped e event =>
      rw [if_neg (hstay event)]
      unfold Run.resume
      rw [hstage]
      exact .ended hstopped e

end

/-- A run may be asked to stop at every signal, and once it is over this does nothing. -/
theorem cancel (hbusy : base.executing = true) {n : Nat} {asked : Bool} {e : Executor}
    {t : Turn} (h : Stands g base started n asked (e, t)) :
    Stands g base started n true (e.cancel, t) := by
  have hcancel : ∀ lines, ((base.writeAll lines).asked asked).cancel
      = (base.writeAll lines).asked true :=
    fun lines => if_pos ((base.executing_writeAll lines).trans hbusy)
  cases h with
  | opened asked event =>
      have hopened : (base.asked asked).cancel = base.asked true := hcancel []
      rw [hopened]
      exact .opened true event
  | warning hnoted asked event =>
      rw [hcancel]
      exact .warning hnoted true event
  | walking hpaths hahead asked event =>
      rw [hcancel]
      exact .walking hpaths hahead true event
  | paused hpaths hahead asked =>
      rw [hcancel]
      exact .paused hpaths hahead true
  | entered hpaths hahead asked event =>
      rw [hcancel]
      exact .entered hpaths hahead true event
  | noted hpaths hahead asked event =>
      rw [hcancel]
      exact .noted hpaths hahead true event
  | left hpaths hahead asked event =>
      rw [hcancel]
      exact .left hpaths hahead true event
  | concluding hshort event =>
      rw [hcancel]
      exact .concluding hshort event
  | closing hstage hstopped e event =>
      exact .closing hstage { hstopped with asked_of_lt := fun _ => rfl } e event
  | ended hstopped e => exact .ended { hstopped with asked_of_lt := fun _ => rfl } e

theorem start {g : Graph} {e : Executor} (hidle : e.executing = false) :
    Stands g e.begin.readClock.2 ⟨e.clock + 1⟩ 0 false (Run.start g e) := by
  rw [Run.start_of_idle g hidle]
  exact .opened false _

/-- A run that has ended gave a result and left the executor free. -/
theorem result {n : Nat} {asked : Bool} {e : Executor} {ending : Ending}
    (h : Stands g base started n asked (e, .ends ending)) :
    ∃ result, ending = .returned result ∧ g.Stopped base n asked result
      ∧ e.executing = false ∧ e.cancelRequested = false := by
  cases h with
  | ended hstopped e => exact ⟨_, rfl, hstopped, rfl, rfl⟩

end Stands

/-! ## What a run executes -/

namespace Graph

section

variable {g : Graph} (hvalid : g.report.valid = true) {e : Executor} (hidle : e.executing = false)
include hvalid hidle

/-- Whatever its surroundings do but break it off, a run executes a first part of its
itinerary, and all of it unless they cancel it. -/
theorem run_stopped {ω : Type} {env : Environment ω} {may : Prop} {P : ω → Prop}
    (honly : env.OnlyCancels may P) {w : ω} (hw : P w) :
    ∃ result n asked, (env.run g e w).1 = .returned result
      ∧ g.Stopped e.begin.readClock.2 n asked result ∧ (asked = true → may)
      ∧ P (env.run g e w).2.2 := by
  obtain ⟨⟨n, asked, hends, hmay⟩, hkept⟩ := env.drive_keeps
    (P := fun e' w t =>
      (∃ n asked, Stands g e.begin.readClock.2 ⟨e.clock + 1⟩ n asked (e', t) ∧ (asked = true → may))
        ∧ P w)
    (by
      rintro signal r e' w ⟨⟨n, asked, hstands, hasked⟩, hw⟩
      obtain ⟨hreply, hexecutor, hkept⟩ := honly signal e' w hw
      rw [hreply]
      refine ⟨?_, hkept⟩
      rcases hexecutor with hsame | ⟨hmay, hcancelled⟩
      · rw [hsame]
        exact ⟨_, asked, hstands.step hvalid, hasked⟩
      · rw [hcancelled]
        exact ⟨_, true, (hstands.cancel rfl).step hvalid, fun _ => hmay⟩)
    _ w _ ⟨⟨0, false, .start hidle, nofun⟩, hw⟩
  obtain ⟨result, hresult, hstopped, -⟩ := hends.result
  exact ⟨result, n, asked, hresult, hstopped, hmay, hkept⟩

/-- Left alone, a run visits its whole itinerary and notes its ledger. -/
theorem run_whole :
    ∃ full, (g.run e).1 = .returned full
      ∧ full.status = .completed
      ∧ full.visited = g.itinerary.map (·.node.id)
      ∧ full.logs = e.keep (g.ledger (e.clock + 1)) := by
  obtain ⟨full, n, asked, hfull, hstopped, hnever, -⟩ :=
    run_stopped hvalid hidle Environment.onlyCancels_inert (w := ()) trivial
  have hall : g.itinerary.length ≤ n :=
    Nat.le_of_not_lt fun hlt => hnever (hstopped.asked_of_lt hlt)
  refine ⟨full, hfull, ?_, ?_, ?_⟩
  · rw [hstopped.status, if_neg (Nat.not_lt.mpr hall)]
  · rw [hstopped.visited, List.take_of_length_le hall]
  · rw [hstopped.logs, Executor.logs_writeAll_begin, linesOf, if_neg (Nat.not_lt.mpr hall),
      List.append_nil, linesUpTo, List.take_of_length_le hall, ledger]

end

end Graph

/-! ## Entering nodes -/

def Signal.entered? : Signal → Option String
  | .event (.beforeNode id _ _) => some id
  | _ => none

def Turn.entered? : Turn → Option String
  | .waits signal _ => signal.entered?
  | .ends _ => none

namespace Run

theorem entered?_take (r : Run) (e : Executor) (w : Work) (queue : List Work)
    (starts : List Node) : (r.take e w queue starts).2.entered? = none := by
  unfold take
  split
  · rfl
  · split <;> rfl

theorem entered?_walk (r : Run) (e : Executor) (queue : List Work) (starts : List Node) :
    (r.walk e queue starts).2.entered? = none := by
  cases queue with
  | cons w queue => exact r.entered?_take e w queue starts
  | nil =>
      cases starts with
      | cons n starts => exact r.entered?_take e (Graph.seed n) [] starts
      | nil => rfl

theorem entered?_refuse (r : Run) (e : Executor) (defects : List Defect) :
    (r.refuse e defects).2.entered? = none := by
  cases defects <;> rfl

theorem entered?_warn (r : Run) (e : Executor) (warnings : List Warning) :
    (r.warn e warnings).2.entered? = none := by
  cases warnings with
  | cons w rest => rfl
  | nil =>
      unfold warn
      dsimp only
      split
      · exact r.entered?_walk e [] _
      · exact r.entered?_refuse e _

/-- A node is entered when the pause before it is over and nobody wished the run to stop, and
at no other time. -/
theorem entered?_resume (r : Run) (e : Executor) :
    (r.resume e).2.entered? =
      match r.stage with
      | .paused w _ _ => if e.cancelRequested then none else some w.node.id
      | _ => none := by
  unfold resume
  cases r.stage with
  | opened => exact r.entered?_warn e _
  | warning rest => exact r.entered?_warn e rest
  | refusing rest => exact r.entered?_refuse e rest
  | walking queue starts => exact r.entered?_walk e queue starts
  | paused w queue starts =>
      dsimp only
      split <;> rfl
  | left w o queue starts =>
      show (r.leave e w o queue starts).2.entered? = none
      unfold leave
      split
      · rfl
      · exact r.entered?_walk e _ _
  | entered | noted | concluding | closing => rfl

end Run

namespace Stands

/-- Each step enters the node that comes next in the itinerary, or none. -/
theorem entered?_step {g : Graph} (hvalid : g.report.valid = true) {base : Executor}
    {started : Instant} {n : Nat} {asked : Bool} {e : Executor} {signal : Signal} {r : Run}
    (h : Stands g base started n asked (e, .waits signal r)) :
    (g.itinerary.take (if signal = .pause ∧ asked = false then n + 1 else n)).map (·.node.id)
      = (g.itinerary.take n).map (·.node.id) ++ (r.resume e).2.entered?.toList := by
  have hstay : ∀ event, ¬ (Signal.event event = .pause ∧ asked = false) := nofun
  rw [Run.entered?_resume]
  cases h with
  | @paused n w queue starts hpaths hahead asked =>
      cases asked with
      | true =>
          rw [if_neg (by rintro ⟨-, h⟩; cases h)]
          exact (List.append_nil _).symm
      | false =>
          have hfresh := (hpaths.1 w List.mem_cons_self).not_revisits hvalid
          rw [if_pos ⟨rfl, rfl⟩, (ahead_cons hahead).2.1, Graph.root_tree_of_fresh hfresh,
            List.map_append]
          rfl
  | closing hstage hstopped e event =>
      rw [if_neg (hstay event), hstage]
      exact (List.append_nil _).symm
  | opened | warning | walking | entered | noted | left | concluding =>
      rw [if_neg (hstay _)]
      exact (List.append_nil _).symm

end Stands

/-! ## Cancelled at one moment -/

/-- Surroundings that count the signals of a run, cancel it at one of them, and do nothing
else. Their state is the signals seen. -/
def Environment.cancelAt (moment : Nat) : Environment (List Signal) where
  react signal e seen :=
    (.resume, if seen.length = moment then e.cancel else e, seen ++ [signal])

/-- How many pauses were over before a moment. -/
def pausesBefore (moment : Nat) (signals : List Signal) : Nat :=
  (signals.take moment).count .pause

/-- What holds of a run that is cancelled at one moment, from signal to signal. -/
structure StandsUntil (g : Graph) (base : Executor) (started : Instant) (moment : Nat)
    (e : Executor) (seen : List Signal) (t : Turn) : Prop where
  stands : Stands g base started (pausesBefore moment seen) (decide (moment < seen.length)) (e, t)
  entered : seen.filterMap Signal.entered? ++ t.entered?.toList
    = (g.itinerary.take (pausesBefore moment seen)).map (·.node.id)
  settled : moment < seen.length → (seen.take (moment + 1)).filterMap Signal.entered?
    = (g.itinerary.take (pausesBefore moment seen)).map (·.node.id)

theorem pausesBefore_append (moment : Nat) (seen : List Signal) (signal : Signal) :
    pausesBefore moment (seen ++ [signal])
      = if signal = .pause ∧ decide (moment ≤ seen.length) = false
        then pausesBefore moment seen + 1 else pausesBefore moment seen := by
  unfold pausesBefore
  rw [List.take_append]
  rcases Nat.lt_or_ge seen.length moment with hbefore | hafter
  · obtain ⟨k, hk⟩ : ∃ k, moment - seen.length = k + 1 := ⟨moment - seen.length - 1, by omega⟩
    rw [hk, List.take_succ_cons, List.take_nil, List.count_append, List.count_singleton]
    have hlate : decide (moment ≤ seen.length) = false := decide_eq_false (by omega)
    simp only [hlate, and_true, beq_iff_eq]
    split <;> rfl
  · have hnone : moment - seen.length = 0 := by omega
    have hlate : decide (moment ≤ seen.length) = true := decide_eq_true hafter
    simp only [hnone, hlate, List.take_zero, List.append_nil, Bool.true_eq_false, and_false,
      if_false]

theorem StandsUntil.step {g : Graph} (hvalid : g.report.valid = true) {base : Executor}
    (hbusy : base.executing = true) {started : Instant} {moment : Nat} {e : Executor}
    {seen : List Signal} {signal : Signal} {r : Run}
    (h : StandsUntil g base started moment e seen (.waits signal r)) :
    let e' := if seen.length = moment then e.cancel else e
    StandsUntil g base started moment (r.resume e').1 (seen ++ [signal]) (r.resume e').2 := by
  intro e'
  have hstands : Stands g base started (pausesBefore moment seen)
      (decide (moment ≤ seen.length)) (e', .waits signal r) := by
    by_cases hnow : seen.length = moment
    · have he' : e' = e.cancel := if_pos hnow
      rw [he', decide_eq_true hnow.ge]
      exact h.stands.cancel hbusy
    · have he' : e' = e := if_neg hnow
      have hsame : (moment ≤ seen.length) = (moment < seen.length) := propext ⟨by omega, by omega⟩
      simp only [he', hsame]
      exact h.stands
  have hentered : (seen ++ [signal]).filterMap Signal.entered?
      = (g.itinerary.take (pausesBefore moment seen)).map (·.node.id) := by
    rw [← h.entered, List.filterMap_append]
    rfl
  refine ⟨?_, ?_, fun hpast => ?_⟩
  · rw [pausesBefore_append, List.length_append, List.length_singleton]
    have hsame : (moment < seen.length + 1) = (moment ≤ seen.length) := propext Nat.lt_succ_iff
    simp only [hsame]
    exact hstands.step hvalid
  · rw [hentered, pausesBefore_append, hstands.entered?_step hvalid]
  · rw [List.length_append, List.length_singleton, Nat.lt_succ_iff] at hpast
    rw [pausesBefore_append, if_neg (by simp [hpast])]
    by_cases hnow : moment = seen.length
    · rw [List.take_of_length_le (by simp [hnow]), hentered]
    · rw [List.take_append_of_le_length (by omega)]
      exact h.settled (by omega)

theorem StandsUntil.start {g : Graph} {e : Executor} (hidle : e.executing = false)
    (moment : Nat) :
    StandsUntil g e.begin.readClock.2 ⟨e.clock + 1⟩ moment (Run.start g e).1 []
      (Run.start g e).2 := by
  have hnone : pausesBefore moment [] = 0 := by rw [pausesBefore, List.take_nil, List.count_nil]
  refine ⟨?_, ?_, fun hpast => absurd hpast (Nat.not_lt_zero _)⟩
  · have hnever : decide (moment < ([] : List Signal).length) = false :=
      decide_eq_false (Nat.not_lt_zero moment)
    rw [hnone, hnever]
    exact .start hidle
  · rw [hnone, Run.start_of_idle g hidle]
    rfl

namespace Graph

/-- What is noted by a run that executes so many nodes and no more, with the times of a
clock. -/
theorem stamped_linesOf (g : Graph) (clock passed : Nat) :
    stamped clock (g.linesOf passed)
      = (g.ledger clock).take (g.report.warnings.length + passed)
        ++ if passed < g.itinerary.length
          then [cancelLine ⟨clock + (g.report.warnings.length + passed) + 1⟩] else [] := by
  have hlength : (g.report.warnings.map Warning.line).length = g.report.warnings.length :=
    List.length_map _
  have htaken : stamped clock (g.linesUpTo passed)
      = (g.ledger clock).take (g.report.warnings.length + passed) := by
    rw [ledger, ← stamped_take, ← hlength, List.take_length_add_append, ← List.map_take, linesUpTo]
  rw [linesOf, stamped_append, htaken]
  congr 1
  split
  · rename_i hshort
    have hpassed : (g.linesUpTo passed).length = g.report.warnings.length + passed := by
      rw [linesUpTo, List.length_append, List.length_map, List.length_map, List.length_take]
      omega
    rw [hpassed]
    rfl
  · rfl

/-- **A run that is cancelled is a first part of the run that is not.** Whatever a run of a
valid workflow is doing when it is cancelled, it has passed some pauses by then, and it
executes as many nodes, in the order of the run left alone and all of them entered by that
moment. Its log is that of this first part. If this is not all, one entry more says that the
run was cancelled, and so does the status; else the run completes. -/
theorem run_cancelled_at {g : Graph} (hvalid : g.report.valid = true) {e : Executor}
    (hidle : e.executing = false) (moment : Nat) :
    ∃ full cut e' signals,
      (g.run e).1 = .returned full
        ∧ full.status = .completed
        ∧ full.visited = g.itinerary.map (·.node.id)
        ∧ full.logs = e.keep (g.ledger (e.clock + 1))
        ∧ (Environment.cancelAt moment).run g e [] = (.returned cut, e', signals)
        ∧ e'.executing = false ∧ e'.cancelRequested = false
        ∧ let passed := pausesBefore moment signals
          let noted := g.report.warnings.length + passed
          cut.visited = full.visited.take passed
            ∧ cut.visited = (signals.take (moment + 1)).filterMap Signal.entered?
            ∧ cut.status = (if passed < full.visited.length then .cancelled else .completed)
            ∧ cut.logs = e.keep ((g.ledger (e.clock + 1)).take noted
              ++ if passed < full.visited.length
                then [cancelLine ⟨e.clock + 1 + noted + 1⟩] else []) := by
  obtain ⟨full, hfull, hstatus, hvisited, hlogs⟩ := run_whole hvalid hidle
  have hlength : full.visited.length = g.itinerary.length := by rw [hvisited, List.length_map]
  have hends := (Environment.cancelAt moment).drive_keeps
    (P := StandsUntil g e.begin.readClock.2 ⟨e.clock + 1⟩ moment)
    (fun _ _ _ _ h => h.step hvalid rfl) _ [] _ (.start hidle moment)
  rcases hrun : (Environment.cancelAt moment).run g e [] with ⟨ending, e', signals⟩
  unfold Environment.run at hrun
  dsimp only at hrun
  rw [hrun] at hends
  dsimp only at hends
  obtain ⟨cut, rfl, hstopped, hfree, hforgot⟩ := hends.stands.result
  refine ⟨full, cut, e', signals, hfull, hstatus, hvisited, hlogs, rfl, hfree, hforgot,
    ?_, ?_, ?_, ?_⟩
  · rw [hstopped.visited, hvisited, List.map_take]
  · rcases Nat.lt_or_ge moment signals.length with hpast | hlate
    · rw [hstopped.visited, hends.settled hpast]
    · rw [List.take_of_length_le (Nat.le_succ_of_le hlate), hstopped.visited, ← hends.entered]
      exact List.append_nil _
  · rw [hstopped.status, hlength]
  · rw [hstopped.logs, Executor.logs_writeAll_begin, stamped_linesOf, hlength]

/-- A run of two nodes that is cancelled before it begins executes neither, and its log says
only that it was cancelled. -/
theorem run_cancelled_at_beginning :
    let node (id : String) (kind : NodeKind) : Node :=
      ⟨id, kind, .origin, id, some (Config.initial kind)⟩
    let g : Graph := ⟨[node "first" .start, node "last" .finish],
      [⟨"edge", "first", "last", .null, .null, .null, true⟩]⟩
    ∃ full cut e' signals,
      (g.run (.idle none 0)).1 = .returned full ∧ full.status = .completed
        ∧ (Environment.cancelAt 0).run g (.idle none 0) [] = (.returned cut, e', signals)
        ∧ cut.visited = [] ∧ cut.status = .cancelled ∧ cut.logs = [cancelLine ⟨2⟩] := by
  intro node g
  have hacyclic : Acyclic g.edges := acyclic_of_rank (["first", "last"].idxOf ·) (by decide)
  have hvalid : g.report.valid = true :=
    report_valid_iff.mpr ⟨by decide, (findCycle_eq_none_iff_acyclic (by decide)).mpr hacyclic⟩
  have hclean : g.report.warnings = [] := by decide
  obtain ⟨full, cut, e', signals, hfull, hstatus, hvisited, -, hcut, -, -, hfirst, -, hstopped,
    hlogs⟩ := run_cancelled_at (e := .idle none 0) hvalid rfl 0
  have hsome : pausesBefore 0 signals < full.visited.length := by
    have hstarts : g.starts = [node "first" .start] := rfl
    rw [hvisited, itinerary, hstarts, visits_nil_cons, visits_cons]
    exact Nat.succ_pos _
  rw [if_pos hsome] at hstopped hlogs
  rw [hclean] at hlogs
  exact ⟨full, cut, e', signals, hfull, hstatus, hcut, hfirst, hstopped, hlogs⟩

end Graph
end Workflow

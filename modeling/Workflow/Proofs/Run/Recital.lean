import Workflow.Proofs.Run.Alone
import Workflow.Proofs.Run.Cancel
import Workflow.Proofs.Run.History
import Workflow.Proofs.Run.Release

/-!
# What a run announces

Whatever its surroundings do to the executor, a run that they do not break off announces its
events in one fixed shape: its announcement, an entry for each warning, then either an entry
for each defect or, piece of work by piece of work, what belongs together about a node, then
an entry if it was cancelled, and its end. The shape is kept from stage to stage: at each of
them, what was announced so far is known from the work that is done (`Recites`, and
`Recites.step` for one step).

The headline is `Graph.run_recites`.
-/

namespace Workflow

/-! ## The events of a piece of work -/

def Event.untimed : Event → Event
  | .log entry => .log entry.untimed
  | e => e

/-- What is told at a signal, but for times. -/
def Signal.told (signal : Signal) : List Event := signal.events.map Event.untimed

def told (history : List Moment) : List Event := (announced history).map Event.untimed

theorem told_snoc (history : List Moment) (signal : Signal) (reply : Reply) :
    told (history ++ [(signal, reply)]) = told history ++ signal.told := by
  rw [told, announced_snoc, List.map_append]
  rfl

def Warning.event (w : Warning) : Event := .log (w.line ⟨0⟩)

def Defect.event (d : Defect) : Event := .log (d.line ⟨0⟩)

def cancelEvent : Event := .log (cancelLine ⟨0⟩)

namespace Work

def announcement (w : Work) : Event := .beforeNode w.node.id w.node.kind w.input

def entryEvent (w : Work) (o : Outcome) : Event :=
  .log ⟨w.node.id, w.node.label, w.node.kind, w.input, o.output, ⟨0⟩, o.status, o.message⟩

def completion (w : Work) (o : Outcome) : Event :=
  .afterNode w.node.id w.node.kind o.status o.output

/-- What is announced of a node after its completion. -/
def failure (w : Work) (o : Outcome) : List Event :=
  if o.status = .error then [.onError w.node.id o.message] else []

/-- What a run announces of a piece of work. A node that was passed before is only noted, as
an error; any other is announced before it is executed, noted and announced again afterwards,
and its error is announced if it failed. -/
def events (w : Work) : List Event :=
  if w.revisits then [w.entryEvent ⟨[], .error, cycleMessage⟩]
  else
    let o := executeNode w.node w.input
    [w.announcement, w.entryEvent o, w.completion o] ++ w.failure o

theorem events_of_revisits {w : Work} (h : w.revisits = true) :
    w.events = [w.entryEvent ⟨[], .error, cycleMessage⟩] := if_pos h

theorem events_of_fresh {w : Work} (h : ¬ w.revisits = true) {o : Outcome}
    (ho : o = executeNode w.node w.input) :
    w.events = [w.announcement, w.entryEvent o, w.completion o] ++ w.failure o := by
  rw [events, if_neg h, ho]

end Work

/-- The nodes that are executed when pieces of work are done. -/
def passedIds (works : List Work) : List String :=
  (works.filter fun w => !w.revisits).map (·.node.id)

theorem passedIds_append (works rest : List Work) :
    passedIds (works ++ rest) = passedIds works ++ passedIds rest := by
  rw [passedIds, List.filter_append, List.map_append]
  rfl

theorem passedIds_of_revisits {w : Work} (h : w.revisits = true) : passedIds [w] = [] := by
  rw [passedIds, List.filter_cons_of_neg (by simp [h])]
  rfl

theorem passedIds_of_fresh {w : Work} (h : ¬ w.revisits = true) :
    passedIds [w] = [w.node.id] := by
  rw [passedIds, List.filter_cons_of_pos (by simp [h])]
  rfl

theorem passedIds_snoc_of_revisits (works : List Work) {w : Work} (h : w.revisits = true) :
    passedIds (works ++ [w]) = passedIds works := by
  rw [passedIds_append, passedIds_of_revisits h, List.append_nil]

theorem passedIds_snoc_of_fresh (works : List Work) {w : Work} (h : ¬ w.revisits = true) :
    passedIds (works ++ [w]) = passedIds works ++ [w.node.id] := by
  rw [passedIds_append, passedIds_of_fresh h]

namespace Graph

/-! ## The events of a run -/

def visit (g : Graph) (w : Work) : Visit := (g.tree w).root

/-- What a run announces before it walks or gives up. -/
def prologue (g : Graph) : List Event :=
  .beforeRun g.nodes.length g.edges.length :: g.report.warnings.map Warning.event

/-- What a run announces until it has done pieces of work, or has noted all defects. -/
def telling (g : Graph) (works : List Work) : List Event :=
  g.prologue ++
    if g.report.valid then works.flatMap Work.events else g.report.defects.map Defect.event

def recital (g : Graph) (works : List Work) (status : RunStatus) : List Event :=
  g.telling works ++ if status = .cancelled then [cancelEvent] else []

/-- Pieces of work that a run does in turn: each is on a path from a start node, and their
visits are the first ones of the itinerary. An invalid workflow has no work done. -/
structure Begins (g : Graph) (works : List Work) : Prop where
  descends : ∀ w ∈ works, g.Descends w
  ahead : works.map g.visit <+: g.itinerary
  valid : works ≠ [] → g.report.valid = true

/-- What a run has done in the end that was not broken off: the work, the status it has got
by it, and the nodes executed. -/
structure Traverses (g : Graph) (works : List Work) (status : RunStatus) (visited : List String) :
    Prop extends g.Begins works where
  status : status =
    if g.report.valid then
      if works.length < g.itinerary.length then .cancelled else .completed
    else .invalid
  visited : visited = passedIds works

/-- Where a walk stands: the work that is done, and what is queued behind it. -/
structure Covers (g : Graph) (works queue : List Work) (starts : List Node) : Prop where
  valid : g.report.valid = true
  descends : ∀ w ∈ works, g.Descends w
  paths : g.OnPaths queue starts
  ahead : works.map g.visit ++ g.visits queue starts = g.itinerary

/-- A run of the workflow that has done pieces of work. -/
def after (g : Graph) (started : Instant) (works : List Work) (stage : Stage) : Run :=
  ⟨g, started, passedIds works, .completed, stage⟩

theorem telling_nil {g : Graph} (hvalid : g.report.valid = true) :
    g.telling [] = g.prologue := by
  rw [telling, if_pos hvalid, List.flatMap_nil, List.append_nil]

theorem telling_snoc {g : Graph} (hvalid : g.report.valid = true) (works : List Work)
    (w : Work) :
    g.telling (works ++ [w]) = g.telling works ++ w.events := by
  rw [telling, telling, if_pos hvalid, if_pos hvalid, List.flatMap_append, List.flatMap_singleton,
    List.append_assoc]

theorem telling_of_invalid {g : Graph} (hinvalid : ¬ g.report.valid = true)
    (works : List Work) :
    g.telling works = g.prologue ++ g.report.defects.map Defect.event := by
  rw [telling, if_neg hinvalid]

theorem begins_nil (g : Graph) : g.Begins [] :=
  ⟨nofun, List.nil_prefix, fun h => absurd rfl h⟩

namespace Covers

variable {g : Graph} {works queue : List Work} {w : Work} {starts : List Node}

theorem begins (h : g.Covers works queue starts) : g.Begins works :=
  ⟨h.descends, ⟨_, h.ahead⟩, fun _ => h.valid⟩

theorem start (hvalid : g.report.valid = true) : g.Covers [] [] g.starts :=
  ⟨hvalid, nofun, ⟨nofun, fun _ hn => hn⟩, rfl⟩

theorem seed {n : Node} (h : g.Covers works [] (n :: starts)) :
    g.Covers works [Graph.seed n] starts :=
  ⟨h.valid, h.descends, h.paths.begin, (g.visits_nil_cons n starts) ▸ h.ahead⟩

/-- Doing a piece of work takes its visit from what is ahead, and queues its followers. -/
theorem next (h : g.Covers works (w :: queue) starts) {o : Outcome}
    (ho : o = executeNode w.node w.input) :
    g.Covers (works ++ [w]) (queue ++ g.followers w o) starts := by
  have hw : g.Descends w := h.paths.1 w List.mem_cons_self
  refine ⟨h.valid, fun v hv => ?_, h.paths.tail.append fun v hv => hw.followers hv, ?_⟩
  · rcases List.mem_append.mp hv with hv | hv
    · exact h.descends v hv
    · obtain rfl := List.mem_singleton.mp hv
      exact hw
  · have hahead := h.ahead
    rw [visits_cons, ← ho] at hahead
    rw [List.map_append, List.map_singleton, List.append_assoc]
    exact hahead

theorem length_eq (h : g.Covers works queue starts) :
    works.length + (g.visits queue starts).length = g.itinerary.length := by
  rw [← h.ahead, List.length_append, List.length_map]

theorem completed (h : g.Covers works [] []) :
    g.Traverses works .completed (passedIds works) := by
  have hlength := h.length_eq
  rw [visits_nil_nil, List.length_nil, Nat.add_zero] at hlength
  exact ⟨h.begins, by rw [if_pos h.valid, if_neg (Nat.not_lt.mpr hlength.ge)], rfl⟩

theorem cancelled (h : g.Covers works (w :: queue) starts) :
    g.Traverses works .cancelled (passedIds works) := by
  have hlength := h.length_eq
  rw [visits_cons, List.length_cons] at hlength
  have hshort : works.length < g.itinerary.length := by omega
  exact ⟨h.begins, by rw [if_pos h.valid, if_pos hshort], rfl⟩

end Covers

theorem traverses_invalid {g : Graph} (hinvalid : ¬ g.report.valid = true) :
    g.Traverses [] .invalid [] :=
  ⟨g.begins_nil, by rw [if_neg hinvalid], rfl⟩

end Graph

/-! ## What is told at each stage -/

/-- What a run has announced up to where it stands, the signal at which it stands included,
when `earlier` was told before this signal. Nobody has broken the run off. -/
inductive Recites (g : Graph) (started : Instant) (earlier : List Event) : Turn → Prop
  | opened (htold : earlier = []) :
      Recites g started earlier (.waits g.announcement (g.after started [] .opened))
  | warning {signal : Signal} {noted rest : List Warning}
      (hnoted : g.report.warnings = noted ++ rest)
      (htold : earlier ++ signal.told
        = .beforeRun g.nodes.length g.edges.length :: noted.map Warning.event) :
      Recites g started earlier (.waits signal (g.after started [] (.warning rest)))
  | refusing {signal : Signal} {noted rest : List Defect} (hinvalid : ¬ g.report.valid = true)
      (hnoted : g.report.defects = noted ++ rest)
      (htold : earlier ++ signal.told = g.prologue ++ noted.map Defect.event) :
      Recites g started earlier (.waits signal (g.after started [] (.refusing rest)))
  | walking {signal : Signal} {works queue : List Work} {starts : List Node}
      (hcovers : g.Covers works queue starts) (htold : earlier ++ signal.told = g.telling works) :
      Recites g started earlier (.waits signal (g.after started works (.walking queue starts)))
  | paused {works queue : List Work} {w : Work} {starts : List Node}
      (hcovers : g.Covers works (w :: queue) starts) (hfresh : ¬ w.revisits = true)
      (htold : earlier = g.telling works) :
      Recites g started earlier (.waits .pause (g.after started works (.paused w queue starts)))
  | entered {signal : Signal} {works queue : List Work} {w : Work} {starts : List Node}
      (hcovers : g.Covers works (w :: queue) starts) (hfresh : ¬ w.revisits = true)
      (htold : earlier ++ signal.told = g.telling works ++ [w.announcement]) :
      Recites g started earlier (.waits signal (g.after started works (.entered w queue starts)))
  | noted {signal : Signal} {works queue : List Work} {w : Work} {o : Outcome}
      {starts : List Node} (ho : o = executeNode w.node w.input)
      (hcovers : g.Covers works (w :: queue) starts) (hfresh : ¬ w.revisits = true)
      (htold : earlier ++ signal.told = g.telling works ++ [w.announcement, w.entryEvent o]) :
      Recites g started earlier
        (.waits signal (g.after started (works ++ [w]) (.noted w o queue starts)))
  | left {signal : Signal} {works queue : List Work} {w : Work} {o : Outcome}
      {starts : List Node} (ho : o = executeNode w.node w.input)
      (hcovers : g.Covers works (w :: queue) starts) (hfresh : ¬ w.revisits = true)
      (htold : earlier ++ signal.told
        = g.telling works ++ [w.announcement, w.entryEvent o, w.completion o]) :
      Recites g started earlier
        (.waits signal (g.after started (works ++ [w]) (.left w o queue starts)))
  | concluding {signal : Signal} {works : List Work}
      (htraverses : g.Traverses works .cancelled (passedIds works))
      (hlast : signal.told = [cancelEvent])
      (htold : earlier ++ signal.told = g.recital works .cancelled) :
      Recites g started earlier
        (.waits signal { g.after started works .concluding with status := .cancelled })
  | closing {works : List Work} {r : Run} {result : RunResult}
      (hstage : r.stage = .closing (.returned result))
      (htraverses : g.Traverses works result.status result.visited)
      (htold : earlier = g.recital works result.status) :
      Recites g started earlier
        (.waits (.event (.afterRun result.status result.visited result.logs.length)) r)
  | ended {works : List Work} {result : RunResult}
      (htraverses : g.Traverses works result.status result.visited)
      (htold : earlier = g.recital works result.status
        ++ [.afterRun result.status result.visited result.logs.length]) :
      Recites g started earlier (.ends (.returned result))

namespace Recites

variable {g : Graph} {started : Instant} {said : List Event}

theorem start {e : Executor} (hidle : e.executing = false) :
    Recites g ⟨e.clock + 1⟩ [] (Run.start g e).2 := by
  rw [Run.start_of_idle g hidle]
  exact .opened rfl

theorem of_conclude {works : List Work} {r : Run}
    (htraverses : g.Traverses works r.status r.visited)
    (hsaid : said = g.recital works r.status) (e : Executor) :
    Recites g started said (r.conclude e).2 :=
  @closing g started said works _ ⟨r.status, r.visited, e.logs, _, _⟩ rfl htraverses hsaid

section

variable {works queue : List Work} {starts : List Node}

theorem of_stop {w : Work} (hcovers : g.Covers works (w :: queue) starts)
    (hsaid : said = g.telling works) (e : Executor) (stage : Stage) :
    Recites g started said ((g.after started works stage).stop e).2 := by
  refine .concluding hcovers.cancelled rfl ?_
  rw [hsaid, Graph.recital, if_pos rfl]
  rfl

theorem of_take {w : Work} (hcovers : g.Covers works (w :: queue) starts)
    (hsaid : said = g.telling works) (e : Executor) (stage : Stage) :
    Recites g started said ((g.after started works stage).take e w queue starts).2 := by
  unfold Run.take
  split
  · exact of_stop hcovers hsaid e stage
  · split
    · rename_i hpassed
      have hnone : g.followers w (executeNode w.node w.input) = [] := if_pos (Or.inr hpassed)
      have hnext := hcovers.next rfl
      rw [hnone, List.append_nil] at hnext
      have hwalks : Recites g started said
          (.waits (.event (.log (e.noteNode w.node w.input [] .error cycleMessage).1))
            (g.after started (works ++ [w]) (.walking queue starts))) := by
        refine .walking hnext ?_
        rw [hsaid, Graph.telling_snoc hcovers.valid, Work.events_of_revisits hpassed]
        rfl
      rw [Graph.after, passedIds_snoc_of_revisits works hpassed] at hwalks
      exact hwalks
    · rename_i hfresh
      exact .paused hcovers hfresh hsaid

theorem of_walk (hcovers : g.Covers works queue starts) (hsaid : said = g.telling works)
    (e : Executor) (stage : Stage) :
    Recites g started said ((g.after started works stage).walk e queue starts).2 := by
  cases queue with
  | cons w queue => exact of_take hcovers hsaid e stage
  | nil =>
      cases starts with
      | cons n starts => exact of_take hcovers.seed hsaid e stage
      | nil =>
          refine of_conclude hcovers.completed ?_ e
          rw [hsaid]
          exact (List.append_nil _).symm

theorem of_leave {w : Work} {o : Outcome} (ho : o = executeNode w.node w.input)
    (hcovers : g.Covers works (w :: queue) starts) (hfresh : ¬ w.revisits = true)
    (hsaid : said = g.telling works ++ [w.announcement, w.entryEvent o, w.completion o])
    (e : Executor) (stage : Stage) :
    Recites g started said
      ((g.after started (works ++ [w]) stage).leave e w o queue starts).2 := by
  have hnext := hcovers.next ho
  have htelling := g.telling_snoc hcovers.valid works w
  rw [Work.events_of_fresh hfresh ho, ← List.append_assoc, ← hsaid] at htelling
  unfold Run.leave
  split
  · rename_i herror
    have hnone : g.followers w o = [] := if_pos (Or.inl herror)
    rw [hnone, List.append_nil] at hnext
    refine .walking hnext ?_
    rw [htelling, Work.failure, if_pos herror]
    rfl
  · rename_i hgoes
    rw [Work.failure, if_neg hgoes, List.append_nil] at htelling
    exact of_walk hnext htelling.symm e stage

end

theorem of_refuse (hinvalid : ¬ g.report.valid = true) {noted rest : List Defect}
    (hnoted : g.report.defects = noted ++ rest)
    (hsaid : said = g.prologue ++ noted.map Defect.event) (e : Executor) (stage : Stage) :
    Recites g started said ((g.after started [] stage).refuse e rest).2 := by
  cases rest with
  | cons d rest =>
      refine .refusing hinvalid (hnoted.trans (List.append_cons noted d rest)) ?_
      rw [hsaid, List.map_append, List.append_assoc]
      rfl
  | nil =>
      rw [List.append_nil] at hnoted
      refine of_conclude (Graph.traverses_invalid hinvalid) ?_ e
      rw [hsaid, ← hnoted, Graph.recital, Graph.telling_of_invalid hinvalid]
      exact (List.append_nil _).symm

theorem of_warn {noted rest : List Warning} (hnoted : g.report.warnings = noted ++ rest)
    (hsaid : said = .beforeRun g.nodes.length g.edges.length :: noted.map Warning.event)
    (e : Executor) (stage : Stage) :
    Recites g started said ((g.after started [] stage).warn e rest).2 := by
  cases rest with
  | cons w rest =>
      refine .warning (hnoted.trans (List.append_cons noted w rest)) ?_
      rw [hsaid, List.map_append]
      rfl
  | nil =>
      rw [List.append_nil] at hnoted
      rw [← hnoted] at hsaid
      show Recites g started said
        (if g.report.valid = true then Run.walk _ e [] g.starts else Run.refuse _ e _).2
      split
      · rename_i hvalid
        exact of_walk (.start hvalid) (hsaid.trans (Graph.telling_nil hvalid).symm) e stage
      · rename_i hinvalid
        have hnone : g.report.defects = [] ++ g.report.defects := rfl
        exact of_refuse hinvalid hnone (hsaid.trans (List.append_nil _).symm) e stage

/-- **One step** of a run that is not broken off, on whatever executor its surroundings
leave. -/
theorem step {signal : Signal} {r : Run} (h : Recites g started said (.waits signal r))
    (e : Executor) : Recites g started (said ++ signal.told) (r.resume e).2 := by
  cases h with
  | opened htold =>
      have hnone : g.report.warnings = [] ++ g.report.warnings := rfl
      exact of_warn hnone (by rw [htold]; rfl) e _
  | warning hnoted htold => exact of_warn hnoted htold e _
  | refusing hinvalid hnoted htold => exact of_refuse hinvalid hnoted htold e _
  | walking hcovers htold => exact of_walk hcovers htold e _
  | @paused works queue w starts hcovers hfresh htold =>
      rw [← List.append_nil said] at htold
      unfold Run.resume
      dsimp only [Graph.after]
      split
      · exact of_stop hcovers htold e _
      · exact .entered hcovers hfresh (congrArg (· ++ [w.announcement]) htold)
  | @entered signal works queue w starts hcovers hfresh htold =>
      have hnoted : Recites g started (said ++ signal.told)
          (.waits (.event (.log (e.noteNode w.node w.input (executeNode w.node w.input).output
              (executeNode w.node w.input).status (executeNode w.node w.input).message).1))
            (g.after started (works ++ [w])
              (.noted w (executeNode w.node w.input) queue starts))) := by
        refine .noted rfl hcovers hfresh ?_
        rw [htold, List.append_assoc]
        rfl
      rw [Graph.after, passedIds_snoc_of_fresh works hfresh] at hnoted
      exact hnoted
  | noted ho hcovers hfresh htold =>
      refine .left ho hcovers hfresh ?_
      rw [htold, List.append_assoc]
      rfl
  | left ho hcovers hfresh htold => exact of_leave ho hcovers hfresh htold e _
  | concluding htraverses hlast htold => exact of_conclude htraverses htold e
  | closing hstage htraverses htold =>
      unfold Run.resume
      rw [hstage]
      exact .ended htraverses (congrArg (· ++ _) htold)

end Recites
end Workflow

import Workflow.Proofs.Run.Recital

/-!
# The courses of a run

A run that an idle executor announced takes one of three courses. It goes on to its end, and
then what it announces of this is true. It is broken off at its announcement, and announces
nothing more. Or it is broken off under way: then it announces its end at once, with the
status it has at that moment, and this is `completed` from the announcement on until its
cancellation is noted, whatever is left undone (`Course`, and `Course.step` for one step).

The headlines are `Graph.run_recites` for runs that return, and `Graph.end_announced` for all
runs.
-/

namespace Workflow

/-! ## Events that come at any time -/

def Event.ends : Event → Bool
  | .afterRun .. => true
  | _ => false

def Signal.ends : Signal → Bool
  | .event e => e.ends
  | .pause => false

/-- An event that neither announces the end of a run nor notes its cancellation. -/
structure Event.Plain (e : Event) : Prop where
  goesOn : e.ends = false
  goesAhead : e ≠ cancelEvent

theorem Event.ends_untimed (e : Event) : e.untimed.ends = e.ends := by cases e <;> rfl

/-- An entry notes a cancellation only as a step that was skipped. -/
theorem plain_log {entry : LogEntry} (h : entry.status ≠ .skipped) :
    (Event.log entry).Plain :=
  ⟨rfl, fun hcancel => h (congrArg LogEntry.status (Event.log.inj hcancel))⟩

theorem Defect.plain_event (d : Defect) : d.event.Plain := plain_log nofun

theorem Warning.plain_event (w : Warning) : w.event.Plain := by
  refine ⟨rfl, fun hcancel => ?_⟩
  have hmessage : "Warning: " ++ w.message = cancelMessage :=
    congrArg LogEntry.message (Event.log.inj hcancel)
  have hfirst := congrArg (fun s : String => s.toList.head?) hmessage
  rw [String.toList_append] at hfirst
  cases hfirst

theorem Outcome.ofResult_status_ne {output : Packet} {r : Except Fault Outcome}
    (h : ∀ o, r = .ok o → o.status ≠ .skipped) :
    (Outcome.ofResult output r).status ≠ .skipped := by
  cases r with
  | ok o => exact h o rfl
  | error f => exact nofun

theorem executeNode_status_ne (n : Node) (input : Packet) :
    (executeNode n input).status ≠ .skipped := by
  unfold executeNode
  split
  · exact Outcome.ofResult_status_ne nofun
  · exact nofun
  · refine Outcome.ofResult_status_ne fun o ho => ?_
    obtain ⟨output, -, ho⟩ := bind_eq_ok.mp ho
    obtain ⟨operation, -, ho⟩ := bind_eq_ok.mp ho
    obtain ⟨field, -, ho⟩ := bind_eq_ok.mp ho
    obtain rfl := Except.ok.inj ho
    exact nofun
  · split
    · exact Outcome.ofResult_status_ne nofun
    · refine Outcome.ofResult_status_ne fun o ho => ?_
      obtain ⟨message, -, ho⟩ := bind_eq_ok.mp ho
      obtain rfl := Except.ok.inj ho
      exact nofun
  · exact nofun

theorem Work.plain_events (w : Work) : ∀ e ∈ w.events, e.Plain := by
  by_cases hpassed : w.revisits = true
  · rw [w.events_of_revisits hpassed]
    intro e he
    obtain rfl := List.mem_singleton.mp he
    exact plain_log nofun
  · rw [w.events_of_fresh hpassed rfl]
    intro e he
    rcases List.mem_append.mp he with he | he
    · simp only [List.mem_cons, List.not_mem_nil, or_false] at he
      rcases he with rfl | rfl | rfl
      · exact ⟨rfl, nofun⟩
      · exact plain_log (executeNode_status_ne w.node w.input)
      · exact ⟨rfl, nofun⟩
    · unfold Work.failure at he
      split at he
      · obtain rfl := List.mem_singleton.mp he
        exact ⟨rfl, nofun⟩
      · cases he

namespace Graph

theorem plain_prologue (g : Graph) (noted : List Warning) :
    ∀ e ∈ Event.beforeRun g.nodes.length g.edges.length :: noted.map Warning.event, e.Plain := by
  intro e he
  rcases List.mem_cons.mp he with rfl | he
  · exact ⟨rfl, nofun⟩
  · obtain ⟨w, -, rfl⟩ := List.mem_map.mp he
    exact w.plain_event

theorem plain_telling (g : Graph) (works : List Work) : ∀ e ∈ g.telling works, e.Plain := by
  intro e he
  unfold telling at he
  rcases List.mem_append.mp he with he | he
  · exact g.plain_prologue _ e he
  · split at he
    · obtain ⟨w, -, he⟩ := List.mem_flatMap.mp he
      exact w.plain_events e he
    · obtain ⟨d, -, rfl⟩ := List.mem_map.mp he
      exact d.plain_event

end Graph

theorem Signal.ends_of_plain {signal : Signal} (h : ∀ e ∈ signal.told, e.Plain) :
    signal.ends = false := by
  cases signal with
  | event e => exact e.ends_untimed.symm.trans (h e.untimed List.mem_cons_self).goesOn
  | pause => rfl

theorem Signal.ends_of_told {signal : Signal} (h : signal.told = [cancelEvent]) :
    signal.ends = false := by
  cases signal with
  | event e => exact e.ends_untimed.symm.trans (congrArg Event.ends (List.cons.inj h).1)
  | pause => rfl

/-! ## Runs that are broken off -/

def Calm (history : List Moment) : Prop := ∀ m ∈ history, m.2 = .resume ∧ m.1.ends = false

theorem Calm.snoc {history : List Moment} (h : Calm history) {signal : Signal}
    (hgoes : signal.ends = false) : Calm (history ++ [(signal, .resume)]) := by
  intro m hm
  rcases List.mem_append.mp hm with hm | hm
  · exact h m hm
  · obtain rfl := List.mem_singleton.mp hm
    exact ⟨rfl, hgoes⟩

/-- The status of a run under way that stands at a signal: only the note of its cancellation
tells it from a run that has done everything. -/
def Signal.status (signal : Signal) : RunStatus :=
  if signal.told = [cancelEvent] then .cancelled else .completed

/-- What a run announces that is broken off under way: its status and the nodes it
executed. -/
structure Graph.Leaves (g : Graph) (signal : Signal) (status : RunStatus)
    (visited : List String) : Prop where
  goesOn : signal.ends = false
  status : status = signal.status
  works : ∃ works, g.Begins works ∧ visited = passedIds works

theorem Graph.Leaves.of_plain {g : Graph} {signal : Signal} {works : List Work}
    (hplain : ∀ e ∈ signal.told, e.Plain) (hbegins : g.Begins works) :
    g.Leaves signal .completed (passedIds works) := by
  refine ⟨Signal.ends_of_plain hplain, (if_neg fun hcancel => ?_).symm, works, hbegins, rfl⟩
  have hmem : cancelEvent ∈ signal.told := by
    rw [hcancel]
    exact List.mem_cons_self
  exact (hplain cancelEvent hmem).goesAhead rfl

theorem Work.prefix_events {w : Work} (hfresh : ¬ w.revisits = true) {o : Outcome}
    (ho : o = executeNode w.node w.input) {block rest : List Event}
    (hblock : [w.announcement, w.entryEvent o, w.completion o] = block ++ rest) :
    block <+: w.events := by
  rw [w.events_of_fresh hfresh ho, hblock, List.append_assoc]
  exact List.prefix_append block _

theorem Graph.plain_block (g : Graph) (works : List Work) {w : Work} {block : List Event}
    (hblock : block <+: w.events) : ∀ e ∈ g.telling works ++ block, e.Plain := by
  intro e he
  rcases List.mem_append.mp he with he | he
  · exact g.plain_telling works e he
  · exact w.plain_events e (hblock.subset he)

theorem Recites.leaves {g : Graph} {started : Instant} {earlier : List Event}
    {signal : Signal} {r : Run} (h : Recites g started earlier (.waits signal r))
    (hunderWay : r.stage.underWay = true) : g.Leaves signal r.status r.visited := by
  have hpart : ∀ {events : List Event}, earlier ++ signal.told = events →
      (∀ e ∈ events, e.Plain) → ∀ e ∈ signal.told, e.Plain := by
    rintro events rfl hplain e he
    exact hplain e (List.mem_append_right _ he)
  cases h with
  | opened htold => cases hunderWay
  | warning hnoted htold => exact .of_plain (hpart htold (g.plain_prologue _)) g.begins_nil
  | @refusing _ noted _ hinvalid hnoted htold =>
      refine .of_plain (hpart htold fun e he => ?_) g.begins_nil
      rcases List.mem_append.mp he with he | he
      · exact g.plain_prologue _ e he
      · obtain ⟨d, -, rfl⟩ := List.mem_map.mp he
        exact d.plain_event
  | walking hcovers htold => exact .of_plain (hpart htold (g.plain_telling _)) hcovers.begins
  | paused hcovers hfresh htold => exact .of_plain nofun hcovers.begins
  | entered hcovers hfresh htold =>
      exact .of_plain (hpart htold (g.plain_block _ (Work.prefix_events hfresh rfl rfl)))
        hcovers.begins
  | noted ho hcovers hfresh htold =>
      exact .of_plain (hpart htold (g.plain_block _ (Work.prefix_events hfresh ho rfl)))
        (hcovers.next ho).begins
  | left ho hcovers hfresh htold =>
      exact .of_plain (hpart htold (g.plain_block _ (Work.prefix_events hfresh ho rfl)))
        (hcovers.next ho).begins
  | concluding htraverses hlast htold =>
      exact ⟨Signal.ends_of_told hlast, (if_pos hlast).symm, _, htraverses.toBegins, rfl⟩
  | closing hstage htraverses htold =>
      rw [hstage] at hunderWay
      cases hunderWay

/-! ## One step -/

def RunResult.ending (result : RunResult) : Reply → Ending
  | .resume => .returned result
  | .interrupt i => .broken i

/-- The signals of a run up to where it stands, with the replies to them. -/
inductive Course (g : Graph) (started : Instant) : List Moment → Turn → Prop
  /-- Nobody has broken the run off. -/
  | runs {history : List Moment} {signal : Signal} {r : Run} (hcalm : Calm history)
      (hopened : r.stage = .opened ↔ history = [])
      (hrecites : Recites g started (told history) (.waits signal r)) :
      Course g started history (.waits signal r)
  /-- It has announced its end, and there was nothing left to break off. -/
  | finished {calm : List Moment} {works : List Work} {result : RunResult} (reply : Reply)
      (hcalm : Calm calm) (htraverses : g.Traverses works result.status result.visited)
      (htold : told calm = g.recital works result.status) :
      Course g started
        (calm ++ [(.event (.afterRun result.status result.visited result.logs.length), reply)])
        (.ends (result.ending reply))
  /-- It was broken off at its announcement. -/
  | refused (i : Interrupt) :
      Course g started [(g.announcement, .interrupt i)] (.ends (.broken i))
  /-- It was broken off under way, and announces its end. -/
  | closing {calm : List Moment} {signal : Signal} {i : Interrupt} {r : Run} {count : Nat}
      (hcalm : Calm calm) (hannounced : calm ≠ []) (hleaves : g.Leaves signal r.status r.visited)
      (hstage : r.stage = .closing (.broken i)) :
      Course g started (calm ++ [(signal, .interrupt i)])
        (.waits (.event (.afterRun r.status r.visited count)) r)
  /-- It was broken off under way, and has announced its end. -/
  | broken {calm : List Moment} {signal : Signal} {i j : Interrupt} {status : RunStatus}
      {visited : List String} {count : Nat} {reply : Reply} (hcalm : Calm calm)
      (hannounced : calm ≠ []) (hleaves : g.Leaves signal status visited) :
      Course g started
        (calm ++ [(signal, .interrupt i), (.event (.afterRun status visited count), reply)])
        (.ends (.broken j))

/-- A run that was announced and not closed yet does not end with its next step, nor is it
announced again. -/
theorem Run.Steps.waits {r : Run} {e : Executor} {next : Executor × Turn}
    (h : r.Steps e next) :
    ∃ signal r', next.2 = .waits signal r' ∧ r'.stage ≠ .opened := by
  cases h with
  | goesOn executing underWay status =>
      refine ⟨_, _, rfl, fun hopened => ?_⟩
      rw [hopened] at underWay
      cases underWay
  | closes => exact ⟨_, _, rfl, nofun⟩

namespace Course

variable {g : Graph} {started : Instant} {history : List Moment} {signal : Signal} {r : Run}

theorem of_resume (hcalm : Calm history)
    (hrecites : Recites g started (told history) (.waits signal r)) (e : Executor) :
    Course g started (history ++ [(signal, .resume)]) (r.resume e).2 := by
  have hnext := hrecites.step e
  rw [← told_snoc history signal .resume] at hnext
  have hgoes : r.stage.settled? = none → signal.ends = false →
      Course g started (history ++ [(signal, .resume)]) (r.resume e).2 := by
    intro hopen hends
    obtain ⟨signal', r', hwaits, hpast⟩ := (Run.Steps.of_resume r e hopen).waits
    rw [hwaits] at hnext ⊢
    have hsome : history ++ [(signal, .resume)] ≠ [] :=
      List.append_ne_nil_of_right_ne_nil history nofun
    exact .runs (hcalm.snoc hends) (iff_of_false hpast hsome) hnext
  have hends : r.stage.underWay = true → signal.ends = false := fun h => (hrecites.leaves h).goesOn
  cases hrecites with
  | opened htold => exact hgoes rfl rfl
  | closing hstage htraverses htold =>
      unfold Run.resume
      rw [hstage]
      exact .finished .resume hcalm htraverses htold
  | _ => exact hgoes rfl (hends rfl)

theorem of_breakOff (hcalm : Calm history) (hopened : r.stage = .opened ↔ history = [])
    (hrecites : Recites g started (told history) (.waits signal r)) (e : Executor)
    (i : Interrupt) :
    Course g started (history ++ [(signal, .interrupt i)]) (r.breakOff e i).2 := by
  have hgoes : r.stage.underWay = true →
      Course g started (history ++ [(signal, .interrupt i)]) (r.breakOff e i).2 := by
    intro hunderWay
    have hannounced : history ≠ [] := by
      intro hnone
      rw [hopened.mpr hnone] at hunderWay
      cases hunderWay
    rw [Run.breakOff_of_underWay hunderWay]
    exact .closing (r := r.goTo (.closing (.broken i))) hcalm hannounced
      (hrecites.leaves hunderWay) rfl
  cases hrecites with
  | opened htold =>
      rw [hopened.mp rfl]
      exact .refused i
  | closing hstage htraverses htold =>
      unfold Run.breakOff
      rw [hstage]
      exact .finished (.interrupt i) hcalm htraverses htold
  | _ => exact hgoes rfl

/-- **One step** of a run, whatever its surroundings leave and reply. -/
theorem step (h : Course g started history (.waits signal r)) (e : Executor) (reply : Reply) :
    Course g started (history ++ [(signal, reply)]) (r.proceed e reply).2 := by
  cases h with
  | runs hcalm hopened hrecites =>
      cases reply with
      | resume => exact of_resume hcalm hrecites e
      | interrupt i => exact of_breakOff hcalm hopened hrecites e i
  | closing hcalm hannounced hleaves hstage =>
      rename_i calm signal i count
      have hsettled : r.stage.settled? = some (.broken i) := by
        rw [hstage]
        rfl
      obtain ⟨ending, hends, hbroken⟩ := Run.proceed_of_settled hsettled e reply
      obtain ⟨j, rfl⟩ : ∃ j, ending = .broken j := hbroken.elim (fun h => ⟨i, h⟩) id
      rw [hends, List.append_assoc]
      exact .broken hcalm hannounced hleaves

end Course

namespace Graph

variable {g : Graph} {e : Executor} (hidle : e.executing = false)
include hidle

/-- **The course of a run**, whatever its surroundings do. -/
theorem course {ω : Type} (env : Environment ω) (w : ω) :
    Course g ⟨e.clock + 1⟩ (env.history g e w) (.ends (env.run g e w).1) := by
  refine env.history_keeps (P := Course g ⟨e.clock + 1⟩)
    (fun history signal r e reply h => h.step e reply) g e w ?_
  have hstarts := Recites.start (g := g) hidle
  rw [Run.start_of_idle g hidle] at hstarts ⊢
  exact .runs nofun ⟨fun _ => rfl, fun _ => rfl⟩ hstarts

end Graph

/-! ## Runs that return -/

def Event.entered? (e : Event) : Option String := (Signal.event e).entered?

theorem Work.entered_events (w : Work) :
    w.events.filterMap Event.entered? = passedIds [w] := by
  by_cases hpassed : w.revisits = true
  · rw [w.events_of_revisits hpassed]
    exact (passedIds_of_revisits hpassed).symm
  · have hfailure : (w.failure (executeNode w.node w.input)).filterMap Event.entered? = [] := by
      unfold Work.failure
      split <;> rfl
    rw [w.events_of_fresh hpassed rfl, List.filterMap_append, hfailure]
    exact (passedIds_of_fresh hpassed).symm

theorem Work.entered_flatMap : ∀ works : List Work,
    (works.flatMap Work.events).filterMap Event.entered? = passedIds works
  | [] => rfl
  | w :: works => by
      rw [List.flatMap_cons, List.filterMap_append, w.entered_events, entered_flatMap works]
      exact (passedIds_append [w] works).symm

theorem filterMap_entered_untimed (events : List Event) :
    (events.map Event.untimed).filterMap Event.entered? = events.filterMap Event.entered? := by
  rw [List.filterMap_map]
  congr 1
  funext e
  cases e <;> rfl

theorem filterMap_entered_logs {α : Type} (entry : α → LogEntry) (items : List α) :
    (items.map fun a => Event.log (entry a)).filterMap Event.entered? = [] := by
  rw [List.filterMap_map]
  exact List.filterMap_eq_nil_iff.mpr fun _ _ => rfl

namespace Graph

theorem entered_telling {g : Graph} {works : List Work} (h : g.Begins works) :
    (g.telling works).filterMap Event.entered? = passedIds works := by
  have hprologue : g.prologue.filterMap Event.entered? = [] :=
    filterMap_entered_logs _ g.report.warnings
  rw [telling, List.filterMap_append, hprologue, List.nil_append]
  split
  · exact Work.entered_flatMap works
  · rename_i hinvalid
    obtain rfl : works = [] := by
      by_contra hsome
      exact hinvalid (h.valid hsome)
    exact filterMap_entered_logs _ g.report.defects

theorem entered_recital {g : Graph} {works : List Work} (h : g.Begins works)
    (status : RunStatus) :
    (g.recital works status).filterMap Event.entered? = passedIds works := by
  have hcancel : (if status = .cancelled then [cancelEvent] else []).filterMap Event.entered?
      = [] := by
    split <;> rfl
  rw [recital, List.filterMap_append, hcancel, List.append_nil, entered_telling h]

theorem ends_recital (g : Graph) (works : List Work) (status : RunStatus) :
    ∀ e ∈ g.recital works status, e.ends = false := by
  intro e he
  unfold recital at he
  rcases List.mem_append.mp he with he | he
  · exact (g.plain_telling works e he).goesOn
  · split at he
    · obtain rfl := List.mem_singleton.mp he
      rfl
    · cases he

/-- The events of a run that returned a result: its recital, times aside, and then its end,
which tells of the result. No other event announces an end, and the nodes announced are those
that the result says were executed. -/
def Recounted (g : Graph) (result : RunResult) (events : List Event) : Prop :=
  ∃ works, g.Traverses works result.status result.visited
    ∧ events.map Event.untimed = g.recital works result.status
      ++ [.afterRun result.status result.visited result.logs.length]
    ∧ (∀ e ∈ g.recital works result.status, e.ends = false)
    ∧ events.filterMap Event.entered? = result.visited

theorem Traverses.recounted {g : Graph} {works : List Work} {result : RunResult}
    (h : g.Traverses works result.status result.visited) {events : List Event}
    (hevents : events.map Event.untimed = g.recital works result.status
      ++ [.afterRun result.status result.visited result.logs.length]) :
    g.Recounted result events := by
  refine ⟨works, h, hevents, g.ends_recital works _, ?_⟩
  rw [← filterMap_entered_untimed, hevents, List.filterMap_append, entered_recital h.toBegins,
    h.visited]
  exact List.append_nil _

end Graph

theorem Course.recounted {g : Graph} {started : Instant} {history : List Moment}
    {result : RunResult} (h : Course g started history (.ends (.returned result))) :
    g.Recounted result (announced history) := by
  generalize hending : Ending.returned result = ending at h
  cases h with
  | @finished calm works result' reply hcalm htraverses htold =>
      cases reply with
      | interrupt i => cases hending
      | resume =>
          obtain rfl := Ending.returned.inj hending
          refine htraverses.recounted ?_
          show told _ = _
          rw [told_snoc, htold]
          rfl
  | refused i => cases hending
  | broken hcalm hannounced hleaves => cases hending

theorem Course.returns {g : Graph} {started : Instant} {history : List Moment}
    {ending : Ending} (h : Course g started history (.ends ending))
    (hlet : ∀ m ∈ history, m.2 = .resume) :
    ∃ result, ending = .returned result := by
  cases h with
  | @finished calm works result reply hcalm htraverses htold =>
      obtain rfl : reply = .resume := hlet (_, reply) (List.mem_append_right _ List.mem_cons_self)
      exact ⟨result, rfl⟩
  | refused i => cases hlet _ List.mem_cons_self
  | broken hcalm hannounced hleaves =>
      cases hlet _ (List.mem_append_right _ List.mem_cons_self)

namespace Graph

/-- **What a run announces** that an idle executor was asked for and that nobody breaks off:
it returns, and its events are its announcement, an entry for each warning, then an entry for
each defect or the events of the work it does in turn, then the note of its cancellation
exactly if it was cancelled, and its end. This holds in any surroundings, and hooks that ask
for no run of their own note these events. -/
theorem run_recites (g : Graph) {e : Executor} (hidle : e.executing = false) :
    (∀ {ω : Type} (env : Environment ω) (w : ω), (∀ m ∈ env.history g e w, m.2 = .resume) →
      ∃ result, (env.run g e w).1 = .returned result
        ∧ g.Recounted result (announced (env.history g e w)))
    ∧ ∀ {σ : Type} (w : Watched σ), (∀ hook ∈ w.hooks, hook.action ≠ .nested) →
      (∀ i, (Watched.run g e w).1 ≠ .broken i) →
        ∃ result events, (Watched.run g e w).1 = .returned result
          ∧ (Watched.run g e w).2.2.trace = w.trace ++ events ∧ g.Recounted result events := by
  refine ⟨fun env w hlet => ?_, fun w halone hstays => ?_⟩
  · have hcourse := course (g := g) hidle env w
    obtain ⟨result, hresult⟩ := hcourse.returns hlet
    rw [hresult] at hcourse
    exact ⟨result, hresult, hcourse.recounted⟩
  · obtain ⟨nested, hending, htrace⟩ := w.exists_history g e halone
    have hcourse := course (g := g) hidle (Watched.environment nested) w
    rw [← hending] at hcourse
    cases hresult : (Watched.run g e w).1 with
    | broken i => exact absurd hresult (hstays i)
    | returned result =>
        rw [hresult] at hcourse
        exact ⟨result, _, rfl, htrace, hcourse.recounted⟩

/-- A run of two nodes announces both of them, alone and under a hook that fails at the
first. -/
theorem run_recites_of_two_nodes :
    let first : Node := ⟨"first", .start, .origin, "Start", some (.start (.record []))⟩
    let last : Node := ⟨"last", .finish, .origin, "End", some (.finish (.text "End"))⟩
    let g : Graph := ⟨[first, last], [⟨"edge", "first", "last", .null, .null, .null, true⟩]⟩
    let e := Executor.idle (some 1) 0
    let w : Watched Unit := .ofHooks [⟨"before_node", 1, .fail, 0⟩] ()
    (∃ result, (Environment.inert.run g e ()).1 = .returned result
        ∧ g.Recounted result (announced (Environment.inert.history g e ())))
      ∧ ∃ result, (Watched.run g e w).1 = .returned result ∧ result.visited = ["first", "last"]
        ∧ g.Recounted result (Watched.run g e w).2.2.trace := by
  intro first last g e w
  have hvalid : g.report.valid = true :=
    report_valid_of_rank (["first", "last"].idxOf ·) (by decide) (by decide) (by decide)
  have hvisits : executedIds (g.visits [] g.starts) = ["first", "last"] := by
    have hstarts : g.starts = [first] := rfl
    have hfollow : g.followers (Graph.seed first) (executeNode first [])
        = [⟨last, [], ["first"]⟩] := by decide
    have hend : g.followers ⟨last, [], ["first"]⟩ (executeNode last []) = [] := by decide
    rw [hstarts, visits_nil_cons, visits_singleton _ (by decide) hfollow,
      visits_singleton _ (by decide) hend, visits_nil_nil]
    rfl
  refine ⟨?_, ?_⟩
  · exact (run_recites g (e := e) rfl).1 .inert ()
      (Environment.history_resumes (fun _ _ _ => rfl) g e ())
  · obtain ⟨finished, halone⟩ := run_result (e := e) hvalid rfl
    rw [hvisits, ← (Watched.run_ofPlan_harmless g 1 e (w := w) ⟨by decide, rfl⟩).1] at halone
    have hunder : (Watched.run g e w).1 = _ := halone
    obtain ⟨result, events, hresult, htrace, hrecounted⟩ :=
      (run_recites g (e := e) rfl).2 w (by decide) (by rw [hunder]; exact nofun)
    rw [hunder] at hresult
    obtain rfl := Ending.returned.inj hresult
    rw [htrace]
    exact ⟨_, hunder, rfl, hrecounted⟩

end Graph

/-! ## Ends that are announced -/

namespace Graph

/-- A run of a valid workflow without warnings pauses first for its first start node. -/
theorem resume_announced {g : Graph} (hvalid : g.report.valid = true)
    (hclean : g.report.warnings = []) {n : Node} {rest : List Node}
    (hstarts : g.starts = n :: rest) (base : Executor) {e : Executor}
    (hgo : e.cancelRequested = false) :
    (Run.announced g base).resume e
      = (e, .waits .pause ((Run.announced g base).goTo (.paused (seed n) [] rest))) := by
  show Run.warn _ e g.report.warnings = _
  rw [hclean]
  show (if g.report.valid = true then Run.walk _ e [] g.starts else _) = _
  rw [if_pos hvalid, hstarts]
  show (if e.cancelRequested = true then _ else _) = _
  rw [if_neg (ne_true_of_eq_false hgo)]
  rfl

theorem Traverses.completed_iff {g : Graph} {works : List Work} {status : RunStatus}
    {visited : List String} (h : g.Traverses works status visited) :
    status = .completed ↔ g.report.valid = true ∧ works.map g.visit = g.itinerary := by
  rw [h.status]
  constructor
  · intro hcompleted
    split at hcompleted
    · rename_i hvalid
      split at hcompleted
      · cases hcompleted
      · rename_i hlong
        refine ⟨hvalid, h.ahead.eq_of_length (Nat.le_antisymm h.ahead.length_le ?_)⟩
        rw [List.length_map]
        exact Nat.le_of_not_lt hlong
    · cases hcompleted
  · rintro ⟨hvalid, hwhole⟩
    have hlong : ¬ works.length < g.itinerary.length := by
      rw [← hwhole, List.length_map]
      exact Nat.lt_irrefl _
    rw [if_pos hvalid, if_neg hlong]

/-- **What the end that a run announces says.** If nobody broke the run off before, it is
`completed` exactly if the workflow is valid and all of its work was done. A run that is
broken off after its announcement announces its end at once and nothing more, and this is
always `completed` but where the note of its cancellation was broken off: of an invalid
workflow as of a valid one, whatever is left of its work. -/
theorem end_announced (g : Graph) {e : Executor} (hidle : e.executing = false) {ω : Type}
    (env : Environment ω) (w : ω) :
    (∃ calm works status visited count reply,
      env.history g e w = calm ++ [(.event (.afterRun status visited count), reply)]
        ∧ Calm calm ∧ g.Traverses works status visited
        ∧ (status = .completed ↔ g.report.valid = true ∧ works.map g.visit = g.itinerary))
    ∨ (∃ i, env.history g e w = [(g.announcement, .interrupt i)])
    ∨ ∃ calm signal i works count reply,
      env.history g e w = calm ++ [(signal, .interrupt i),
          (.event (.afterRun signal.status (passedIds works) count), reply)]
        ∧ Calm calm ∧ calm ≠ [] ∧ signal.ends = false ∧ g.Begins works := by
  have hcourse := course (g := g) hidle env w
  generalize env.history g e w = history at hcourse ⊢
  generalize (env.run g e w).1 = ending at hcourse
  cases hcourse with
  | finished reply hcalm htraverses htold =>
      exact .inl ⟨_, _, _, _, _, _, rfl, hcalm, htraverses, htraverses.completed_iff⟩
  | refused i => exact .inr (.inl ⟨i, rfl⟩)
  | broken hcalm hannounced hleaves =>
      obtain ⟨hgoesOn, rfl, works, hbegins, rfl⟩ := hleaves
      exact .inr (.inr ⟨_, _, _, works, _, _, rfl, hcalm, hannounced, hgoesOn, hbegins⟩)

/-- A run of two nodes that is broken off in its first pause says that it completed, and has
executed neither. -/
theorem end_announced_at_first_pause :
    let first : Node := ⟨"first", .start, .origin, "Start", some (.start (.record []))⟩
    let last : Node := ⟨"last", .finish, .origin, "End", some (.finish (.text "End"))⟩
    let g : Graph := ⟨[first, last], [⟨"edge", "first", "last", .null, .null, .null, true⟩]⟩
    let env : Environment Unit := ⟨fun signal e w =>
      (if signal = .pause then .interrupt .cancelled else .resume, e, w)⟩
    ∃ calm signal i works count reply,
      env.history g (.idle none 0) () = calm ++ [(signal, .interrupt i),
          (.event (.afterRun signal.status (passedIds works) count), reply)]
        ∧ signal = .pause ∧ g.report.valid = true ∧ works.map g.visit ≠ g.itinerary := by
  intro first last g env
  have hvalid : g.report.valid = true :=
    report_valid_of_rank (["first", "last"].idxOf ·) (by decide) (by decide) (by decide)
  have hclean : g.report.warnings = [] := by decide
  have hstarts : g.starts = [first] := rfl
  have hhistory : env.history g (.idle none 0) () = [(g.announcement, .resume),
      (.pause, .interrupt .cancelled), (.event (.afterRun .completed [] 0), .resume)] := by
    let noted := env.noting fun signal e w => (signal, (env.react signal e w).1)
    have hannounced : noted.react g.announcement (Executor.idle none 0).begin.readClock.2 ((), [])
        = (.resume, (Executor.idle none 0).begin.readClock.2, (), [(g.announcement, .resume)]) :=
      rfl
    unfold Environment.history
    rw [Environment.run_of_idle rfl hannounced]
    dsimp only [Run.proceed]
    rw [resume_announced hvalid hclean hstarts _ rfl, Environment.drive]
    show (Environment.drive (env.noting _) _ _ (.waits _ (Run.goTo _ (.closing _)))).2.2.2 = _
    rw [Environment.drive]
    show (Environment.drive (env.noting _) _ _ (.ends _)).2.2.2 = _
    rw [Environment.drive]
    rfl
  rcases end_announced g (e := .idle none 0) rfl env () with
    ⟨calm, works, status, visited, count, reply, hends, hcalm, -⟩ | ⟨i, hends⟩
    | ⟨calm, signal, i, works, count, reply, hends, hcalm, -, -, hbegins⟩
  · rw [hhistory] at hends
    obtain ⟨rfl, -⟩ := @List.append_inj' _ [_, _] _ _ _ hends rfl
    cases (hcalm _ (List.mem_cons_of_mem _ List.mem_cons_self)).1
  · rw [hhistory] at hends
    cases hends
  · refine ⟨calm, signal, i, works, count, reply, hends, ?_⟩
    rw [hhistory] at hends
    obtain ⟨-, htail⟩ := @List.append_inj' _ [_] _ _ _ hends rfl
    obtain ⟨hbroken, hend⟩ := List.cons.inj htail
    obtain ⟨-, hvisited, -⟩ :=
      Event.afterRun.inj (Signal.event.inj (Prod.mk.inj (List.cons.inj hend).1).1)
    refine ⟨(Prod.mk.inj hbroken).1.symm, hvalid, fun hwhole => ?_⟩
    cases works with
    | nil =>
        rw [itinerary, hstarts, visits_nil_cons, visits_cons] at hwhole
        cases hwhole
    | cons v works =>
        have hfresh := (hbegins.descends v List.mem_cons_self).not_revisits hvalid
        have hcons : passedIds (v :: works) = passedIds [v] ++ passedIds works :=
          passedIds_append [v] works
        rw [hcons, passedIds_of_fresh hfresh] at hvisited
        cases hvisited

end Graph
end Workflow

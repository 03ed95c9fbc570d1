import Workflow.Proofs.Run.Alone
import Workflow.Proofs.Run.History

/-!
# Capacities

A run takes no notice of the capacity of its executor. An executor with a capacity is
simulated by one without: whatever the one without does in a step, the other one does too,
and its log holds the last entries of the log of the one without (`Run.proceed_capped`).
Surroundings that clear logs, cancel or break off, but do not look at the log, carry this
from signal to signal to the end of a run (`Environment.run_capped`).
-/

namespace Workflow

/-! ## Runs under a capacity -/

/-- The executor with a capacity, and with what is kept of its log under it. -/
def Executor.capped (bound : Nat) (e : Executor) : Executor :=
  { e with capacity := some bound, logs := keepLast bound e.logs }

/-- The event under a capacity: only the end of a run tells how many entries were kept. -/
def Event.capped (bound : Nat) : Event → Event
  | .afterRun status visited count => .afterRun status visited (min bound count)
  | e => e

def Signal.capped (bound : Nat) : Signal → Signal
  | .event e => .event (e.capped bound)
  | .pause => .pause

def RunResult.capped (bound : Nat) (r : RunResult) : RunResult :=
  { r with logs := keepLast bound r.logs }

def Ending.capped (bound : Nat) : Ending → Ending
  | .returned result => .returned (result.capped bound)
  | .broken i => .broken i

def Stage.capped (bound : Nat) : Stage → Stage
  | .closing ending => .closing (ending.capped bound)
  | stage => stage

def Run.capped (bound : Nat) (r : Run) : Run := { r with stage := r.stage.capped bound }

def Turn.capped (bound : Nat) : Turn → Turn
  | .waits signal r => .waits (signal.capped bound) (r.capped bound)
  | .ends ending => .ends (ending.capped bound)

def cappedStep (bound : Nat) (next : Executor × Turn) : Executor × Turn :=
  (next.1.capped bound, next.2.capped bound)

variable (bound : Nat)

namespace Executor

theorem clearLogs_capped (e : Executor) :
    (e.capped bound).clearLogs = e.clearLogs.capped bound :=
  congrArg (fun logs => { e with capacity := some bound, logs }) (keepLast_nil bound).symm

theorem cancel_capped (e : Executor) : (e.capped bound).cancel = e.cancel.capped bound := by
  cases hbusy : e.executing <;> simp [cancel, capped, hbusy]

theorem begin_capped (e : Executor) : (e.capped bound).begin = e.begin.capped bound :=
  congrArg (fun logs =>
      { e with capacity := some bound, logs, executing := true, cancelRequested := false })
    (keepLast_nil bound).symm

variable {e : Executor} (hfree : e.capacity = none)
include hfree

theorem append_capped (entry : LogEntry) :
    (e.capped bound).append entry = (e.append entry).capped bound := by
  unfold append
  rw [e.keep_of_free hfree]
  exact congrArg (fun logs => { e with capacity := some bound, logs })
    (keepLast_keepLast_append bound e.logs [entry])

theorem noteNode_capped (n : Node) (input output : Packet) (status : LogStatus)
    (message : String) :
    (e.capped bound).noteNode n input output status message
      = ((e.noteNode n input output status message).1,
          (e.noteNode n input output status message).2.capped bound) :=
  congrArg (Prod.mk _) (append_capped (e := e.readClock.2) bound hfree _)

theorem noteSystem_capped (status : LogStatus) (message : String) :
    (e.capped bound).noteSystem status message
      = ((e.noteSystem status message).1, (e.noteSystem status message).2.capped bound) :=
  congrArg (Prod.mk _) (append_capped (e := e.readClock.2) bound hfree _)

end Executor

namespace Run

theorem close_capped (r : Run) (e : Executor) (ending : Ending) :
    (r.capped bound).close (e.capped bound) (ending.capped bound)
      = cappedStep bound (r.close e ending) := by
  have hcount : (e.capped bound).logs.length = min bound e.logs.length := length_keepLast _ _
  unfold close
  rw [hcount]
  rfl

theorem conclude_capped (r : Run) (e : Executor) :
    (r.capped bound).conclude (e.capped bound) = cappedStep bound (r.conclude e) :=
  close_capped bound r e.readClock.2
    (.returned ⟨r.status, r.visited, e.logs, some r.started, some ⟨e.clock + 1⟩⟩)

section

variable (r : Run) {e : Executor} (hfree : e.capacity = none)
include hfree

theorem noteSystem_capped (status : LogStatus) (message : String) (stage : Stage) :
    (r.capped bound).noteSystem (e.capped bound) status message (stage.capped bound)
      = cappedStep bound (r.noteSystem e status message stage) := by
  unfold noteSystem
  rw [e.noteSystem_capped bound hfree]
  rfl

theorem stop_capped :
    (r.capped bound).stop (e.capped bound) = cappedStep bound (r.stop e) :=
  noteSystem_capped bound { r with status := .cancelled } hfree _ _ .concluding

theorem take_capped (w : Work) (queue : List Work) (starts : List Node) :
    (r.capped bound).take (e.capped bound) w queue starts
      = cappedStep bound (r.take e w queue starts) := by
  unfold take
  rw [stop_capped bound r hfree, e.noteNode_capped bound hfree]
  have hsame : (e.capped bound).cancelRequested = e.cancelRequested := rfl
  rw [hsame]
  split
  · rfl
  · split <;> rfl

theorem walk_capped (queue : List Work) (starts : List Node) :
    (r.capped bound).walk (e.capped bound) queue starts
      = cappedStep bound (r.walk e queue starts) := by
  cases queue with
  | cons w queue => exact take_capped bound r hfree w queue starts
  | nil =>
      cases starts with
      | cons n starts => exact take_capped bound r hfree _ [] starts
      | nil => exact conclude_capped bound r e

theorem refuse_capped (defects : List Defect) :
    (r.capped bound).refuse (e.capped bound) defects = cappedStep bound (r.refuse e defects) := by
  cases defects with
  | cons d rest => exact noteSystem_capped bound r hfree _ _ (.refusing rest)
  | nil => exact conclude_capped bound { r with status := .invalid } e

theorem warn_capped (warnings : List Warning) :
    (r.capped bound).warn (e.capped bound) warnings = cappedStep bound (r.warn e warnings) := by
  cases warnings with
  | cons w rest => exact noteSystem_capped bound r hfree _ _ (.warning rest)
  | nil =>
      show (if r.plan.report.valid = true then (r.capped bound).walk _ [] _
        else (r.capped bound).refuse _ _) = cappedStep bound (if _ then _ else _)
      rw [walk_capped bound r hfree, refuse_capped bound r hfree]
      split <;> rfl

theorem execute_capped (w : Work) (queue : List Work) (starts : List Node) :
    (r.capped bound).execute (e.capped bound) w queue starts
      = cappedStep bound (r.execute e w queue starts) := by
  unfold execute
  dsimp only
  rw [e.noteNode_capped bound hfree]
  rfl

theorem leave_capped (w : Work) (o : Outcome) (queue : List Work) (starts : List Node) :
    (r.capped bound).leave (e.capped bound) w o queue starts
      = cappedStep bound (r.leave e w o queue starts) := by
  show (if o.status = .error then _ else (r.capped bound).walk _ (queue ++ r.plan.followers w o) _)
    = cappedStep bound (if _ then _ else _)
  rw [walk_capped bound r hfree]
  split <;> rfl

theorem resume_capped :
    (r.capped bound).resume (e.capped bound) = cappedStep bound (r.resume e) := by
  have hstage : (r.capped bound).stage = r.stage.capped bound := rfl
  unfold resume
  rw [hstage]
  cases r.stage with
  | opened => exact warn_capped bound r hfree _
  | warning rest => exact warn_capped bound r hfree rest
  | refusing rest => exact refuse_capped bound r hfree rest
  | walking queue starts => exact walk_capped bound r hfree queue starts
  | paused w queue starts =>
      show (if e.cancelRequested = true then (r.capped bound).stop _ else _)
        = cappedStep bound (if _ then _ else _)
      rw [stop_capped bound r hfree]
      split <;> rfl
  | entered w queue starts => exact execute_capped bound r hfree w queue starts
  | noted w o queue starts => rfl
  | left w o queue starts => exact leave_capped bound r hfree w o queue starts
  | concluding => exact conclude_capped bound r e
  | closing ending => rfl

end

theorem breakOff_capped (r : Run) (e : Executor) (i : Interrupt) :
    (r.capped bound).breakOff (e.capped bound) i = cappedStep bound (r.breakOff e i) := by
  have hstage : (r.capped bound).stage = r.stage.capped bound := rfl
  have hclose := close_capped bound r e (.broken i)
  unfold breakOff
  rw [hstage]
  cases r.stage with
  | opened | closing _ => rfl
  | _ => exact hclose

/-- **One step under a capacity** is the step without it. -/
theorem proceed_capped (r : Run) {e : Executor} (hfree : e.capacity = none) (reply : Reply) :
    (r.capped bound).proceed (e.capped bound) reply = cappedStep bound (r.proceed e reply) := by
  cases reply with
  | resume => exact resume_capped bound r hfree
  | interrupt i => exact breakOff_capped bound r e i

theorem start_capped (g : Graph) (e : Executor) :
    start g (e.capped bound) = cappedStep bound (start g e) := by
  cases hbusy : e.executing with
  | true =>
      have hbusy' : (e.capped bound).executing = true := hbusy
      rw [start, start, if_pos hbusy, if_pos hbusy']
      rfl
  | false =>
      have hidle' : (e.capped bound).executing = false := hbusy
      rw [start_of_idle g hbusy, start_of_idle g hidle', e.begin_capped]
      rfl

theorem capacity_start (g : Graph) {e : Executor} (hfree : e.capacity = none) :
    (start g e).1.capacity = none := by
  unfold start
  split <;> exact hfree

end Run

/-! ## What a step appends -/

/-- The entry that was appended before a signal. -/
def Signal.entries : Signal → List LogEntry
  | .event (.log entry) => [entry]
  | _ => []

/-- What a step does to a log that holds no more than is kept: it appends the entry that it
announces, or it closes the run and tells of the log as it is. -/
inductive Extends (e : Executor) : Executor × Turn → Prop
  | goesOn {e' : Executor} {signal : Signal} {r : Run} (capacity : e'.capacity = e.capacity)
      (logs : e'.logs = e.keep (e.logs ++ signal.entries)) (hopen : r.stage.settled? = none) :
      Extends e (e', .waits signal r)
  | closes {e' : Executor} (r : Run) {ending : Ending} (capacity : e'.capacity = e.capacity)
      (logs : e'.logs = e.logs)
      (told : ∀ result, ending = .returned result →
        result.status = r.status ∧ result.visited = r.visited ∧ result.logs = e.logs) :
      Extends e (r.close e' ending)

namespace Extends

variable {e : Executor} (hkept : e.keep e.logs = e.logs) (r : Run)

theorem of_append {clock : Nat} {entry : LogEntry} {r : Run}
    (hopen : r.stage.settled? = none) :
    Extends e ({ e with clock }.append entry, .waits (.event (.log entry)) r) :=
  .goesOn rfl rfl hopen

theorem of_conclude (e : Executor) (r : Run) : Extends e (r.conclude e) :=
  .closes r rfl rfl fun result hresult => by
    obtain rfl := Ending.returned.inj hresult
    exact ⟨rfl, rfl, rfl⟩

theorem of_refuse (e : Executor) (r : Run) (defects : List Defect) :
    Extends e (r.refuse e defects) := by
  cases defects with
  | cons d rest => exact of_append rfl
  | nil => exact of_conclude e { r with status := .invalid }

include hkept

theorem quietly {signal : Signal} {r : Run} (hquiet : signal.entries = [])
    (hopen : r.stage.settled? = none) : Extends e (e, .waits signal r) := by
  refine .goesOn rfl ?_ hopen
  rw [hquiet, List.append_nil, hkept]

theorem of_take (w : Work) (queue : List Work) (starts : List Node) :
    Extends e (r.take e w queue starts) := by
  unfold Run.take
  split
  · exact of_append rfl
  · split
    · exact of_append rfl
    · exact quietly hkept rfl rfl

theorem of_walk (queue : List Work) (starts : List Node) :
    Extends e (r.walk e queue starts) := by
  cases queue with
  | cons w queue => exact of_take hkept r w queue starts
  | nil =>
      cases starts with
      | cons n starts => exact of_take hkept r _ [] starts
      | nil => exact of_conclude e r

theorem of_warn (warnings : List Warning) : Extends e (r.warn e warnings) := by
  cases warnings with
  | cons w rest => exact of_append rfl
  | nil =>
      show Extends e (if r.plan.report.valid = true then _ else _)
      split
      · exact of_walk hkept r [] _
      · exact of_refuse e r _

theorem of_resume (hopen : r.stage.settled? = none) : Extends e (r.resume e) := by
  unfold Run.resume
  split
  · exact of_warn hkept r _
  · exact of_warn hkept r _
  · exact of_refuse e r _
  · exact of_walk hkept r _ _
  · split
    · exact of_append rfl
    · exact quietly hkept rfl rfl
  · exact of_append rfl
  · exact quietly hkept rfl rfl
  · unfold Run.leave
    split
    · exact quietly hkept rfl rfl
    · exact of_walk hkept r _ _
  · exact of_conclude e r
  · rename_i hstage
    rw [hstage] at hopen
    cases hopen

end Extends

theorem Run.capacity_proceed (r : Run) {e : Executor} (hfree : e.capacity = none)
    (reply : Reply) :
    (r.proceed e reply).1.capacity = none := by
  cases reply with
  | resume =>
      cases hsettled : r.stage.settled? with
      | none =>
          show (r.resume e).1.capacity = none
          have hextends := Extends.of_resume (e.keep_of_free hfree _) r hsettled
          generalize r.resume e = next at hextends ⊢
          cases hextends with
          | goesOn capacity logs hopen => exact capacity.trans hfree
          | closes r capacity logs told => exact capacity.trans hfree
      | some ending =>
          rw [proceed, resume_of_settled hsettled]
          exact hfree
  | interrupt i =>
      show (r.breakOff e i).1.capacity = none
      unfold breakOff
      split <;> exact hfree

/-! ## Runs in surroundings that do not look at the log -/

namespace Environment

variable {ω ω' : Type} {env : Environment ω} {env' : Environment ω'} {f : ω → ω'} {P : ω → Prop}
  (hreact : ∀ signal e w, e.capacity = none → P w →
    env'.react (signal.capped bound) (e.capped bound) (f w)
        = ((env.react signal e w).1, (env.react signal e w).2.1.capped bound,
            f (env.react signal e w).2.2)
      ∧ (env.react signal e w).2.1.capacity = none ∧ P (env.react signal e w).2.2)
include hreact

theorem drive_capped (e : Executor) (w : ω) (turn : Turn) (hfree : e.capacity = none)
    (h : P w) :
    env'.drive (e.capped bound) (f w) (turn.capped bound)
      = ((env.drive e w turn).1.capped bound, (env.drive e w turn).2.1.capped bound,
          f (env.drive e w turn).2.2) := by
  fun_induction Environment.drive env e w turn with
  | case1 e w ending => exact drive.eq_1 ..
  | case2 e w signal run answer next ih =>
      obtain ⟨hanswer, hfree', hkept⟩ := hreact signal e w hfree h
      have hnext : (run.capped bound).proceed (answer.2.1.capped bound) answer.1
          = cappedStep bound next := run.proceed_capped bound hfree' answer.1
      rw [Turn.capped, drive, hanswer]
      dsimp only
      rw [hnext]
      exact ih (run.capacity_proceed hfree' answer.1) hkept

theorem run_capped (g : Graph) {e : Executor} {w : ω} (hfree : e.capacity = none) (h : P w) :
    env'.run g (e.capped bound) (f w)
      = ((env.run g e w).1.capped bound, (env.run g e w).2.1.capped bound,
          f (env.run g e w).2.2) := by
  unfold run
  dsimp only
  rw [Run.start_capped]
  exact drive_capped bound hreact _ w _ (Run.capacity_start g hfree) h

end Environment

end Workflow

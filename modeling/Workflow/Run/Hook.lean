import Workflow.Run.Drive

/-!
# Hooks

A hook waits for the nth announcement of an event and then acts once: it fails, cancels the
run, starts another one, empties the log, or breaks the run off. The hooks of an event are
called in order; one that fails or breaks off keeps those after it from being called.

What is put off waits for the next pause of whatever run reaches one, and then cancels this
run.
-/

namespace Workflow

/-- What a hook does when its time comes. -/
inductive HookAction
  | fail
  | cancel
  /-- The run is to be cancelled at its next pause. -/
  | cancelSoon
  /-- Another run is asked for. -/
  | nested
  /-- Another run is asked for in the way that only works outside of runs. -/
  | nestedSync
  | clearLogs
  | interrupt (i : Interrupt)
  deriving DecidableEq, Repr

/-- A hook and how often its event was announced to it. -/
structure Hook where
  event : String
  nth : Nat
  action : HookAction
  seen : Nat
  deriving DecidableEq, Repr

/-- How a call of a hook ends. -/
inductive CallEnding
  | returned
  | raised
  | interrupted (i : Interrupt)
  deriving DecidableEq, Repr

/-- What a request for another run gave. -/
inductive NestedOutcome
  | ran (result : RunResult)
  | insideRun
  deriving DecidableEq, Repr

/-- Why the other way to ask for a run fails inside one. -/
def NestedOutcome.insideRunMessage : String :=
  "WorkflowExecutor.run() cannot be called inside an active event loop. Use await arun()."

/-- What waits for the next pause. -/
structure PutOff where
  /-- A hook asked for a cancellation. -/
  cancel : Bool
  /-- An interrupt will come from outside. -/
  interrupt : Bool
  deriving DecidableEq, Repr

namespace PutOff

def nothing : PutOff := ⟨false, false⟩

/-- Whether a run is to be cancelled at its next pause. -/
def due (p : PutOff) : Bool := p.cancel || p.interrupt

end PutOff

/-- A state watched by hooks: what was announced, and what the requests for other runs
gave. -/
structure Watched (σ : Type) where
  hooks : List Hook
  putOff : PutOff
  trace : List Event
  nested : List NestedOutcome
  state : σ

namespace Watched

variable {σ : Type}

def ofHooks (hooks : List Hook) (state : σ) : Watched σ := ⟨hooks, .nothing, [], [], state⟩

def addNested (w : Watched σ) (outcome : NestedOutcome) : Watched σ :=
  { w with nested := w.nested ++ [outcome] }

abbrev Nested (σ : Type) := Executor → Watched σ → CallEnding × Executor × Watched σ

def act (nested : Nested σ) (action : HookAction) (e : Executor) (w : Watched σ) :
    CallEnding × Executor × Watched σ :=
  match action with
  | .fail => (.raised, e, w)
  | .cancel => (.returned, e.cancel, w)
  | .cancelSoon => (.returned, e, { w with putOff := { w.putOff with cancel := true } })
  | .nested => nested e w
  | .nestedSync => (.returned, e, w.addNested .insideRun)
  | .clearLogs => (.returned, e.clearLogs, w)
  | .interrupt i => (.interrupted i, e, w)

def callHook (nested : Nested σ) (event : Event) (place : Nat) (e : Executor) (w : Watched σ) :
    CallEnding × Executor × Watched σ :=
  match w.hooks[place]? with
  | none => (.returned, e, w)
  | some hook =>
    if hook.event = event.name then
      let hook := { hook with seen := hook.seen + 1 }
      let w := { w with hooks := w.hooks.set place hook }
      if hook.seen = hook.nth then act nested hook.action e w else (.returned, e, w)
    else (.returned, e, w)

/-- Announces an event to the hooks at the given places in turn. -/
def callHooks (nested : Nested σ) (event : Event) (e : Executor) (w : Watched σ) :
    List Nat → Reply × Executor × Watched σ
  | [] => (.resume, e, w)
  | place :: places =>
    match callHook nested event place e w with
    | (.returned, e, w) => callHooks nested event e w places
    | (.raised, e, w) => (.resume, e, w)
    | (.interrupted i, e, w) => (.interrupt i, e, w)

/-- The surroundings made of hooks: events are noted and announced to each hook, and a pause
carries out what was put off until then. -/
def environment (nested : Nested σ) : Environment (Watched σ) where
  react signal e w :=
    match signal with
    | .event event =>
      callHooks nested event e { w with trace := w.trace ++ [event] }
        (List.range w.hooks.length)
    | .pause =>
      if w.putOff.due then (.resume, e.cancel, { w with putOff := .nothing })
      else (.resume, e, w)

def ignoreNested : Nested σ := fun e w => (.returned, e, w)

/-- Hooks that may ask for runs of the same workflow, nested up to the given depth. -/
def ofPlan (plan : Graph) : Nat → Environment (Watched σ)
  | 0 => environment ignoreNested
  | depth + 1 => environment fun e w =>
    match (ofPlan plan depth).run plan e w with
    | (.returned result, e, w) => (.returned, e, w.addNested (.ran result))
    | (.broken i, e, w) => (.interrupted i, e, w)

/-- Runs a workflow under hooks. What was put off until a pause is forgotten at the end. -/
def run (plan : Graph) (e : Executor) (w : Watched σ) : Ending × Executor × Watched σ :=
  let (ending, e, w) := (ofPlan plan w.hooks.length).run plan e w
  (ending, e, { w with putOff := .nothing })

end Watched

/-- Runs a workflow so many times on one executor under the same hooks, unless a run is
broken off. -/
def runTimes {σ : Type} (plan : Graph) :
    Nat → Executor → Watched σ → Except Interrupt (List RunResult × Executor × Watched σ)
  | 0, e, w => .ok ([], e, w)
  | n + 1, e, w =>
    match Watched.run plan e w with
    | (.broken i, _, _) => .error i
    | (.returned result, e, w) => do
      let (rest, e, w) ← runTimes plan n e w
      return (result :: rest, e, w)

end Workflow

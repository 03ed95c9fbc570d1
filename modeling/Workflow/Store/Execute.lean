import Workflow.Store.Travel

/-!
# Running the workflow of a store

A store runs its graph on its executor, keeps the result, records it in the archive unless
the executor was busy, and posts a notice about it. A run that is broken off leaves none of
this. A hook may ask the store for another run, which is refused while one is in progress.
-/

namespace Workflow

/-- The message of a notice about a run, if there is one. -/
def RunResult.notice? (r : RunResult) : Option (Level × String) :=
  if r.status = .invalid then some (.error, "Workflow validation failed; see execution log.")
  else if 0 < r.errorCount then
    some (.warning, s!"Workflow finished with {r.errorCount} error(s).")
  else if r.status = .completed then some (.success, "Workflow executed successfully.")
  else none

def instantText (t : Option Instant) : String := (t.map Instant.text).getD ""

def Archive.recordResult (a : Archive) (r : RunResult) : Except Failure String × Archive :=
  a.recordRun (r.logs.map .ofEntry) r.status.name (instantText r.started)
    (some (instantText r.finished))

namespace Store

def isTableFailure : Failure → Bool
  | .missingTable _ | .notADatabase | .duplicateKey _ => true
  | _ => false

/-- Records a result in the archive. That the tables refuse it is passed over. -/
def record (s : Store) (r : RunResult) : Except Failure Unit × Store :=
  match s.archive with
  | none => (.ok (), s)
  | some a =>
    if r.status = .busy then (.ok (), s)
    else
      match a.recordResult r with
      | (.ok _, a) => (.ok (), { s with archive := some a })
      | (.error f, a) =>
        (if isTableFailure f then .ok () else .error f, { s with archive := some a })

/-- Keeps a result, records it and posts a notice about it. -/
def settle (s : Store) (r : RunResult) : Except Failure Unit × Store :=
  match record { s with lastRun := some r } r with
  | (.error f, s) => (.error f, s)
  | (.ok _, s) =>
    match r.notice? with
    | none => (.ok (), s)
    | some (level, message) => s.notify level message

/-- Requests of hooks for another run of the store, nested up to the given depth. -/
def nestedRun : Nat → Watched.Nested Store
  | 0 => Watched.ignoreNested
  | depth + 1 => fun e w =>
    match (Watched.environment (nestedRun depth)).run w.state.graph e w with
    | (.broken i, e, w) => (.interrupted i, e, w)
    | (.returned r, e, w) =>
      match settle { w.state with executor := e } r with
      | (.ok _, s) => (.returned, s.executor, { w with state := s }.addNested (.ran r))
      | (.error _, s) => (.raised, s.executor, { w with state := s })

/-- Runs the workflow under hooks, and gives the result with what requests for other runs
gave. -/
def executeWatched (s : Store) (w : Watched Unit) :
    Except Failure RunResult × List NestedOutcome × Store :=
  let env := Watched.environment (nestedRun w.hooks.length)
  let watched : Watched Store := ⟨w.hooks, w.putOff, w.trace, w.nested, s⟩
  match env.run s.graph s.executor watched with
  | (.broken i, e, w) => (.error (.interrupted i), w.nested, { w.state with executor := e })
  | (.returned r, e, w) =>
    let (settled, s) := settle { w.state with executor := e } r
    (settled.map fun _ => r, w.nested, s)

def execute (s : Store) (hooks : List Hook) :
    Except Failure RunResult × List NestedOutcome × Store :=
  s.executeWatched (Watched.ofHooks hooks ())

end Store
end Workflow

import Workflow.Run.Bound

/-!
# Runs in their surroundings

The surroundings of a run see every signal, may change the executor and their own state, and
reply. A run in its surroundings is driven from signal to signal until it ends.
-/

namespace Workflow

/-- What acts at the signals of a run, with a state of its own. -/
structure Environment (ω : Type) where
  react : Signal → Executor → ω → Reply × Executor × ω

namespace Environment

variable {ω : Type}

def inert : Environment Unit := ⟨fun _ e w => (.resume, e, w)⟩

def drive (env : Environment ω) (e : Executor) (w : ω) (turn : Turn) :
    Ending × Executor × ω :=
  match turn with
  | .ends ending => (ending, e, w)
  | .waits signal run =>
    let answer := env.react signal e w
    let next := run.proceed answer.2.1 answer.1
    env.drive next.1 answer.2.2 next.2
termination_by turn.work
decreasing_by exact Run.proceed_work _ _ _

/-- Asks an executor for a run and drives it to its end. -/
def run (env : Environment ω) (plan : Graph) (e : Executor) (w : ω) :
    Ending × Executor × ω :=
  let opened := Run.start plan e
  env.drive opened.1 w opened.2

end Environment

def Graph.run (plan : Graph) (e : Executor) : Ending × Executor :=
  let (ending, e, _) := Environment.inert.run plan e ()
  (ending, e)

/-- Walks from one piece of work alone, without checks, and gives the result. -/
def Graph.walk (plan : Graph) (w : Work) (e : Executor) : Ending × Executor :=
  let (ending, e, _) := Environment.inert.drive e () (.waits .pause (Run.walkFrom plan w))
  (ending, e)

end Workflow

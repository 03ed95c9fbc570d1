import Workflow.Store.Perform

/-!
# Stepping through the history

A step puts a snapshot in the place of the graph and announces the change. Listeners may edit
the store meanwhile: their edits are announced too, but nothing is saved in the history
before the step is over.
-/

namespace Workflow

namespace Store

/-- Performs edits in turn up to the first that fails, and tells whether all went well. -/
def performAll (s : Store) : List Edit → Bool × Store
  | [] => (true, s)
  | edit :: edits =>
    match s.perform edit with
    | (.ok _, s) => s.performAll edits
    | (.error _, s) => (false, s)

/-- Lets listeners hear of a step through the history. -/
def hearStep (s : Store) : List ChangeListener → Store
  | [] => s
  | .autosave :: rest => s.hearStep rest
  | .observer edits raises :: rest =>
    let (done, s) := s.performAll edits
    if done && !raises then s.hearStep rest else s

def announceStep (s : Store) (action : Action) : Store :=
  hearStep { s with changes := s.changes ++ [⟨action, s.document⟩] } s.listeners

def applySnapshot (s : Store) (g : Graph) (action : Action) : Store :=
  let s := { s with graph := g, selection := .none, history := s.history.beginApply }
  let s := s.announceStep action
  { s with history := s.history.endApply }

def undo (s : Store) : Bool × Store :=
  match s.history.undo with
  | (none, _) => (false, s)
  | (some g, history) => (true, applySnapshot { s with history } g .undo)

/-- Steps forward, and tells whether that was possible. -/
def redo (s : Store) : Bool × Store :=
  match s.history.redo with
  | (none, _) => (false, s)
  | (some g, history) => (true, applySnapshot { s with history } g .redo)

end Store
end Workflow

import Workflow.Archive.Basic
import Workflow.History
import Workflow.Notice
import Workflow.Run.Hook
import Workflow.Store.Edit

/-!
# Stores

A store is the state of an editor for one workflow: the graph, the part of it in view, what
is selected, the history, and the executor that runs it. It may have an archive and a queue
of notices.

Whatever changes the graph is committed: the graph is saved in the history, and the change is
announced to the listeners in order. A listener that raises keeps those after it from hearing
of the change, and the change stays.
-/

namespace Workflow

/-- What is selected: the node shown, and all selected ones in order. -/
structure Selection where
  shown : Option String
  ids : List String
  deriving DecidableEq, Repr

namespace Selection

def none : Selection := ⟨.none, []⟩

/-- These nodes are selected and the first of them is shown. -/
def ofIds (ids : List String) : Selection := ⟨ids.head?, ids⟩

def single (id : Option String) : Selection := ⟨id, id.toList⟩

/-- The selection without the identities removed. The node shown stays if it was not
removed. -/
def without (s : Selection) (removed : List String) : Selection :=
  let ids := s.ids.filter (· ∉ removed)
  match s.shown with
  | some id => if id ∈ removed then ofIds ids else ⟨some id, ids⟩
  | .none => ⟨.none, ids⟩

end Selection

/-- The state of an editor. -/
structure Store where
  graph : Graph
  viewport : Viewport
  selection : Selection
  history : History
  executor : Executor
  archive : Option Archive
  notices : Option NoticeQueue
  listeners : List ChangeListener
  /-- What the listeners of notices raise, if they do. -/
  noticeListeners : List (Option String)
  lastRun : Option RunResult
  /-- How many nodes were given an identity. -/
  issued : Nat
  /-- The changes announced so far. -/
  changes : List Change
  deriving DecidableEq, Repr

namespace Store

/-- An empty store with the listeners registered before it; one that is to save the document
after each change does so after them. -/
def create (executor : Executor) (history : History) (archive : Option Archive)
    (notices : Option NoticeQueue) (listeners : List ChangeListener) (autosave : Bool)
    (issued : Nat) : Store where
  graph := .empty
  viewport := .initial
  selection := .none
  history := history
  executor := executor
  archive := archive
  notices := notices
  listeners := listeners ++ if archive.isSome && autosave then [.autosave] else []
  noticeListeners := []
  lastRun := none
  issued := issued
  changes := []

/-- An empty store with the usual bounds and without an archive. -/
def plain (notices : Option NoticeQueue) (clock issued : Nat) : Store :=
  create (.idle (some Executor.defaultCapacity.toNat) clock) (.ofCap History.defaultCap) none
    notices [] false issued

def document (s : Store) : Document := ⟨s.graph.nodes, s.graph.edges, some s.viewport⟩

def shownNode? (s : Store) : Option Node := s.selection.shown.bind s.graph.findNode?

def report (s : Store) : Report := s.graph.report

/-- Posts a notice, if there is a queue. Its listeners may raise. -/
def notify (s : Store) (level : Level) (message : String) : Except Failure Unit × Store :=
  match s.notices with
  | none => (.ok (), s)
  | some q =>
    let s := { s with notices := some (q.notify level message) }
    match s.noticeListeners.findSome? id with
    | some raised => (.error (.listener raised), s)
    | none => (.ok (), s)

def drainNotices (s : Store) : List Notice × Store :=
  match s.notices with
  | none => ([], s)
  | some q => (q.pending, { s with notices := some q.drain.2 })

def saveDocument (s : Store) (d : Document) : Store :=
  match s.archive with
  | none => s
  | some a => { s with archive := some (a.save d).2 }

/-! ## Committing -/

/-- Lets listeners hear of a change that is not a step through the history. -/
def hear (s : Store) (d : Document) : List ChangeListener → Store
  | [] => s
  | .autosave :: rest => (s.saveDocument d).hear d rest
  | .observer _ raises :: rest => if raises then s else s.hear d rest

/-- Announces an action that is not a step through the history. -/
def announce (s : Store) (action : Action) : Store :=
  let change : Change := ⟨action, s.document⟩
  hear { s with changes := s.changes ++ [change] } change.document s.listeners

/-- Commits an action: the graph is saved in the history and the change announced. -/
def commit (s : Store) (action : Action) : Store :=
  announce { s with history := s.history.save s.graph } action

end Store
end Workflow

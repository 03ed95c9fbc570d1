import Workflow.Proofs.Run.Mirror
import Workflow.Proofs.Store.Request

/-!
# Stores seen without their listeners

Listeners of a store have two effects at most: one that saves the document fills the slot of
the archive, and one of notices that raises breaks off the request during which a notice was
posted. So a store is looked at in a *view*, in which nobody listens to notices, and others
may listen to changes or other things be seen of the archive. A view is faithful if hearing
of a change and recording a run look the same in it.

Every request then goes alike on the store and on what is seen of it (`Echoes`): what it
leaves looks like what it leaves of what was seen, and so does its answer, unless a notice
was posted and somebody who listens to notices raises. The proof follows the operations: each
is a commit, a notice or nothing at its end, and a run of the workflow is settled by a record
and a notice.

The headline is `Store.echoes_after`.
-/

namespace Workflow

/-! ## Views -/

/-- How to look at a store: who is taken to listen to its changes, and what is seen of its
archive. -/
structure View where
  listeners : List ChangeListener
  archive : Archive → Archive

/-- What is answered to a request that is granted. -/
inductive Response
  | added (id : String)
  | edited (reply : EditReply)
  | stepped (done : Bool)
  | ran (result : RunResult)
  deriving DecidableEq, Repr

/-- Whether a request is one to import the document saved last. -/
def Request.restores : Request → Bool
  | .edit .restore => true
  | _ => false

/-- Whether hooks given with a request ask for further runs of the store. -/
def Request.nests : Request → Bool
  | .execute hooks => hooks.any (·.action = .nested)
  | _ => false

namespace Store

def respond (s : Store) : Request → Except Failure Response
  | .add id kindName position => (s.addNodeAs id kindName position).1.map .added
  | .edit e => (s.perform e).1.map .edited
  | .undo => .ok (.stepped s.undo.1)
  | .redo => .ok (.stepped s.redo.1)
  | .execute hooks => (s.execute hooks).1.map .ran

/-- A step to the snapshot that the history gives, if it gives one. -/
def stepBy (s : Store) (step : Option Graph × History) (action : Action) : Bool × Store :=
  match step with
  | (none, _) => (false, s)
  | (some g, history) => (true, applySnapshot { s with history } g action)

/-- What is made of a run of the workflow when it has ended. -/
def conclude (ended : Ending × Executor × Watched Store) :
    Except Failure RunResult × Store :=
  match ended with
  | (.broken i, e, w) => (.error (.interrupted i), { w.state with executor := e })
  | (.returned r, e, w) => (settle { w.state with executor := e } r).map (·.map fun _ => r) id

def seen (v : View) (s : Store) : Store :=
  { s with listeners := v.listeners, noticeListeners := [], archive := s.archive.map v.archive }

@[simp] theorem seen_graph (v : View) (s : Store) : (s.seen v).graph = s.graph := rfl

@[simp] theorem seen_notices (v : View) (s : Store) : (s.seen v).notices = s.notices := rfl

@[simp] theorem seen_archive (v : View) (s : Store) :
    (s.seen v).archive = s.archive.map v.archive := rfl

@[simp] theorem seen_executor (v : View) (s : Store) : (s.seen v).executor = s.executor :=
  rfl

/-- What the first listener of notices raises that raises at all. -/
def raised? (s : Store) : Option String := s.noticeListeners.findSome? id

/-- The answer to an operation, given what it does where nobody listens to notices. -/
def escape {α : Type} (s : Store) (alone : Except Failure α × Store) : Except Failure α :=
  match s.raised? with
  | none => alone.1
  | some message => if alone.2.notices = s.notices then alone.1 else .error (.listener message)

end Store

/-- The view makes no difference to a store with the listeners. -/
structure View.Faithful (v : View) (listeners : List ChangeListener) : Prop where
  hears : ∀ (s : Store) (d : Document), (s.hear d listeners).seen v = (s.seen v).hear d v.listeners
  records : ∀ (a : Archive) (r : RunResult),
    (v.archive a).recordResult r = ((a.recordResult r).1, v.archive (a.recordResult r).2)
  passive : ∀ l ∈ listeners, l.Passive
  passiveSeen : ∀ l ∈ v.listeners, l.Passive

namespace Store

/-- An operation on a store and on what is seen of it: it leaves the same to be seen, the
answer is the same unless a listener of notices raises, and nobody starts or ceases to
listen. -/
structure Echoes {α : Type} (v : View) (s : Store) (found alone : Except Failure α × Store) :
    Prop where
  state : found.2.seen v = alone.2
  answer : found.1 = s.escape alone
  listeners : found.2.listeners = s.listeners
  noticeListeners : found.2.noticeListeners = s.noticeListeners

section

variable {α β : Type} {v : View} {s : Store}

theorem escape_of_quiet (hquiet : s.raised? = none) (alone : Except Failure α × Store) :
    s.escape alone = alone.1 := by
  unfold escape
  rw [hquiet]

theorem escape_of_silent (alone : Except Failure α × Store)
    (hsilent : alone.2.notices = s.notices) : s.escape alone = alone.1 := by
  unfold escape
  split
  · rfl
  · exact if_pos hsilent

theorem escape_map (f : α → β) (alone : Except Failure α × Store) :
    s.escape (alone.map (·.map f) id) = (s.escape alone).map f := by
  unfold escape
  split
  · rfl
  · show (if alone.2.notices = s.notices then _ else _) = _
    split <;> rfl

/-- What escapes depends on the listeners of notices and on the notices that wait. -/
theorem escape_congr {s' : Store} (hlisteners : s'.noticeListeners = s.noticeListeners)
    (hnotices : s'.notices = s.notices) (alone : Except Failure α × Store) :
    s'.escape alone = s.escape alone := by
  unfold escape raised?
  rw [hlisteners, hnotices]

theorem Echoes.map {found alone : Except Failure α × Store} (h : Echoes v s found alone)
    (f : α → β) : Echoes v s (found.map (·.map f) id) (alone.map (·.map f) id) := by
  refine ⟨h.state, ?_, h.listeners, h.noticeListeners⟩
  rw [escape_map, ← h.answer]
  rfl

theorem Echoes.nothing (answer : Except Failure α) :
    Echoes v s (answer, s) (answer, s.seen v) :=
  ⟨rfl, (escape_of_silent (s := s) (answer, s.seen v) rfl).symm, rfl, rfl⟩

/-! ## Commits and notices -/

theorem seen_commit (hv : v.Faithful s.listeners) (action : Action) :
    (s.commit action).seen v = (s.seen v).commit action :=
  hv.hears
    { s with
      history := s.history.save s.graph
      changes := s.changes ++ [⟨action, s.document⟩] } s.document

/-- A commit of what was made of a store without touching notices and listeners. -/
theorem Echoes.commit {s₁ : Store} (hv : v.Faithful s.listeners)
    (hlisteners : s₁.listeners = s.listeners)
    (hnoticeListeners : s₁.noticeListeners = s.noticeListeners)
    (hnotices : s₁.notices = s.notices) (answer : Except Failure α) (action : Action) :
    Echoes v s (answer, s₁.commit action) (answer, (s₁.seen v).commit action) := by
  obtain ⟨a, ha⟩ := s₁.commit_eq action
  obtain ⟨b, hb⟩ := (s₁.seen v).commit_eq action
  refine ⟨seen_commit (hlisteners ▸ hv) action, ?_, ?_, ?_⟩
  · refine (escape_of_silent (answer, (s₁.seen v).commit action) ?_).symm
    rw [hb]
    exact hnotices
  · rw [ha]
    exact hlisteners
  · rw [ha]
    exact hnoticeListeners

theorem notify_of_quiet {q : NoticeQueue} (hnotices : s.notices = some q)
    (hquiet : s.raised? = none) (level : Level) (message : String) :
    s.notify level message = (.ok (), { s with notices := some (q.notify level message) }) := by
  unfold raised? at hquiet
  unfold notify
  rw [hnotices]
  dsimp only
  rw [hquiet]

theorem notify_of_raised {q : NoticeQueue} (hnotices : s.notices = some q) {raised : String}
    (hraised : s.raised? = some raised) (level : Level) (message : String) :
    s.notify level message
      = (.error (.listener raised), { s with notices := some (q.notify level message) }) := by
  unfold raised? at hraised
  unfold notify
  rw [hnotices]
  dsimp only
  rw [hraised]

theorem Echoes.notify (level : Level) (message : String) :
    Echoes v s (s.notify level message) ((s.seen v).notify level message) := by
  cases hnotices : s.notices with
  | none =>
      have hnothing : s.notify level message = (.ok (), s) := by
        unfold Store.notify
        rw [hnotices]
      have hnothingSeen : (s.seen v).notify level message = (.ok (), s.seen v) := by
        unfold Store.notify
        rw [seen_notices, hnotices]
      rw [hnothing, hnothingSeen]
      exact .nothing _
  | some q =>
      have hposted : some (q.notify level message) ≠ s.notices := by
        rw [hnotices]
        intro h
        exact Nat.succ_ne_self q.issued (congrArg NoticeQueue.issued (Option.some.inj h))
      rw [notify_of_quiet (s := s.seen v) hnotices rfl]
      cases hraised : s.raised? with
      | none =>
          rw [notify_of_quiet hnotices hraised]
          exact ⟨rfl, (escape_of_quiet hraised _).symm, rfl, rfl⟩
      | some raised =>
          rw [notify_of_raised hnotices hraised]
          refine ⟨rfl, ?_, rfl, rfl⟩
          unfold escape
          rw [hraised]
          exact (if_neg hposted).symm

/-! ## Edits -/

section

variable (hv : v.Faithful s.listeners)
include hv

theorem Echoes.addNodeAs (id kindName : String) (position : Option Position) :
    Echoes v s (s.addNodeAs id kindName position) ((s.seen v).addNodeAs id kindName position) := by
  unfold Store.addNodeAs
  cases NodeKind.parse kindName with
  | error f => exact .nothing _
  | ok kind =>
      dsimp only
      exact .commit hv (by rfl) (by rfl) (by rfl) _ _

theorem Echoes.configure (id : String) (change : ConfigChange) :
    Echoes v s (s.configure id change) ((s.seen v).configure id change) := by
  unfold Store.configure
  rw [seen_graph]
  cases s.graph.findNode? id with
  | none => exact .nothing _
  | some n =>
      dsimp only
      cases n.changedConfig change with
      | error f => exact .nothing _
      | ok config =>
          dsimp only
          exact .commit hv (by rfl) (by rfl) (by rfl) _ _

theorem Echoes.rename (id label : String) :
    Echoes v s ((s.rename id label).map (Except.ok ·) (·))
      (((s.seen v).rename id label).map (Except.ok ·) (·)) := by
  unfold Store.rename
  rw [seen_graph]
  cases s.graph.findNode? id with
  | none => exact .nothing _
  | some n => exact .commit hv (by rfl) (by rfl) (by rfl) (.ok true) (.rename id)

theorem Echoes.removeNodes (ids : List String) :
    Echoes v s ((s.removeNodes ids).map (Except.ok ·) (·))
      (((s.seen v).removeNodes ids).map (Except.ok ·) (·)) := by
  unfold Store.removeNodes
  rw [seen_graph]
  dsimp only
  split
  · exact .nothing _
  · exact .commit hv (by rfl) (by rfl) (by rfl) (.ok _) (.removeNodes (sortedIds ids))

theorem Echoes.disconnect (id : String) :
    Echoes v s ((s.disconnect id).map (Except.ok ·) (·))
      (((s.seen v).disconnect id).map (Except.ok ·) (·)) := by
  unfold Store.disconnect
  rw [seen_graph]
  dsimp only
  split
  · exact .nothing _
  · exact .commit hv (by rfl) (by rfl) (by rfl) (.ok true) (.removeEdge id)

omit hv in
theorem Echoes.reject (rejection : Rejection) :
    Echoes v s (s.reject rejection) ((s.seen v).reject rejection) :=
  (Echoes.notify .error rejection.message).map
    fun _ => (.error rejection : Except Rejection String)

theorem Echoes.connect (source target : String) (sourceHandle targetHandle : Value) :
    Echoes v s (s.connect source target sourceHandle targetHandle)
      ((s.seen v).connect source target sourceHandle targetHandle) := by
  unfold Store.connect
  rw [seen_graph]
  cases s.graph.findNode? source with
  | none => exact .reject _
  | some sourceNode =>
      cases s.graph.findNode? target with
      | none => exact .reject _
      | some targetNode =>
          dsimp only
          cases objection? sourceNode targetNode s.graph.edges with
          | some o => exact .reject _
          | none =>
              dsimp only
              exact .commit hv (by rfl) (by rfl) (by rfl) _ _

theorem Echoes.importValue (value : Value) :
    Echoes v s (s.importValue value) ((s.seen v).importValue value) := by
  unfold Store.importValue
  cases Document.importValue Fault.isShape value with
  | error f => exact .nothing _
  | ok outcome =>
      cases outcome with
      | document d => exact .commit hv (by rfl) (by rfl) (by rfl) (.ok []) .importDocument
      | refused problems =>
          dsimp only
          split
          · exact (Echoes.notify .error _).map fun _ => problems
          · exact .nothing _

theorem Echoes.perform {e : Edit} (hother : (Request.edit e).restores = false) :
    Echoes v s (s.perform e) ((s.seen v).perform e) := by
  cases e with
  | addNode kindName position =>
      exact (Echoes.addNodeAs hv _ kindName position).map EditReply.addedNode
  | moveNodes moves =>
      show Echoes v s
        (Except.ok EditReply.done,
          (moves.foldl (fun s move => s.moveNode move.1 move.2) s).commit .moveNodes)
        (Except.ok EditReply.done,
          (moves.foldl (fun s move => s.moveNode move.1 move.2) (s.seen v)).commit .moveNodes)
      rw [foldl_moveNode, foldl_moveNode]
      exact .commit hv (by rfl) (by rfl) (by rfl) _ _
  | configure id change => exact (Echoes.configure hv id change).map EditReply.changed
  | rename id label => exact (Echoes.rename hv id label).map EditReply.changed
  | removeNode id => exact (Echoes.removeNodes hv [id]).map fun n => EditReply.changed (0 < n)
  | removeNodes ids => exact (Echoes.removeNodes hv ids).map EditReply.removed
  | connect source target sourceHandle targetHandle =>
      exact (Echoes.connect hv source target sourceHandle targetHandle).map _
  | disconnect id => exact (Echoes.disconnect hv id).map EditReply.changed
  | clear => exact .commit hv (by rfl) (by rfl) (by rfl) (Except.ok EditReply.done) .clear
  | importValue value => exact (Echoes.importValue hv value).map importReply
  | importDocument d => exact (Echoes.importValue hv d.toValue).map importReply
  | restore => cases hother
  | moveNode _ _ | select _ | selectNodes _ | selectAll | toggle _ | view _ | clearLogs | cancel =>
      exact ⟨rfl, (escape_of_silent (_, _) rfl).symm, rfl, rfl⟩

/-! ## Steps -/

omit hv in
theorem applySnapshot_of_passive (hpassive : ∀ l ∈ s.listeners, l.Passive) (g : Graph)
    (action : Action) :
    s.applySnapshot g action = { s with
      graph := g
      selection := .none
      history := s.history.beginApply.endApply
      changes := s.changes ++ [⟨action, ({ s with graph := g } : Store).document⟩] } := by
  unfold applySnapshot announceStep
  dsimp only
  rw [hearStep_eq _ hpassive]
  rfl

theorem Echoes.stepBy (step : Option Graph × History) (action : Action) :
    Echoes v s ((s.stepBy step action).map (.ok <| Response.stepped ·) (·))
      (((s.seen v).stepBy step action).map (.ok <| Response.stepped ·) (·)) := by
  obtain ⟨_ | g, h⟩ := step
  · exact .nothing _
  · unfold Store.stepBy
    dsimp only
    rw [applySnapshot_of_passive (s := { s with history := h }) hv.passive,
      applySnapshot_of_passive (s := { s.seen v with history := h }) hv.passiveSeen]
    exact ⟨rfl, (escape_of_silent (_, _) rfl).symm, rfl, rfl⟩

end

/-! ## Runs -/

section

variable (hrecords : ∀ (a : Archive) (r : RunResult),
  (v.archive a).recordResult r = ((a.recordResult r).1, v.archive (a.recordResult r).2))
include hrecords

theorem seen_record (r : RunResult) :
    (s.seen v).record r = ((s.record r).1, (s.record r).2.seen v)
      ∧ (s.record r).2.listeners = s.listeners
      ∧ (s.record r).2.noticeListeners = s.noticeListeners
      ∧ (s.record r).2.notices = s.notices := by
  cases ha : s.archive with
  | none =>
      have hseen : (s.seen v).archive = none := congrArg (Option.map v.archive) ha
      have hfound : s.record r = (.ok (), s) := by
        unfold record
        rw [ha]
      have halone : (s.seen v).record r = (.ok (), s.seen v) := by
        unfold record
        rw [hseen]
      rw [hfound, halone]
      exact ⟨rfl, rfl, rfl, rfl⟩
  | some a =>
      have hseen : (s.seen v).archive = some (v.archive a) := congrArg (Option.map v.archive) ha
      unfold record
      rw [ha, hseen]
      dsimp only
      split
      · exact ⟨rfl, rfl, rfl, rfl⟩
      · rw [hrecords]
        generalize a.recordResult r = recorded
        obtain ⟨_ | _, a'⟩ := recorded <;> exact ⟨rfl, rfl, rfl, rfl⟩

theorem Echoes.settle (r : RunResult) : Echoes v s (s.settle r) ((s.seen v).settle r) := by
  obtain ⟨hrecord, hlisteners, hnoticeListeners, hnotices⟩ :=
    seen_record (s := { s with lastRun := some r }) hrecords r
  have hseen : ({ s.seen v with lastRun := some r } : Store)
      = ({ s with lastRun := some r } : Store).seen v := rfl
  unfold Store.settle
  rw [hseen, hrecord]
  generalize ({ s with lastRun := some r } : Store).record r = recorded at *
  obtain ⟨answer, s'⟩ := recorded
  -- The record posts nothing, so what escapes is told from the notice alone.
  have hescape : ∀ alone : Except Failure Unit × Store, s'.escape alone = s.escape alone :=
    escape_congr hnoticeListeners hnotices
  have hnothing : ∀ answer : Except Failure Unit, Echoes v s (answer, s') (answer, s'.seen v) :=
    fun answer => ⟨rfl, (escape_of_silent (answer, s'.seen v) hnotices).symm, hlisteners,
      hnoticeListeners⟩
  cases answer with
  | error f => exact hnothing _
  | ok _ =>
      dsimp only
      cases r.notice? with
      | none => exact hnothing _
      | some told =>
          obtain ⟨hstate, hanswer, hsame, hsame'⟩ :=
            Echoes.notify (v := v) (s := s') told.1 told.2
          exact ⟨hstate, hanswer.trans (hescape _), hsame.trans hlisteners,
            hsame'.trans hnoticeListeners⟩

theorem settle_of_quiet (hquiet : s.raised? = none) (r : RunResult) :
    (s.seen v).settle r = (s.settle r).map id (seen v) ∧ (s.settle r).2.raised? = none := by
  obtain ⟨hstate, hanswer, -, hsame⟩ := Echoes.settle (s := s) hrecords r
  refine ⟨Prod.ext (hanswer.trans (escape_of_quiet hquiet _)).symm hstate.symm, ?_⟩
  unfold raised? at hquiet ⊢
  rw [hsame]
  exact hquiet

/-- A run of the workflow that a hook asks for looks the same, if no listener of notices
raises. -/
theorem nestedRun_map : ∀ (depth : Nat) (e : Executor) (w : Watched Store),
    w.Within (fun _ => True) (fun s => s.raised? = none) →
      nestedRun depth e (w.map (seen v))
          = mapState (Watched.map (seen v)) (nestedRun depth e w)
        ∧ (nestedRun depth e w).2.2.Within (fun _ => True) (fun s => s.raised? = none)
  | 0, _, _, h => ⟨rfl, h⟩
  | depth + 1, e, w, h => by
      obtain ⟨hrun, hkept⟩ := Watched.run_map (f := seen v)
        (fun _ => nestedRun_map depth) w.state.graph e w h
      have hgraph : (w.map (seen v)).state.graph = w.state.graph := rfl
      unfold nestedRun
      rw [hgraph, hrun]
      generalize (Watched.environment (nestedRun depth)).run w.state.graph e w = answer at hkept ⊢
      obtain ⟨ending, e', w'⟩ := answer
      cases ending with
      | broken i => exact ⟨rfl, hkept⟩
      | returned r =>
          obtain ⟨hsettle, hquiet⟩ :=
            settle_of_quiet (s := { w'.state with executor := e' }) hrecords hkept.state r
          have hseen : ({ (w'.map (seen v)).state with executor := e' } : Store)
              = ({ w'.state with executor := e' } : Store).seen v := rfl
          dsimp only [mapState]
          rw [hseen, hsettle]
          generalize ({ w'.state with executor := e' } : Store).settle r = settled at hquiet ⊢
          obtain ⟨_ | _, s'⟩ := settled <;> exact ⟨rfl, hkept.actions, hquiet⟩

omit hrecords in
theorem execute_eq (s : Store) (hooks : List Hook) :
    ((s.execute hooks).1, (s.execute hooks).2.2)
      = conclude ((Watched.environment (nestedRun hooks.length)).run s.graph s.executor
          (.ofHooks hooks s)) := by
  unfold Store.execute executeWatched Watched.ofHooks
  dsimp only
  generalize (Watched.environment (nestedRun hooks.length)).run s.graph s.executor _ = ended
  obtain ⟨_ | _, e, w⟩ := ended <;> rfl

/-- The run itself looks the same, and what escapes from the store after it is what escapes
from the store before it: nothing at all, or the run has not touched the store. -/
theorem run_watched_map {hooks : List Hook}
    (hmute : s.raised? = none ∨ ∀ hook ∈ hooks, hook.action ≠ .nested) :
    let env := Watched.environment (nestedRun hooks.length)
    env.run s.graph s.executor (.ofHooks hooks (s.seen v))
        = mapState (Watched.map (seen v)) (env.run s.graph s.executor (.ofHooks hooks s))
      ∧ ∀ {α : Type} (e : Executor) (alone : Except Failure α × Store),
          ({ (env.run s.graph s.executor (.ofHooks hooks s)).2.2.state with executor := e } :
            Store).escape alone = s.escape alone := by
  rcases hmute with hquiet | hnone
  · have hwithin : (Watched.ofHooks hooks s).Within (fun _ => True) (fun s => s.raised? = none) :=
      ⟨fun _ _ => trivial, hquiet⟩
    obtain ⟨hrun, hkept⟩ := Watched.run_map (f := seen v)
      (fun _ => nestedRun_map hrecords hooks.length) s.graph s.executor _ hwithin
    refine ⟨hrun, fun e alone => ?_⟩
    have hafter := hkept.state
    rw [escape_of_quiet hquiet]
    exact escape_of_quiet hafter alone
  · have hwithin : (Watched.ofHooks hooks s).Within (· ≠ .nested) (· = s) := ⟨hnone, rfl⟩
    have hnested : Watched.Mirrors (· ≠ .nested) (· = s) (seen v) (nestedRun hooks.length)
        (nestedRun hooks.length) := fun hnested => absurd rfl hnested
    obtain ⟨hrun, hkept⟩ := Watched.run_map hnested s.graph s.executor _ hwithin
    refine ⟨hrun, fun e alone => ?_⟩
    rw [hkept.state]
    exact escape_congr rfl rfl alone

theorem Echoes.conclude {ended : Ending × Executor × Watched Store}
    (hescape : ∀ {α : Type} (e : Executor) (alone : Except Failure α × Store),
      ({ ended.2.2.state with executor := e } : Store).escape alone = s.escape alone)
    (hlisteners : ended.2.2.state.listeners = s.listeners)
    (hnoticeListeners : ended.2.2.state.noticeListeners = s.noticeListeners) :
    Echoes v s (conclude ended) (conclude (mapState (Watched.map (seen v)) ended)) := by
  obtain ⟨ending, e, w⟩ := ended
  cases ending with
  | broken i =>
      have hsilent := escape_of_silent (s := { w.state with executor := e })
        ((.error (.interrupted i) : Except Failure RunResult),
          ({ w.state with executor := e } : Store).seen v) rfl
      exact ⟨rfl, ((hescape e _).symm.trans hsilent).symm, hlisteners, hnoticeListeners⟩
  | returned r =>
      obtain ⟨hstate, hanswer, hsame, hsame'⟩ :=
        (Echoes.settle (v := v) (s := { w.state with executor := e }) hrecords r).map fun _ => r
      exact ⟨hstate, hanswer.trans (hescape e _), hsame.trans hlisteners,
        hsame'.trans hnoticeListeners⟩

/-- **A run of the workflow** looks the same, if no listener of notices raises or no hook
asks for another run. -/
theorem Echoes.execute {hooks : List Hook}
    (hmute : s.raised? = none ∨ ∀ hook ∈ hooks, hook.action ≠ .nested) :
    Echoes v s ((s.execute hooks).1, (s.execute hooks).2.2)
      (((s.seen v).execute hooks).1, ((s.seen v).execute hooks).2.2) := by
  obtain ⟨hrun, hescape⟩ := run_watched_map (s := s) hrecords hmute
  rw [execute_eq, execute_eq]
  rw [seen_graph, seen_executor, hrun]
  let Q : Store → Prop := fun s' =>
    s'.listeners = s.listeners ∧ s'.noticeListeners = s.noticeListeners
  have hsettle : ∀ (s' : Store) (r : RunResult), Q s' → Q (s'.settle r).2 := by
    rintro s' r ⟨hsame, hsame'⟩
    obtain ⟨-, -, hkept, hkept'⟩ := Echoes.settle (s := s') hrecords r
    exact ⟨hkept.trans hsame, hkept'.trans hsame'⟩
  obtain ⟨hlisteners, hnoticeListeners⟩ := Watched.run_invariant (Q := Q)
    (nestedRun_invariant (fun _ _ h => h) hsettle hooks.length) s.graph s.executor
    (.ofHooks hooks s) ⟨rfl, rfl⟩
  exact Echoes.conclude hrecords hescape hlisteners hnoticeListeners

end

/-! ## Every request -/

/-- What the archive gives back of the document saved last. -/
def stored? (s : Store) : Except Fault (Option Document) :=
  s.archive.elim (.ok none) Archive.load

def restoreFrom (s : Store) : Except Fault (Option Document) → Except Failure Bool × Store
  | .error f => (.error (.fault f), s)
  | .ok none => (.ok false, s)
  | .ok (some d) => (s.importDocument d).map (·.map List.isEmpty) id

theorem restore_eq (s : Store) : s.restore = s.restoreFrom s.stored? := by
  unfold restore stored?
  cases s.archive with
  | none => rfl
  | some a =>
      dsimp only [Option.elim]
      rcases a.load with _ | _ | _ <;> rfl

/-- A request to what is seen of a store; the document saved last is the one that the store
has. -/
def ask (s t : Store) : Request → Except Failure Response × Store
  | .edit .restore => (t.restoreFrom s.stored?).map (·.map fun b => .edited (.changed b)) id
  | r => (t.respond r, t.after r)

variable (hv : v.Faithful s.listeners)
include hv

theorem Echoes.restoreFrom (stored : Except Fault (Option Document)) :
    Echoes v s (s.restoreFrom stored) ((s.seen v).restoreFrom stored) := by
  obtain _ | _ | d := stored
  · exact .nothing _
  · exact .nothing _
  · exact (Echoes.importValue hv d.toValue).map List.isEmpty

/-- **Every request goes alike** on a store and on what is seen of it in a faithful view. -/
theorem echoes_after {r : Request} (hmute : s.raised? = none ∨ r.nests = false) :
    Echoes v s (s.respond r, s.after r) (s.ask (s.seen v) r) := by
  cases r with
  | add id kindName position => exact (Echoes.addNodeAs hv id kindName position).map Response.added
  | undo => exact Echoes.stepBy hv s.history.undo .undo
  | redo => exact Echoes.stepBy hv s.history.redo .redo
  | execute hooks =>
      refine (Echoes.execute (s := s) hv.records ?_).map Response.ran
      refine hmute.imp_right fun hnone hook hhook hnested => ?_
      have hany := List.any_eq_false.mp hnone hook hhook
      exact hany (decide_eq_true hnested)
  | edit e =>
      cases hrestores : (Request.edit e).restores with
      | false =>
          have hperform := (Echoes.perform hv hrestores).map Response.edited
          cases e with
          | restore => cases hrestores
          | _ => exact hperform
      | true =>
          obtain rfl : e = .restore := by
            cases e with
            | restore => rfl
            | _ => cases hrestores
          have hrestore := (Echoes.restoreFrom hv s.stored?).map
            fun b => Response.edited (.changed b)
          have hsame : (s.respond (.edit .restore), s.after (.edit .restore))
              = (s.restoreFrom s.stored?).map (·.map fun b => .edited (.changed b)) id := by
            rw [← restore_eq]
            unfold respond after Store.perform
            generalize s.restore = restored
            obtain ⟨_ | _, s'⟩ := restored <;> rfl
          rw [hsame]
          exact hrestore

end
end Store
end Workflow

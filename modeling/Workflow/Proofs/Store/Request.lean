import Workflow.Proofs.Document.Gate
import Workflow.Proofs.History
import Workflow.Proofs.Run.Surroundings
import Workflow.Store.Execute

/-!
# What a request does to a store

Everything asked of a store is a `Request`; `Store.after` is the state it leads to. Whether a
request is granted, refused or fails, its effect on the graph and the history is one of a few
(`Effect`): nothing changes, one node is moved outside of history, a revised graph is
committed, or the history is stepped through. `effect_after` is the inversion lemma from
which invariants of stores are proved, so that nothing later opens an operation again.

A step through the history is the one request during which listeners may make requests of
their own; `made` gives all that were made. Listeners that make none are *passive*. They may
still raise, as may those of notices.
-/

namespace Workflow

/-- What can be asked of a store. -/
inductive Request
  /-- A node is to be added under the identity drawn for it. -/
  | add (id kindName : String) (position : Option Position)
  | edit (e : Edit)
  | undo
  | redo
  /-- The workflow is to be run under hooks. -/
  | execute (hooks : List Hook)

def ChangeListener.Passive : ChangeListener → Prop
  | .autosave => True
  | .observer edits _ => edits = []

/-- The document that an import of the value would take over. -/
def Document.taken? (v : Value) : Option Document :=
  match Document.importValue Fault.isShape v with
  | .ok (.document d) => some d
  | _ => none

theorem Document.sound_of_taken {v : Value} {d : Document} (h : taken? v = some d) :
    Graph.Sound ⟨d.nodes, d.edges⟩ := by
  unfold taken? at h
  split at h
  · rename_i d' himport
    obtain rfl := Option.some.inj h
    exact sound_of_importValue himport
  · cases h

namespace Store

/-- The state after a request, granted or not. -/
def after (s : Store) : Request → Store
  | .add id kindName position => (s.addNodeAs id kindName position).2
  | .edit e => (s.perform e).2
  | .undo => s.undo.2
  | .redo => s.redo.2
  | .execute hooks => (s.execute hooks).2.2

/-- The states that requests lead to, each allowed in the state in which it is made. -/
inductive Reachable (allowed : Store → Request → Prop) (s₀ : Store) : Store → Prop
  | start : Reachable allowed s₀ s₀
  | step {s : Store} (r : Request) :
      Reachable allowed s₀ s → allowed s r → Reachable allowed s₀ (s.after r)

/-- What holds at the start and is kept by every allowed request holds wherever they lead. -/
theorem Reachable.invariant {allowed : Store → Request → Prop} {s₀ s : Store}
    {P : Store → Prop} (h : Reachable allowed s₀ s) (hstart : P s₀)
    (hstep : ∀ s r, P s → allowed s r → P (s.after r)) : P s := by
  induction h with
  | start => exact hstart
  | step r _ hallowed ih => exact hstep _ r ih hallowed

/-- A store in which nothing was done yet. -/
structure Fresh (s : Store) : Prop where
  graph : s.graph = .empty
  history : ∃ asked, s.history = .ofCap asked

theorem fresh_create (executor : Executor) (asked : Int) (archive : Option Archive)
    (notices : Option NoticeQueue) (listeners : List ChangeListener) (autosave : Bool)
    (issued : Nat) :
    (create executor (.ofCap asked) archive notices listeners autosave issued).Fresh :=
  ⟨rfl, asked, rfl⟩

/-- The document that an edit takes over, if it is an import and succeeds. -/
def imported? (s : Store) : Edit → Option Document
  | .importValue v => Document.taken? v
  | .importDocument d => Document.taken? d.toValue
  | .restore => do
    let a ← s.archive
    match a.load with
    | .ok (some d) => Document.taken? d.toValue
    | _ => none
  | _ => none

theorem taken_of_imported {s : Store} {e : Edit} {d : Document} (h : s.imported? e = some d) :
    ∃ v, Document.taken? v = some d := by
  cases e with
  | importValue v => exact ⟨v, h⟩
  | importDocument d' => exact ⟨d'.toValue, h⟩
  | restore =>
      obtain ⟨a, -, h⟩ := Option.bind_eq_some_iff.mp h
      split at h
      · exact ⟨_, h⟩
      · cases h
  | _ => cases h

/-! ## Requests within a request -/

/-- The edits of a list that are performed before one fails, each in its state. -/
def performedIn (s : Store) : List Edit → List (Store × Request)
  | [] => []
  | e :: edits =>
    (s, .edit e) :: match s.perform e with
      | (.ok _, s) => s.performedIn edits
      | (.error _, _) => []

/-- The edits made by listeners that hear of a step. -/
def heardIn (s : Store) : List ChangeListener → List (Store × Request)
  | [] => []
  | .autosave :: rest => s.heardIn rest
  | .observer edits raises :: rest =>
    s.performedIn edits ++
      if (s.performAll edits).1 && !raises then (s.performAll edits).2.heardIn rest else []

/-- The state in which listeners hear of a step to the current graph of a history. -/
def announced (s : Store) (h : History) (action : Action) : Store :=
  let s := { s with graph := h.current, selection := .none, history := h.beginApply }
  { s with changes := s.changes ++ [⟨action, s.document⟩] }

/-- The state after a step to the current graph of a history. -/
def stepped (s : Store) (h : History) (action : Action) : Store :=
  let s := (s.announced h action).hearStep s.listeners
  { s with history := s.history.endApply }

/-- The requests made at a request, each in its state: the request itself, and at a step
through the history the edits of listeners. -/
def made (s : Store) (r : Request) : List (Store × Request) :=
  (s, r) :: match r with
    | .undo => match s.history.undo with
      | (some _, h) => (s.announced h .undo).heardIn s.listeners
      | (none, _) => []
    | .redo => match s.history.redo with
      | (some _, h) => (s.announced h .redo).heardIn s.listeners
      | (none, _) => []
    | _ => []

theorem heardIn_of_passive (s : Store) : ∀ {listeners : List ChangeListener},
    (∀ l ∈ listeners, l.Passive) → s.heardIn listeners = []
  | [], _ => rfl
  | .autosave :: rest, h => by
      unfold heardIn
      exact s.heardIn_of_passive fun l hl => h l (List.mem_cons_of_mem _ hl)
  | .observer edits raises :: rest, h => by
      obtain rfl : edits = [] := h _ List.mem_cons_self
      have hrest := s.heardIn_of_passive fun l hl => h l (List.mem_cons_of_mem _ hl)
      unfold heardIn
      cases raises with
      | false => exact hrest
      | true => rfl

theorem made_of_passive {s : Store} (h : ∀ l ∈ s.listeners, l.Passive) (r : Request) :
    s.made r = [(s, r)] := by
  unfold made
  cases r with
  | add _ _ _ | edit _ | execute _ => rfl
  | undo | redo =>
      dsimp only
      split
      · rw [heardIn_of_passive _ h]
      · rfl

/-! ## What stays -/

/-- Graph, history, announcements and listeners are those of another state. -/
structure Keeps (s s' : Store) : Prop where
  graph : s'.graph = s.graph
  history : s'.history = s.history
  changes : s'.changes = s.changes
  listeners : s'.listeners = s.listeners

theorem Keeps.refl (s : Store) : s.Keeps s := ⟨rfl, rfl, rfl, rfl⟩

theorem Keeps.trans {s s' s'' : Store} (h : s.Keeps s') (h' : s'.Keeps s'') : s.Keeps s'' :=
  ⟨h'.graph.trans h.graph, h'.history.trans h.history, h'.changes.trans h.changes,
    h'.listeners.trans h.listeners⟩

theorem keeps_notify (s : Store) (level : Level) (message : String) :
    s.Keeps (s.notify level message).2 := by
  unfold notify
  cases s.notices with
  | none => exact .refl s
  | some q =>
      dsimp only
      split <;> exact ⟨rfl, rfl, rfl, rfl⟩

theorem keeps_reject (s : Store) (rejection : Rejection) : s.Keeps (s.reject rejection).2 :=
  s.keeps_notify .error rejection.message

theorem keeps_record (s : Store) (r : RunResult) : s.Keeps (s.record r).2 := by
  unfold record
  cases s.archive with
  | none => exact .refl s
  | some a =>
      dsimp only
      split
      · exact .refl s
      · split <;> exact ⟨rfl, rfl, rfl, rfl⟩

section

variable {Q : Store → Prop}

/-- What holds whatever is recorded and reported holds when a run was settled. -/
theorem settle_invariant (hlast : ∀ s r, Q s → Q { s with lastRun := some r })
    (hrecord : ∀ s r, Q s → Q (s.record r).2)
    (hnotify : ∀ s level message, Q s → Q (s.notify level message).2) (s : Store)
    (r : RunResult) (h : Q s) : Q (s.settle r).2 := by
  have hrecorded := hrecord _ r (hlast s r h)
  unfold settle
  split
  · rename_i hrec
    rw [hrec] at hrecorded
    exact hrecorded
  · rename_i hrec
    rw [hrec] at hrecorded
    split
    · exact hrecorded
    · exact hnotify _ _ _ hrecorded

end

theorem keeps_settle (s : Store) (r : RunResult) : s.Keeps (s.settle r).2 :=
  settle_invariant (Q := s.Keeps) (fun _ _ h => h.trans ⟨rfl, rfl, rfl, rfl⟩)
    (fun s' r h => h.trans (s'.keeps_record r))
    (fun s' level message h => h.trans (s'.keeps_notify level message)) s r (.refl s)

/-! ## Runs -/

section

variable {Q : Store → Prop} (hexecutor : ∀ s e, Q s → Q { s with executor := e })
  (hsettle : ∀ s r, Q s → Q (s.settle r).2)
include hexecutor hsettle

theorem nestedRun_invariant : ∀ (depth : Nat) (e : Executor) (w : Watched Store),
    Q w.state → Q (nestedRun depth e w).2.2.state
  | 0, _, _, h => h
  | depth + 1, e, w, h => by
      have hrun := Watched.run_invariant (Q := Q) (nestedRun_invariant depth) w.state.graph e w h
      unfold nestedRun
      split
      · rename_i hc
        rw [hc] at hrun
        exact hrun
      · rename_i r e' w' hc
        rw [hc] at hrun
        have hsettled := hsettle _ r (hexecutor _ e' hrun)
        dsimp only
        split
        · rename_i hs
          rw [hs] at hsettled
          exact hsettled
        · rename_i hs
          rw [hs] at hsettled
          exact hsettled

/-- A run changes a store only through its executor and when it is settled, however many
other runs its hooks ask for. -/
theorem execute_invariant (s : Store) (hooks : List Hook) (h : Q s) :
    Q (s.execute hooks).2.2 := by
  unfold execute executeWatched
  have hrun := Watched.run_invariant (Q := Q)
    (nestedRun_invariant hexecutor hsettle (Watched.ofHooks hooks ()).hooks.length) s.graph
    s.executor ⟨(Watched.ofHooks hooks ()).hooks, (Watched.ofHooks hooks ()).putOff,
      (Watched.ofHooks hooks ()).trace, (Watched.ofHooks hooks ()).nested, s⟩ h
  dsimp only
  split
  · rename_i hc
    rw [hc] at hrun
    exact hexecutor _ _ hrun
  · rename_i r e w hc
    rw [hc] at hrun
    exact hsettle _ r (hexecutor _ e hrun)

end

theorem keeps_execute (s : Store) (hooks : List Hook) : s.Keeps (s.execute hooks).2.2 :=
  execute_invariant (Q := s.Keeps) (fun _ _ h => h.trans ⟨rfl, rfl, rfl, rfl⟩)
    (fun s' r h => h.trans (s'.keeps_settle r)) s hooks (.refl s)

/-! ## Committing and stepping -/

/-- The state after a graph was committed to a store. -/
structure Commits (s : Store) (g : Graph) (s' : Store) : Prop where
  graph : s'.graph = g
  history : s'.history = s.history.save g
  changes : ∃ action : Action, action.fromHistory = false
    ∧ s'.changes = s.changes ++ [⟨action, s'.document⟩]
  listeners : s'.listeners = s.listeners

/-- What is left of a step through the history when nobody edits the store meanwhile. -/
structure StepsTo (s : Store) (h : History) (s' : Store) : Prop where
  graph : s'.graph = h.current
  history : s'.history = h.endApply
  changes : ∃ action : Action, action.fromHistory = true
    ∧ s'.changes = s.changes ++ [⟨action, s'.document⟩]
  listeners : s'.listeners = s.listeners

theorem hear_eq (d : Document) : ∀ (s : Store) (listeners : List ChangeListener),
    ∃ a, s.hear d listeners = { s with archive := a }
  | s, [] => ⟨s.archive, rfl⟩
  | s, .autosave :: rest => by
      obtain ⟨a, ha⟩ := hear_eq d (s.saveDocument d) rest
      have hsave : ∃ b, s.saveDocument d = { s with archive := b } := by
        unfold saveDocument
        split
        · exact ⟨s.archive, rfl⟩
        · exact ⟨_, rfl⟩
      obtain ⟨b, hb⟩ := hsave
      refine ⟨a, ?_⟩
      unfold hear
      rw [ha, hb]
  | s, .observer _ raises :: rest => by
      unfold hear
      split
      · exact ⟨s.archive, rfl⟩
      · exact hear_eq d s rest

theorem commit_eq (s : Store) (action : Action) :
    ∃ a, s.commit action = { s with
      history := s.history.save s.graph
      changes := s.changes ++ [⟨action, s.document⟩]
      archive := a } :=
  hear_eq s.document
    { s with
      history := s.history.save s.graph
      changes := s.changes ++ [⟨action, s.document⟩] } s.listeners

theorem commits_commit {s s₁ : Store} {g : Graph} {action : Action} (hgraph : s₁.graph = g)
    (forward : action.fromHistory = false) (hhistory : s₁.history = s.history)
    (hchanges : s₁.changes = s.changes) (hlisteners : s₁.listeners = s.listeners) :
    s.Commits g (s₁.commit action) := by
  obtain ⟨a, hcommit⟩ := s₁.commit_eq action
  rw [hcommit]
  subst hgraph
  refine ⟨rfl, ?_, ⟨action, forward, ?_⟩, hlisteners⟩
  · show s₁.history.save s₁.graph = _
    rw [hhistory]
  · show s₁.changes ++ [_] = _
    rw [hchanges]
    rfl

theorem hearStep_eq (s : Store) : ∀ {listeners : List ChangeListener},
    (∀ l ∈ listeners, l.Passive) → s.hearStep listeners = s
  | [], _ => rfl
  | .autosave :: rest, h => by
      unfold hearStep
      exact s.hearStep_eq fun l hl => h l (List.mem_cons_of_mem _ hl)
  | .observer edits raises :: rest, h => by
      obtain rfl : edits = [] := h _ List.mem_cons_self
      unfold hearStep
      dsimp only [performAll]
      split
      · exact s.hearStep_eq fun l hl => h l (List.mem_cons_of_mem _ hl)
      · rfl

theorem stepsTo_stepped {s : Store} (hpassive : ∀ l ∈ s.listeners, l.Passive) (h : History)
    {action : Action} (back : action.fromHistory = true) :
    s.StepsTo h (s.stepped h action) := by
  unfold stepped
  rw [hearStep_eq _ hpassive]
  exact ⟨rfl, rfl, ⟨action, back, rfl⟩, rfl⟩

/-! ## What an edit makes of a graph -/

def moved (g : Graph) (moves : List (String × Position)) : Graph :=
  moves.foldl (fun g move => g.updateNode move.1 fun n => { n with position := move.2 }) g

def newNode (id : String) (kind : NodeKind) (position : Option Position) : Node :=
  ⟨id, kind, position.getD .origin, kind.label, some (Config.initial kind)⟩

/-- The graphs that a request, if granted, makes of the graph of a store. -/
inductive Revision (s : Store) : Request → Graph → Prop
  | add {id kindName : String} {position : Option Position} {kind : NodeKind} :
      Revision s (.add id kindName position) (s.graph.addNode (newNode id kind position))
  | addNext {kindName : String} {position : Option Position} {kind : NodeKind} :
      Revision s (.edit (.addNode kindName position))
        (s.graph.addNode (newNode (nodeId (s.issued + 1)) kind position))
  | move {id : String} {position : Position} :
      Revision s (.edit (.moveNode id position)) (moved s.graph [(id, position)])
  | moves {moves : List (String × Position)} :
      Revision s (.edit (.moveNodes moves)) (moved s.graph moves)
  | configure {id : String} {change : ConfigChange} {n : Node} {config : Config}
      (found : s.graph.findNode? id = some n) (changed : n.changedConfig change = .ok config) :
      Revision s (.edit (.configure id change))
        (s.graph.updateNode id fun n => { n with config := some config })
  | rename {id label : String} :
      Revision s (.edit (.rename id label)) (s.graph.updateNode id fun n => { n with label })
  | removeNode {id : String} :
      Revision s (.edit (.removeNode id)) (s.graph.removeNodes [id])
  | removeNodes {ids : List String} :
      Revision s (.edit (.removeNodes ids)) (s.graph.removeNodes ids)
  | connect {sourceId targetId : String} {sourceHandle targetHandle : Value} {source target : Node}
      {e : Edge} (sourceFound : s.graph.findNode? sourceId = some source)
      (targetFound : s.graph.findNode? targetId = some target)
      (unopposed : objection? source target s.graph.edges = none)
      (ends : e.source = sourceId ∧ e.target = targetId)
      (drawn : e.id = Edge.idBetween sourceId targetId) :
      Revision s (.edit (.connect sourceId targetId sourceHandle targetHandle)) (s.graph.addEdge e)
  | disconnect {id : String} :
      Revision s (.edit (.disconnect id)) (s.graph.removeEdge id)
  | clear : Revision s (.edit .clear) .empty
  | imported {e : Edit} {d : Document} (taken : s.imported? e = some d) :
      Revision s (.edit e) ⟨d.nodes, d.edges⟩

/-- What a request does to a store. -/
inductive Effect (s : Store) : Request → Store → Prop
  | kept {r : Request} {s' : Store} (keeps : s.Keeps s') : Effect s r s'
  /-- One node is moved, and nothing is committed. -/
  | moved {id : String} {position : Position} :
      Effect s (.edit (.moveNode id position)) (s.moveNode id position)
  | committed {r : Request} {g : Graph} {s' : Store} (revision : Revision s r g)
      (commits : s.Commits g s') : Effect s r s'
  | undone {h : History} (step : s.history.undo = (some h.current, h)) :
      Effect s .undo (s.stepped h .undo)
  | redone {h : History} (step : s.history.redo = (some h.current, h)) :
      Effect s .redo (s.stepped h .redo)

/-! ## The effect of each request -/

theorem importValue_cases (s : Store) (v : Value) :
    s.Keeps (s.importValue v).2
      ∨ ∃ d, Document.taken? v = some d ∧ s.Commits ⟨d.nodes, d.edges⟩ (s.importValue v).2 := by
  unfold importValue
  split
  · exact Or.inl (.refl s)
  · rename_i d hd
    refine Or.inr ⟨d, ?_, commits_commit rfl rfl rfl rfl rfl⟩
    unfold Document.taken?
    rw [hd]
  · split
    · exact Or.inl (keeps_notify _ _ _)
    · exact Or.inl (.refl s)

theorem undo_cases (s : Store) : s.undo = (false, s)
    ∨ ∃ h, s.history.undo = (some h.current, h) ∧ s.undo = (true, s.stepped h .undo) := by
  unfold undo
  rcases Nat.eq_zero_or_pos s.history.index with hzero | hpos
  · rw [History.undo_of_zero hzero]
    exact Or.inl rfl
  · obtain ⟨h, hundo, -⟩ := History.undo_of_pos hpos
    rw [hundo]
    exact Or.inr ⟨h, rfl, rfl⟩

theorem redo_cases (s : Store) : s.redo = (false, s)
    ∨ ∃ h, s.history.redo = (some h.current, h) ∧ s.redo = (true, s.stepped h .redo) := by
  unfold redo
  rcases Nat.lt_or_ge (s.history.index + 1) s.history.snapshots.length with hlt | hge
  · obtain ⟨h, hredo, -⟩ := History.redo_of_lt hlt
    rw [hredo]
    exact Or.inr ⟨h, rfl, rfl⟩
  · rw [History.redo_of_ge hge]
    exact Or.inl rfl

theorem effect_undo (s : Store) : Effect s .undo s.undo.2 := by
  rcases s.undo_cases with hnone | ⟨h, hundo, hstep⟩
  · rw [hnone]
    exact .kept (.refl s)
  · rw [hstep]
    exact .undone hundo

theorem effect_redo (s : Store) : Effect s .redo s.redo.2 := by
  rcases s.redo_cases with hnone | ⟨h, hredo, hstep⟩
  · rw [hnone]
    exact .kept (.refl s)
  · rw [hstep]
    exact .redone hredo

theorem addNodeAs_cases (s : Store) (id kindName : String) (position : Option Position) :
    s.Keeps (s.addNodeAs id kindName position).2
      ∨ ∃ kind, s.Commits (s.graph.addNode (newNode id kind position))
          (s.addNodeAs id kindName position).2 := by
  unfold addNodeAs
  split
  · exact Or.inl (.refl s)
  · rename_i kind _
    exact Or.inr ⟨kind, commits_commit rfl rfl rfl rfl rfl⟩

theorem commits_connect {s : Store} {sourceId targetId : String} {source target : Node}
    (hsource : s.graph.findNode? sourceId = some source)
    (htarget : s.graph.findNode? targetId = some target)
    (hnone : objection? source target s.graph.edges = none)
    (sourceHandle targetHandle : Value) :
    s.Commits
      (s.graph.addEdge ⟨Edge.idBetween sourceId targetId, sourceId, targetId, sourceHandle,
        targetHandle, .null, true⟩)
      (s.after (.edit (.connect sourceId targetId sourceHandle targetHandle))) := by
  show s.Commits _ (s.connect sourceId targetId sourceHandle targetHandle).2
  unfold connect
  rw [hsource, htarget]
  dsimp only
  rw [hnone]
  exact commits_commit rfl rfl rfl rfl rfl

/-- Moving nodes one after another moves them in the graph, and changes nothing else. -/
theorem foldl_moveNode (moves : List (String × Position)) (s : Store) :
    moves.foldl (fun s move => s.moveNode move.1 move.2) s
      = { s with graph := moved s.graph moves } := by
  induction moves generalizing s with
  | nil => rfl
  | cons move moves ih => rw [List.foldl_cons, ih]; rfl

theorem configure_cases (s : Store) (id : String) (change : ConfigChange) :
    s.Keeps (s.configure id change).2
      ∨ ∃ n config, s.graph.findNode? id = some n ∧ n.changedConfig change = .ok config
        ∧ s.Commits (s.graph.updateNode id fun n => { n with config := some config })
          (s.configure id change).2 := by
  unfold configure
  split
  · exact Or.inl (.refl s)
  · rename_i n hfound
    split
    · exact Or.inl (.refl s)
    · rename_i config hchanged
      exact Or.inr ⟨n, config, hfound, hchanged, commits_commit rfl rfl rfl rfl rfl⟩

theorem rename_cases (s : Store) (id label : String) :
    s.Keeps (s.rename id label).2
      ∨ s.Commits (s.graph.updateNode id fun n => { n with label }) (s.rename id label).2 := by
  unfold rename
  split
  · exact Or.inl (.refl s)
  · exact Or.inr (commits_commit rfl rfl rfl rfl rfl)

theorem removeNodes_cases (s : Store) (ids : List String) :
    s.Keeps (s.removeNodes ids).2
      ∨ s.Commits (s.graph.removeNodes ids) (s.removeNodes ids).2 := by
  unfold removeNodes
  dsimp only
  split
  · exact Or.inl (.refl s)
  · exact Or.inr (commits_commit rfl rfl rfl rfl rfl)

theorem disconnect_cases (s : Store) (id : String) :
    s.Keeps (s.disconnect id).2 ∨ s.Commits (s.graph.removeEdge id) (s.disconnect id).2 := by
  unfold disconnect
  dsimp only
  split
  · exact Or.inl (.refl s)
  · exact Or.inr (commits_commit rfl rfl rfl rfl rfl)

/-- An edge between nodes that meets no objection is drawn; any other is refused. -/
theorem connect_cases (s : Store) (sourceId targetId : String)
    (sourceHandle targetHandle : Value) :
    s.Keeps (s.connect sourceId targetId sourceHandle targetHandle).2
      ∨ ∃ source target, s.graph.findNode? sourceId = some source
        ∧ s.graph.findNode? targetId = some target
        ∧ objection? source target s.graph.edges = none
        ∧ s.Commits
          (s.graph.addEdge ⟨Edge.idBetween sourceId targetId, sourceId, targetId, sourceHandle,
            targetHandle, .null, true⟩)
          (s.connect sourceId targetId sourceHandle targetHandle).2 := by
  by_cases hfree : ∃ source target, s.graph.findNode? sourceId = some source
      ∧ s.graph.findNode? targetId = some target ∧ objection? source target s.graph.edges = none
  · obtain ⟨source, target, hsource, htarget, hnone⟩ := hfree
    exact Or.inr ⟨source, target, hsource, htarget, hnone,
      commits_connect hsource htarget hnone sourceHandle targetHandle⟩
  · unfold connect
    split
    · rename_i source target hsource htarget
      split
      · exact Or.inl (keeps_reject s _)
      · rename_i hnone
        exact absurd ⟨source, target, hsource, htarget, hnone⟩ hfree
    · exact Or.inl (keeps_reject s _)

theorem restore_cases (s : Store) :
    s.Keeps s.restore.2
      ∨ ∃ d, s.imported? .restore = some d ∧ s.Commits ⟨d.nodes, d.edges⟩ s.restore.2 := by
  unfold restore
  split
  · exact Or.inl (.refl s)
  · rename_i a harchive
    split
    · exact Or.inl (.refl s)
    · exact Or.inl (.refl s)
    · rename_i d hload
      rcases s.importValue_cases d.toValue with hkeeps | ⟨d', htaken, hcommits⟩
      · exact Or.inl hkeeps
      · refine Or.inr ⟨d', ?_, hcommits⟩
        simp only [imported?, harchive, Option.bind_eq_bind, Option.bind_some, hload, htaken]

theorem Effect.of_cases {s s' : Store} {r : Request} {g : Graph}
    (h : s.Keeps s' ∨ s.Commits g s') (hrevision : Revision s r g) : Effect s r s' := by
  rcases h with hkeeps | hcommits
  · exact .kept hkeeps
  · exact .committed hrevision hcommits

theorem effect_perform (s : Store) (e : Edit) : Effect s (.edit e) (s.perform e).2 := by
  cases e with
  | addNode kindName position =>
      have hcases := s.addNodeAs_cases (nodeId (s.issued + 1)) kindName position
      rcases hcases with hkeeps | ⟨kind, hcommits⟩
      · exact .kept hkeeps
      · exact .committed .addNext hcommits
  | moveNode id position => exact .moved
  | moveNodes moves =>
      refine .committed .moves ?_
      show s.Commits _ ((moves.foldl (fun s move => s.moveNode move.1 move.2) s).commit .moveNodes)
      rw [foldl_moveNode]
      exact commits_commit rfl rfl rfl rfl rfl
  | configure id change =>
      rcases s.configure_cases id change with hkeeps | ⟨n, config, hfound, hchanged, hcommits⟩
      · exact .kept hkeeps
      · exact .committed (.configure hfound hchanged) hcommits
  | rename id label => exact .of_cases (s.rename_cases id label) .rename
  | removeNode id => exact .of_cases (s.removeNodes_cases [id]) .removeNode
  | removeNodes ids => exact .of_cases (s.removeNodes_cases ids) .removeNodes
  | connect sourceId targetId sourceHandle targetHandle =>
      rcases s.connect_cases sourceId targetId sourceHandle targetHandle with
        hkeeps | ⟨source, target, hsource, htarget, hnone, hcommits⟩
      · exact .kept hkeeps
      · exact .committed (.connect hsource htarget hnone ⟨rfl, rfl⟩ rfl) hcommits
  | disconnect id => exact .of_cases (s.disconnect_cases id) .disconnect
  | select _ | selectNodes _ | selectAll | toggle _ | view _ | clearLogs | cancel =>
      exact .kept ⟨rfl, rfl, rfl, rfl⟩
  | clear => exact .committed .clear (commits_commit rfl rfl rfl rfl rfl)
  | importValue v =>
      rcases s.importValue_cases v with hkeeps | ⟨d, htaken, hcommits⟩
      · exact .kept hkeeps
      · exact .committed (.imported htaken) hcommits
  | importDocument d =>
      rcases s.importValue_cases d.toValue with hkeeps | ⟨d', htaken, hcommits⟩
      · exact .kept hkeeps
      · exact .committed (.imported htaken) hcommits
  | restore =>
      rcases s.restore_cases with hkeeps | ⟨d, htaken, hcommits⟩
      · exact .kept hkeeps
      · exact .committed (.imported htaken) hcommits

/-- **What a request does.** Granted or not, it changes graph and history in one of the ways
of `Effect`. -/
theorem effect_after (s : Store) (r : Request) : Effect s r (s.after r) := by
  cases r with
  | add id kindName position =>
      rcases s.addNodeAs_cases id kindName position with hkeeps | ⟨kind, hcommits⟩
      · exact .kept hkeeps
      · exact .committed .add hcommits
  | edit e => exact effect_perform s e
  | undo => exact effect_undo s
  | redo => exact effect_redo s
  | execute hooks => exact .kept (keeps_execute s hooks)

end Store
end Workflow

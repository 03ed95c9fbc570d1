import Workflow.Proofs.Store.Request

/-!
# What the answer to a request says

A request that revises the graph either fails or is granted, and its answer tells which. If
it failed, by raising or by an answer that nothing was done, the state is the one before but
for an error that may be reported (`Untouched`). If it was granted, exactly one commit was
made (`Revised`). No operation has a third way out: each of them checks everything before it
changes anything, and commits last (`answered_of_revises`).

The headline is `untouched_of_fails`.
-/

namespace Workflow

/-- Whether a request is one to revise the graph of a store and to commit that. -/
def Request.revises : Request → Bool
  | .add .. => true
  | .edit (.addNode ..) | .edit (.moveNodes _) | .edit (.configure ..) | .edit (.rename ..)
  | .edit (.removeNode _) | .edit (.removeNodes _) | .edit (.connect ..) | .edit (.disconnect _)
  | .edit .clear | .edit (.importValue _) | .edit (.importDocument _) | .edit .restore => true
  | .edit (.moveNode ..) | .edit (.select _) | .edit (.selectNodes _) | .edit .selectAll
  | .edit (.toggle _) | .edit (.view _) | .edit .clearLogs | .edit .cancel => false
  | .undo | .redo | .execute _ => false

/-- Whether a request is one to step through the history. -/
def Request.steps : Request → Bool
  | .undo | .redo => true
  | .add .. | .edit _ | .execute _ => false

/-- Whether an answer says that nothing was done. -/
def EditReply.declines : EditReply → Bool
  | .changed made => !made
  | .removed count => count = 0
  | .rejected _ | .refused _ => true
  | .done | .addedNode _ | .connected _ | .imported => false

/-- Whether an answer to an edit is that it failed: it raised, or nothing was done. -/
def EditReply.failed : Except Failure EditReply → Bool
  | .error _ => true
  | .ok reply => reply.declines

namespace Store

/-- Whether a request fails. A run of the workflow answers with its result, not in this
way. -/
def fails (s : Store) : Request → Bool
  | .add id kindName position => !(s.addNodeAs id kindName position).1.isOk
  | .edit e => EditReply.failed (s.perform e).1
  | .undo => !s.undo.1
  | .redo => !s.redo.1
  | .execute _ => false

/-- Nothing of a state is changed, except that one error may be reported. -/
structure Untouched (s s' : Store) : Prop where
  same : s' = { s with notices := s'.notices }
  notices : s'.notices = s.notices ∨ ∃ message, s'.notices = s.notices.map (·.notify .error message)

theorem Untouched.refl (s : Store) : s.Untouched s := ⟨rfl, .inl rfl⟩

/-- What is left of a state by one commit of another graph. What a commit depends on was not
changed before it. -/
inductive Revised (s : Store) : Store → Prop
  | commit {s₁ : Store} {action : Action} (forward : action.fromHistory = false)
      (history : s₁.history = s.history) (changes : s₁.changes = s.changes)
      (listeners : s₁.listeners = s.listeners) (archive : s₁.archive = s.archive) :
      Revised s (s₁.commit action)

/-- The two ways in which a request is answered, with what is left of the state. -/
inductive Answered (s : Store) : Bool → Store → Prop
  | failed {s' : Store} (untouched : s.Untouched s') : Answered s true s'
  | granted {s' : Store} (revised : s.Revised s') : Answered s false s'

/-! ## Each operation -/

/-- A report changes nothing but the notices, whether its listeners raise or not. -/
theorem untouched_notify (s : Store) (message : String) :
    s.Untouched (s.notify .error message).2 := by
  unfold notify
  cases hnotices : s.notices with
  | none => exact .refl s
  | some q =>
      have hreported : s.Untouched { s with notices := some (q.notify .error message) } :=
        ⟨rfl, .inr ⟨message, by rw [hnotices]; rfl⟩⟩
      dsimp only
      split <;> exact hreported

theorem answered_addNodeAs (s : Store) (id kindName : String) (position : Option Position) :
    s.Answered (!(s.addNodeAs id kindName position).1.isOk)
      (s.addNodeAs id kindName position).2 := by
  unfold addNodeAs
  split
  · exact .failed (.refl s)
  · exact .granted (.commit rfl rfl rfl rfl rfl)

theorem answered_configure (s : Store) (id : String) (change : ConfigChange) :
    s.Answered (EditReply.failed ((s.configure id change).1.map .changed))
      (s.configure id change).2 := by
  unfold configure
  split
  · exact .failed (.refl s)
  · split
    · exact .failed (.refl s)
    · exact .granted (.commit rfl rfl rfl rfl rfl)

theorem answered_rename (s : Store) (id label : String) :
    s.Answered (EditReply.failed (.ok (.changed (s.rename id label).1))) (s.rename id label).2 := by
  unfold rename
  split
  · exact .failed (.refl s)
  · exact .granted (.commit rfl rfl rfl rfl rfl)

theorem answered_removeNodes (s : Store) (ids : List String) :
    s.Answered (decide ((s.removeNodes ids).1 = 0)) (s.removeNodes ids).2 := by
  unfold removeNodes
  dsimp only
  split
  · exact .failed (.refl s)
  · rename_i hsome
    rw [decide_eq_false hsome]
    exact .granted (.commit rfl rfl rfl rfl rfl)

theorem answered_disconnect (s : Store) (id : String) :
    s.Answered (EditReply.failed (.ok (.changed (s.disconnect id).1))) (s.disconnect id).2 := by
  unfold disconnect
  dsimp only
  split
  · exact .failed (.refl s)
  · exact .granted (.commit rfl rfl rfl rfl rfl)

section

variable {reply : Except Rejection String → EditReply}

/-- An edge is refused with a report, and whether this raises or not the attempt has
failed. -/
theorem answered_reject (hrefused : ∀ rejection, (reply (.error rejection)).declines = true)
    (s : Store) (rejection : Rejection) :
    s.Answered (EditReply.failed ((s.reject rejection).1.map reply)) (s.reject rejection).2 := by
  have hreported : s.Untouched (s.reject rejection).2 := s.untouched_notify rejection.message
  have hfailed : EditReply.failed ((s.reject rejection).1.map reply) = true := by
    unfold reject
    dsimp only
    cases (s.notify .error rejection.message).1 with
    | error _ => rfl
    | ok _ => exact hrefused rejection
  rw [hfailed]
  exact .failed hreported

theorem answered_connect (hdrawn : ∀ id, (reply (.ok id)).declines = false)
    (hrefused : ∀ rejection, (reply (.error rejection)).declines = true) (s : Store)
    (source target : String) (sourceHandle targetHandle : Value) :
    s.Answered
      (EditReply.failed ((s.connect source target sourceHandle targetHandle).1.map reply))
      (s.connect source target sourceHandle targetHandle).2 := by
  unfold connect
  split
  · split
    · exact answered_reject hrefused s _
    · have hgranted := hdrawn (Edge.idBetween source target)
      show s.Answered (reply (.ok _)).declines _
      rw [hgranted]
      exact .granted (.commit rfl rfl rfl rfl rfl)
  · exact answered_reject hrefused s _

end

/-- Importing fails before anything is taken over: the value is read and checked as a
whole. -/
theorem answered_importValue (s : Store) (v : Value) :
    s.Answered (EditReply.failed ((s.importValue v).1.map importReply)) (s.importValue v).2 := by
  unfold importValue
  split
  · exact .failed (.refl s)
  · exact .granted (.commit rfl rfl rfl rfl rfl)
  · rename_i problems himport
    obtain ⟨problem, rest, rfl⟩ := List.exists_cons_of_ne_nil (Document.problems_ne_nil himport)
    split
    · have hreported := s.untouched_notify
        s!"Import failed: {(problem :: rest).length} problem(s) found"
      dsimp only
      cases (s.notify .error s!"Import failed: {(problem :: rest).length} problem(s) found").1 <;>
        exact .failed hreported
    · exact .failed (.refl s)

/-- Restoring fails when there is nothing to import, and else as importing does. -/
theorem answered_restore (s : Store) :
    s.Answered (EditReply.failed (s.restore.1.map .changed)) s.restore.2 := by
  unfold restore
  split
  · exact .failed (.refl s)
  · split
    · exact .failed (.refl s)
    · exact .failed (.refl s)
    · rename_i d _
      have himported := s.answered_importValue d.toValue
      have hsame : EditReply.failed (((s.importDocument d).1.map List.isEmpty).map .changed)
          = EditReply.failed ((s.importValue d.toValue).1.map importReply) := by
        unfold importDocument
        rcases (s.importValue d.toValue).1 with _ | problems
        · rfl
        · cases problems <;> rfl
      dsimp only
      rw [hsame]
      exact himported

/-! ## Every request -/

/-- **A request to revise the graph fails and leaves the state, or commits once.** -/
theorem answered_of_revises (s : Store) {r : Request} (h : r.revises = true) :
    s.Answered (s.fails r) (s.after r) := by
  cases r with
  | add id kindName position => exact s.answered_addNodeAs id kindName position
  | undo | redo | execute _ => cases h
  | edit e =>
      cases e with
      | addNode kindName position =>
          have hadded := s.answered_addNodeAs (nodeId (s.issued + 1)) kindName position
          have hsame : s.fails (.edit (.addNode kindName position))
              = !(s.addNodeAs (nodeId (s.issued + 1)) kindName position).1.isOk := by
            show EditReply.failed ((s.addNodeAs _ kindName position).1.map .addedNode) = _
            cases (s.addNodeAs (nodeId (s.issued + 1)) kindName position).1 <;> rfl
          rw [hsame]
          exact hadded
      | moveNodes moves =>
          show s.Answered false
            ((moves.foldl (fun s move => s.moveNode move.1 move.2) s).commit .moveNodes)
          rw [foldl_moveNode]
          exact .granted (.commit rfl rfl rfl rfl rfl)
      | configure id change => exact s.answered_configure id change
      | rename id label => exact s.answered_rename id label
      | removeNode id =>
          have hremoved := s.answered_removeNodes [id]
          have hsame : s.fails (.edit (.removeNode id)) = decide ((s.removeNodes [id]).1 = 0) := by
            show (!decide (0 < (s.removeNodes [id]).1)) = _
            rw [← decide_not]
            exact decide_eq_decide.mpr (Nat.not_lt.trans Nat.le_zero)
          rw [hsame]
          exact hremoved
      | removeNodes ids => exact s.answered_removeNodes ids
      | connect source target sourceHandle targetHandle =>
          exact answered_connect (fun _ => rfl) (fun _ => rfl) s source target _ _
      | disconnect id => exact s.answered_disconnect id
      | clear => exact .granted (.commit rfl rfl rfl rfl rfl)
      | importValue v => exact s.answered_importValue v
      | importDocument d => exact s.answered_importValue d.toValue
      | restore => exact s.answered_restore
      | moveNode _ _ | select _ | selectNodes _ | selectAll | toggle _ | view _ | clearLogs
      | cancel => cases h

/-- A step through the history fails and does nothing at all, or it makes another snapshot of
the same row current. -/
theorem steps_cases (s : Store) {r : Request} (hsteps : r.steps = true) :
    s.fails r = true ∧ s.after r = s
      ∨ s.fails r = false ∧ ∃ h index action, s.history.At h index ∧ action.fromHistory = true
        ∧ s.after r = s.stepped h action := by
  cases r with
  | add _ _ _ | edit _ | execute _ => cases hsteps
  | undo =>
      unfold fails after
      rcases s.undo_cases with hnone | ⟨h, hundo, hstep⟩
      · rw [hnone]
        exact Or.inl ⟨rfl, rfl⟩
      · rw [hstep]
        exact Or.inr ⟨rfl, h, _, .undo, History.at_of_undo hundo, rfl, rfl⟩
  | redo =>
      unfold fails after
      rcases s.redo_cases with hnone | ⟨h, hredo, hstep⟩
      · rw [hnone]
        exact Or.inl ⟨rfl, rfl⟩
      · rw [hstep]
        exact Or.inr ⟨rfl, h, _, .redo, History.at_of_redo hredo, rfl, rfl⟩

/-- What neither revises the graph nor steps through the history does not fail. -/
theorem revises_or_steps_of_fails {s : Store} {r : Request} (h : s.fails r = true) :
    r.revises = true ∨ r.steps = true := by
  cases r with
  | add _ _ _ => exact .inl rfl
  | undo | redo => exact .inr rfl
  | execute _ => cases h
  | edit e =>
      cases e with
      | moveNode _ _ | select _ | selectNodes _ | selectAll | toggle _ | view _ | clearLogs
      | cancel => cases h
      | _ => exact .inl rfl

/-- **What fails leaves everything as it was**: graph, view, selection, logs, history with
what lies ahead in it, archive and announcements. At most one error is reported. -/
theorem untouched_of_fails (s : Store) (r : Request) (h : s.fails r = true) :
    s.Untouched (s.after r) := by
  rcases revises_or_steps_of_fails h with hrevises | hsteps
  · have hanswered := s.answered_of_revises hrevises
    rw [h] at hanswered
    cases hanswered with
    | failed huntouched => exact huntouched
  · rcases s.steps_cases hsteps with ⟨-, hsame⟩ | ⟨hgranted, -⟩
    · rw [hsame]
      exact .refl s
    · cases hgranted.symm.trans h

/-- A node that was renamed and got its name back is connected with itself: this is refused
and reported, and the new name can still be brought back. -/
theorem untouched_by_self_connection :
    let s₀ := create (.idle none 0) (.ofCap 50) (some (.ofTables .empty Archive.defaultKey))
      (some .empty) [] true 0
    let s := ((s₀.after (.add "a" "start" none)).after (.edit (.rename "a" "b"))).after .undo
    let r : Request := .edit (.connect "a" "a" .null .null)
    s.fails r = true ∧ s.Untouched (s.after r) ∧ (s.after r).redo.1 = true
      ∧ (s.after r).notices ≠ s.notices := by
  intro s₀ s r
  have hfails : s.fails r = true := by decide +kernel
  exact ⟨hfails, untouched_of_fails s r hfails, by decide +kernel, by decide +kernel⟩

end Store
end Workflow

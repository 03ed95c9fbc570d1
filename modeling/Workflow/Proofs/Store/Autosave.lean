import Workflow.Proofs.Archive.Slot
import Workflow.Proofs.Store.Answer

/-!
# What is announced and what is saved

A store that saves its document after every change keeps three records of what was asked of
it: the history, the announcements and the slot of its archive. They go together. A revision
that is granted is saved in the history, announced and put in the slot, once each
(`Recorded`); a step through the history is announced and nothing else (`Restored`); every
other request leaves all three alone (`Silent`). So the slot holds the document announced
last, steps through the history left aside.

The invariant is that the store goes on to save its document (`Autosaves`). It rests on the
other listeners being quiet: one that raises may keep the document from being saved, and one
that makes edits at a step has them announced without a snapshot.

The headline is `announced_and_saved`.
-/

namespace Workflow

/-- Whether a listener neither makes edits nor raises. -/
def ChangeListener.Quiet : ChangeListener → Prop
  | .autosave => True
  | .observer edits raises => edits = [] ∧ raises = false

theorem ChangeListener.Quiet.passive {l : ChangeListener} (h : l.Quiet) : l.Passive := by
  cases l with
  | autosave => trivial
  | observer edits raises => exact h.1

/-- Whether a listener raises when it hears of a change. -/
def ChangeListener.raises : ChangeListener → Bool
  | .autosave => false
  | .observer _ raises => raises

theorem ChangeListener.Quiet.raises {l : ChangeListener} (h : l.Quiet) :
    l.raises = false := by
  cases l with
  | autosave => rfl
  | observer edits raises => exact h.2

namespace Store

/-- What the slot of the archive shows, if there is an archive. -/
def slot? (s : Store) : Option (Except Failure (Option String)) :=
  s.archive.map fun a => a.tables.slot? a.key

/-- The slot of the archive holds the text of a document. -/
def HasSaved (s : Store) (d : Document) : Prop :=
  ∃ text, d.write .oneLine = .ok text ∧ s.slot? = some (.ok (some text))

/-- The announcement made last that is not of a step through the history. -/
def latest? (s : Store) : Option Change :=
  (s.changes.filter fun c => !c.action.fromHistory).getLast?

/-- A store that saves its document after every change, and that nobody keeps from doing
so. -/
structure Autosaves (s : Store) : Prop where
  archive : s.slot?.isSome = true
  saves : .autosave ∈ s.listeners
  quiet : ∀ l ∈ s.listeners, l.Quiet
  idle : s.history.applying = false

/-- The documents that a request has the archive save can be saved there. -/
def CanSave (s : Store) (r : Request) : Prop :=
  ∀ a c, s.archive = some a → (s.after r).changes = s.changes ++ [c] →
    c.action.fromHistory = false → (a.save c.document).1 = true

/-! ## What requests leave behind -/

/-- What is left of a revision: one snapshot more, which is current, one announcement of the
document as it is now, and this document in the slot. -/
structure Recorded (s s' : Store) : Prop where
  snapshots : s'.history.snapshots = s.history.snapshotsWith s'.graph
  index : s'.history.index = (s.history.snapshotsWith s'.graph).length - 1
  change : ∃ action : Action, action.fromHistory = false
    ∧ s'.changes = s.changes ++ [⟨action, s'.document⟩]
  saved : s'.HasSaved s'.document

/-- What is left of a step through the history: another snapshot of the same row is current
and is the graph, one announcement of the document with it, and nothing is saved. -/
structure Restored (s s' : Store) : Prop where
  snapshots : s'.history.snapshots = s.history.snapshots
  graph : s'.graph = s'.history.current
  change : ∃ action : Action, action.fromHistory = true
    ∧ s'.changes = s.changes ++ [⟨action, s'.document⟩]
  archive : s'.archive = s.archive

/-- What is left of anything else: no snapshot, no announcement, and the slot as it was. -/
structure Silent (s s' : Store) : Prop where
  history : s'.history = s.history
  changes : s'.changes = s.changes
  slot : s'.slot? = s.slot?

/-! ## Committing -/

/-- A document that can be saved is saved, and could be saved once more. -/
theorem saveDocument_of_archive {s : Store} {a : Archive} (ha : s.archive = some a)
    {d : Document} (hsave : (a.save d).1 = true) :
    ∃ b, s.saveDocument d = { s with archive := some b } ∧ b.Bears d ∧ (b.save d).1 = true := by
  obtain ⟨hbears, hagain⟩ := Archive.bears_save hsave
  refine ⟨(a.save d).2, ?_, hbears, hagain⟩
  unfold saveDocument
  rw [ha]

/-- A document in the slot stays there, whoever else hears of the change. -/
theorem hear_of_bears {d : Document} : ∀ (listeners : List ChangeListener) {s : Store}
    {a : Archive}, s.archive = some a → a.Bears d → (a.save d).1 = true →
      ∃ a', s.hear d listeners = { s with archive := some a' } ∧ a'.Bears d
  | [], s, a, ha, hbears, _ => by
      refine ⟨a, ?_, hbears⟩
      rw [← ha]
      rfl
  | .autosave :: rest, s, a, ha, _, hsave => by
      obtain ⟨b, hb, hbears, hagain⟩ := saveDocument_of_archive ha hsave
      obtain ⟨a', hrest, hkept⟩ := hear_of_bears rest (s := { s with archive := some b }) rfl hbears
        hagain
      refine ⟨a', ?_, hkept⟩
      unfold hear
      rw [hb, hrest]
  | .observer _ raises :: rest, s, a, ha, hbears, hsave => by
      unfold hear
      split
      · refine ⟨a, ?_, hbears⟩
        rw [← ha]
      · exact hear_of_bears rest ha hbears hsave

/-- A listener that saves the document and is called first has it saved. -/
theorem hear_of_autosave {s : Store} {a : Archive} (ha : s.archive = some a) {d : Document}
    (hsave : (a.save d).1 = true) (rest : List ChangeListener) :
    ∃ a', s.hear d (.autosave :: rest) = { s with archive := some a' } ∧ a'.Bears d := by
  obtain ⟨b, hb, hbears, hagain⟩ := saveDocument_of_archive ha hsave
  obtain ⟨a', hrest, hkept⟩ := hear_of_bears rest (s := { s with archive := some b }) rfl hbears
    hagain
  refine ⟨a', ?_, hkept⟩
  unfold hear
  rw [hb, hrest]

/-- A listener that saves the document does so unless one before it raises. -/
theorem hear_of_silent {d : Document} (behind : List ChangeListener) :
    ∀ {before : List ChangeListener} {s : Store} {a : Archive}, s.archive = some a →
      (∀ l ∈ before, l.raises = false) → (a.save d).1 = true →
        ∃ a', s.hear d (before ++ .autosave :: behind) = { s with archive := some a' } ∧ a'.Bears d
  | [], _, _, ha, _, hsave => hear_of_autosave ha hsave behind
  | .autosave :: before, _, _, ha, _, hsave => hear_of_autosave ha hsave _
  | .observer _ raises :: before, s, a, ha, hsilent, hsave => by
      obtain rfl : raises = false := hsilent _ List.mem_cons_self
      have hsilentRest : ∀ l ∈ before, l.raises = false :=
        fun l hl => hsilent l (List.mem_cons_of_mem _ hl)
      have hrest := hear_of_silent behind ha hsilentRest hsave
      exact hrest

/-- What was committed is announced, and the listeners hear of the document that it
leaves. -/
theorem Revised.heard {s s' : Store} (h : s.Revised s') :
    ∃ (s₁ : Store) (action : Action), s₁.archive = s.archive ∧ action.fromHistory = false
      ∧ s'.changes = s.changes ++ [⟨action, s'.document⟩]
      ∧ s' = s₁.hear s'.document s.listeners := by
  cases h with
  | @commit s₁ action forward hhistory hchanges hlisteners harchive =>
      let s₂ : Store := { s₁ with history := s₁.history.save s₁.graph }
      let s₃ : Store := { s₂ with changes := s₂.changes ++ [⟨action, s₂.document⟩] }
      have hcommit : s₁.commit action = s₃.hear s₂.document s₁.listeners := rfl
      obtain ⟨b, hb⟩ := hear_eq s₂.document s₃ s₁.listeners
      have hdocument : (s₁.commit action).document = s₂.document := by
        rw [hcommit, hb]
        rfl
      refine ⟨s₃, action, harchive, forward, ?_, ?_⟩
      · rw [hdocument, hcommit, hb, ← hchanges]
      · rw [hdocument, ← hlisteners, hcommit]

/-- What was committed is saved, if no listener raises before the one that saves the
document. -/
theorem Revised.saved {s s' : Store} (h : s.Revised s') {before behind : List ChangeListener}
    (hlisteners : s.listeners = before ++ .autosave :: behind)
    (hsilent : ∀ l ∈ before, l.raises = false) {a : Archive} (ha : s.archive = some a)
    (hsaves : ∀ c, s'.changes = s.changes ++ [c] → c.action.fromHistory = false →
      (a.save c.document).1 = true) : s'.HasSaved s'.document := by
  obtain ⟨s₁, action, harchive, hforward, hchanges, hheard⟩ := h.heard
  obtain ⟨a', hsaved, text, hwrite, hslot⟩ :=
    hear_of_silent behind (harchive.trans ha) hsilent (hsaves _ hchanges hforward)
  refine ⟨text, hwrite, ?_⟩
  rw [hheard, hlisteners, hsaved]
  exact congrArg some hslot

theorem exists_archive_of_slot? {s : Store} (h : s.slot?.isSome = true) :
    ∃ a, s.archive = some a := by
  unfold slot? at h
  rw [Option.isSome_map] at h
  exact Option.isSome_iff_exists.mp h

theorem Autosaves.recorded {s s' : Store} (h : s.Autosaves) (hrevised : s.Revised s')
    (hsaves : ∀ a c, s.archive = some a → s'.changes = s.changes ++ [c] →
      c.action.fromHistory = false → (a.save c.document).1 = true) : s.Recorded s' := by
  obtain ⟨a, ha⟩ := exists_archive_of_slot? h.archive
  obtain ⟨before, behind, hlisteners⟩ := List.append_of_mem h.saves
  have hsaved : s'.HasSaved s'.document := by
    refine hrevised.saved hlisteners (fun l hl => ?_) ha fun c => hsaves a c ha
    exact (h.quiet l (hlisteners ▸ List.mem_append_left _ hl)).raises
  cases hrevised with
  | @commit s₁ action forward hhistory hchanges hlisteners harchive =>
      have hcommits : s.Commits s₁.graph (s₁.commit action) :=
        commits_commit rfl forward hhistory hchanges hlisteners
      obtain ⟨hsnapshots, hindex⟩ := History.save_of_idle h.idle s₁.graph
      refine ⟨?_, ?_, hcommits.changes, hsaved⟩
      · rw [hcommits.history, hcommits.graph]
        exact hsnapshots
      · rw [hcommits.history, hcommits.graph]
        exact hindex

/-! ## Stepping -/

theorem restored_stepped {s : Store} (hpassive : ∀ l ∈ s.listeners, l.Passive) {h' : History}
    {index : Nat} (hat : s.history.At h' index) {action : Action}
    (hback : action.fromHistory = true) : s.Restored (s.stepped h' action) := by
  have hsteps := stepsTo_stepped hpassive h' hback
  refine ⟨?_, ?_, hsteps.changes, ?_⟩
  · rw [hsteps.history]
    exact hat.snapshots
  · rw [hsteps.graph, hsteps.history]
    rfl
  · unfold stepped
    rw [hearStep_eq _ hpassive]
    rfl

/-- A step through the history that does not fail leaves a snapshot restored. -/
theorem restored_of_steps {s : Store} (hpassive : ∀ l ∈ s.listeners, l.Passive) {r : Request}
    (hsteps : r.steps = true) (hgranted : s.fails r = false) : s.Restored (s.after r) := by
  rcases s.steps_cases hsteps with ⟨hfails, -⟩ | ⟨-, h, index, action, hat, hback, hstep⟩
  · cases hgranted.symm.trans hfails
  · rw [hstep]
    exact restored_stepped hpassive hat hback

/-! ## Everything else -/

theorem Untouched.silent {s s' : Store} (h : s.Untouched s') : s.Silent s' := by
  rw [h.same]
  exact ⟨rfl, rfl, rfl⟩

theorem slot?_notify (s : Store) (level : Level) (message : String) :
    (s.notify level message).2.slot? = s.slot? := by
  unfold notify
  split
  · rfl
  · dsimp only
    split <;> rfl

theorem slot?_record (s : Store) (r : RunResult) : (s.record r).2.slot? = s.slot? := by
  unfold record
  split
  · rfl
  · rename_i a ha
    have hrecorded : ∀ a', (a.recordResult r).2 = a' →
        ({ s with archive := some a' } : Store).slot? = s.slot? := by
      rintro a' rfl
      have hslot := a.slot?_recordRun (r.logs.map .ofEntry) r.status.name (instantText r.started)
        (some (instantText r.finished))
      unfold slot?
      rw [ha]
      exact congrArg some hslot
    split
    · rfl
    · split
      · rename_i hresult
        exact hrecorded _ (congrArg Prod.snd hresult)
      · rename_i hresult
        exact hrecorded _ (congrArg Prod.snd hresult)

/-- Running the workflow leaves the slot alone, though it may record the run in the
archive. -/
theorem slot?_execute (s : Store) (hooks : List Hook) :
    (s.execute hooks).2.2.slot? = s.slot? := by
  have hsettle : ∀ (s' : Store) (r : RunResult), s'.slot? = s.slot? →
      (s'.settle r).2.slot? = s.slot? :=
    settle_invariant (Q := fun s' => s'.slot? = s.slot?) (fun _ _ h => h)
      (fun s' r h => (s'.slot?_record r).trans h)
      (fun s' level message h => (s'.slot?_notify level message).trans h)
  exact execute_invariant (Q := fun s' => s'.slot? = s.slot?) (fun _ _ h => h) hsettle s hooks rfl

theorem silent_execute (s : Store) (hooks : List Hook) : s.Silent (s.execute hooks).2.2 :=
  have hkeeps := s.keeps_execute hooks
  ⟨hkeeps.history, hkeeps.changes, s.slot?_execute hooks⟩

theorem silent_of_fails {s : Store} {r : Request} (h : s.fails r = true) :
    s.Silent (s.after r) := by
  rcases revises_or_steps_of_fails h with hrevises | hsteps
  · have hanswered := s.answered_of_revises hrevises
    rw [h] at hanswered
    cases hanswered with
    | failed huntouched => exact huntouched.silent
  · rcases s.steps_cases hsteps with ⟨-, hsame⟩ | ⟨hgranted, -⟩
    · rw [hsame]
      exact (Untouched.refl s).silent
    · cases hgranted.symm.trans h

/-- What neither revises the graph nor steps through the history is not heard of. -/
theorem silent_of_not_revises (s : Store) {r : Request} (hrevises : r.revises = false)
    (hsteps : r.steps = false) : s.Silent (s.after r) := by
  cases r with
  | add _ _ _ => cases hrevises
  | undo | redo => cases hsteps
  | execute hooks => exact s.silent_execute hooks
  | edit e =>
      cases e with
      | moveNode _ _ | select _ | selectNodes _ | selectAll | toggle _ | view _ | clearLogs
      | cancel => exact ⟨rfl, rfl, rfl⟩
      | _ => cases hrevises

/-! ## Along a run -/

/-- No request changes who listens, or leaves the history in the middle of a step. -/
theorem listeners_and_idle_after {s : Store} (hpassive : ∀ l ∈ s.listeners, l.Passive)
    (hidle : s.history.applying = false) (r : Request) :
    (s.after r).listeners = s.listeners ∧ (s.after r).history.applying = false := by
  have hstepped : ∀ {h' : History} {action : Action}, action.fromHistory = true →
      (s.stepped h' action).listeners = s.listeners
        ∧ (s.stepped h' action).history.applying = false := by
    intro h' action hback
    have hsteps := stepsTo_stepped hpassive h' hback
    rw [hsteps.listeners, hsteps.history]
    exact ⟨rfl, rfl⟩
  have heffect := s.effect_after r
  generalize s.after r = s' at heffect ⊢
  cases heffect with
  | kept hkeeps =>
      rw [hkeeps.listeners, hkeeps.history]
      exact ⟨rfl, hidle⟩
  | moved => exact ⟨rfl, hidle⟩
  | committed _ hcommits =>
      rw [hcommits.listeners, hcommits.history, History.applying_save]
      exact ⟨rfl, hidle⟩
  | undone _ => exact hstepped rfl
  | redone _ => exact hstepped rfl

theorem latest?_of_forward {s s' : Store} {c : Change}
    (hchange : s'.changes = s.changes ++ [c]) (hforward : c.action.fromHistory = false) :
    s'.latest? = some c := by
  unfold latest?
  rw [hchange, List.filter_append, List.filter_cons, hforward]
  exact List.getLast?_concat

theorem latest?_of_back {s s' : Store} {c : Change} (hchange : s'.changes = s.changes ++ [c])
    (hback : c.action.fromHistory = true) : s'.latest? = s.latest? := by
  unfold latest?
  rw [hchange, List.filter_append, List.filter_cons, hback]
  exact congrArg List.getLast? (List.append_nil _)

/-- A store that saves its document, and has done so since a state in which nothing had been
announced yet. -/
structure UpToDate (s₀ s : Store) : Prop where
  autosaves : s.Autosaves
  latest : ∀ c, s.latest? = some c → s.HasSaved c.document
  before : s.latest? = none → s.slot? = s₀.slot?

/-- **What a request leaves behind** in a store that saves its document. -/
theorem Autosaves.after {s : Store} (h : s.Autosaves) {r : Request} (hsaves : s.CanSave r) :
    (r.revises = true → s.fails r = false → s.Recorded (s.after r))
      ∧ (r.steps = true → s.fails r = false → s.Restored (s.after r))
      ∧ (s.fails r = true ∨ r.revises = false ∧ r.steps = false → s.Silent (s.after r)) := by
  refine ⟨fun hrevises hgranted => ?_, fun hsteps hgranted => ?_, ?_⟩
  · have hanswered := s.answered_of_revises hrevises
    rw [hgranted] at hanswered
    cases hanswered with
    | granted hrevised => exact h.recorded hrevised hsaves
  · exact restored_of_steps (fun l hl => (h.quiet l hl).passive) hsteps hgranted
  · rintro (hfails | ⟨hrevises, hsteps⟩)
    · exact silent_of_fails hfails
    · exact s.silent_of_not_revises hrevises hsteps

theorem UpToDate.after {s₀ s : Store} (h : UpToDate s₀ s) {r : Request}
    (hsaves : s.CanSave r) :
    UpToDate s₀ (s.after r) := by
  obtain ⟨hrecorded, hrestored, hsilent⟩ := h.autosaves.after hsaves
  obtain ⟨hlisteners, hidle⟩ := listeners_and_idle_after
    (fun l hl => (h.autosaves.quiet l hl).passive) h.autosaves.idle r
  have hautosaves : (s.after r).slot?.isSome = true → (s.after r).Autosaves := fun harchive =>
    ⟨harchive, hlisteners ▸ h.autosaves.saves, hlisteners ▸ h.autosaves.quiet, hidle⟩
  have hkept : (s.after r).slot? = s.slot? → (s.after r).latest? = s.latest? →
      UpToDate s₀ (s.after r) := by
    intro hslot hlatest
    refine ⟨hautosaves (hslot ▸ h.autosaves.archive), fun c hc => ?_, fun hnone => ?_⟩
    · obtain ⟨text, hwrite, hbears⟩ := h.latest c (hlatest ▸ hc)
      exact ⟨text, hwrite, hslot.trans hbears⟩
    · exact hslot.trans (h.before (hlatest ▸ hnone))
  by_cases hdoes : s.fails r = true ∨ r.revises = false ∧ r.steps = false
  · obtain ⟨-, hchanges, hslot⟩ := hsilent hdoes
    refine hkept hslot ?_
    unfold latest?
    rw [hchanges]
  obtain ⟨hgranted, hasks⟩ := not_or.mp hdoes
  replace hgranted : s.fails r = false := eq_false_of_ne_true hgranted
  by_cases hrevises : r.revises = true
  · obtain ⟨-, -, ⟨action, hforward, hchange⟩, hsaved⟩ := hrecorded hrevises hgranted
    have hlatest := latest?_of_forward hchange hforward
    have hslot : (s.after r).slot?.isSome = true := by
      obtain ⟨text, -, hslot⟩ := hsaved
      rw [hslot]
      rfl
    refine ⟨hautosaves hslot, fun c hc => ?_, fun hnone => ?_⟩
    · obtain rfl := Option.some.inj (hlatest.symm.trans hc)
      exact hsaved
    · cases hlatest.symm.trans hnone
  · have hsteps : r.steps = true := by
      by_contra hnot
      exact hasks ⟨eq_false_of_ne_true hrevises, eq_false_of_ne_true hnot⟩
    obtain ⟨-, -, ⟨action, hback, hchange⟩, harchive⟩ := hrestored hsteps hgranted
    refine hkept ?_ (latest?_of_back hchange hback)
    unfold slot?
    rw [harchive]

/-- **Every change is saved, announced and put in the slot once.** In a store that saves its
document after every change, a revision that is granted leaves one snapshot, one announcement
and its document in the slot; a step through the history is announced and nothing more;
anything else leaves no trace in any of the three. So whatever was asked of the store, the
slot holds the document announced last that did not come out of the history. -/
theorem announced_and_saved {s₀ s : Store} (h₀ : s₀.Autosaves) (hfirst : s₀.changes = [])
    (h : Reachable CanSave s₀ s) :
    (∀ r, s.CanSave r →
        (r.revises = true → s.fails r = false → s.Recorded (s.after r))
          ∧ (r.steps = true → s.fails r = false → s.Restored (s.after r))
          ∧ (s.fails r = true ∨ r.revises = false ∧ r.steps = false → s.Silent (s.after r)))
      ∧ (∀ c, s.latest? = some c → s.HasSaved c.document)
      ∧ (s.latest? = none → s.slot? = s₀.slot?) := by
  have hnone : s₀.latest? = none := by
    unfold latest?
    rw [hfirst]
    rfl
  have hstart : UpToDate s₀ s₀ := by
    refine ⟨h₀, fun c hc => ?_, fun _ => rfl⟩
    rw [hnone] at hc
    cases hc
  have huptodate : UpToDate s₀ s := h.invariant hstart fun _ _ hs hr => hs.after hr
  exact ⟨fun r hr => huptodate.autosaves.after hr, huptodate.latest, huptodate.before⟩

theorem canSave_of_all {s : Store} {r : Request}
    (h : (s.archive.all fun a => (s.after r).changes.all fun c => (a.save c.document).1) = true) :
    s.CanSave r := by
  intro a c ha hchange _
  rw [ha, hchange] at h
  exact List.all_eq_true.mp h c (List.mem_append_right _ List.mem_cons_self)

/-- A node is renamed and gets its name back: the slot still holds the new name, and this is
what renaming it again would leave there. -/
theorem announced_and_saved_but_for_undo :
    let s₀ := create (.idle none 0) (.ofCap 50) (some (.ofTables .empty Archive.defaultKey)) none
      [.observer [] false] true 0
    let s := ((s₀.after (.add "a" "start" none)).after (.edit (.rename "a" "b"))).after .undo
    let r : Request := .edit (.rename "a" "b")
    s.Recorded (s.after r) ∧ s.HasSaved (s.after r).document ∧ ¬ s.HasSaved s.document := by
  intro s₀ s r
  have h₀ : s₀.Autosaves := by
    refine ⟨rfl, List.mem_cons_of_mem _ List.mem_cons_self, fun l hl => ?_, rfl⟩
    rcases List.mem_cons.mp hl with rfl | hl
    · exact ⟨rfl, rfl⟩
    · obtain rfl := List.mem_singleton.mp hl
      trivial
  have hrun : Reachable CanSave s₀ s := by
    refine .step _ (.step _ (.step _ .start ?_) ?_) ?_ <;>
      exact canSave_of_all (by decide +kernel)
  obtain ⟨hleft, hsaved, -⟩ := announced_and_saved h₀ rfl hrun
  refine ⟨(hleft r (canSave_of_all (by decide +kernel))).1 rfl (by decide +kernel),
    hsaved ⟨.rename "a", (s.after r).document⟩ (by decide +kernel), ?_⟩
  rintro ⟨text, hwrite, hslot⟩
  have hother : s.slot? ≠ (s.document.write .oneLine).toOption.map fun text => .ok (some text) := by
    decide +kernel
  rw [hwrite] at hother
  exact hother hslot

end Store
end Workflow

import Workflow.Proofs.Store.Heard
import Workflow.Proofs.Store.View

/-!
# Callbacks that only raise

Callbacks for changes and for notices that do nothing but raise are to make no difference to
a store. They do in two places. A callback for notices that raises breaks off the request
during which the notice was posted, after all its effects (`Store.Echoes`). And one for
changes that raises may keep the document from being saved, which the next import of the
document saved last comes to feel; up to then nothing differs but the slot of the archive.

A store is compared with the same store without these callbacks in two views. In one nobody
listens and the slot is not seen, and this view is always faithful (`View.faithful_blind`).
In the other only the store itself listens and all is seen. It is faithful as long as no
callback raises before a listener that saves the document (`View.faithful_unheard`).

The headline is `Store.unnoticed`.
-/

namespace Workflow

/-! ## The view without the slot -/

def Tables.emptied (t : Tables) : Tables := { t with slots := [] }

theorem Tables.emptied_addRun (t : Tables) (row : RunRow) :
    t.emptied.addRun row = (t.addRun row).map Tables.emptied := by
  unfold addRun access emptied
  dsimp only
  cases t.state with
  | usable =>
      dsimp only
      split <;> rfl
  | absent | damaged => rfl

namespace Archive

def emptied (a : Archive) : Archive := { a with tables := a.tables.emptied, saved := false }

theorem emptied_save (a : Archive) (d : Document) : (a.save d).2.emptied = a.emptied := by
  unfold save
  split
  · rfl
  · split
    · rfl
    · rename_i hput
      obtain ⟨-, hfilled⟩ := Tables.usable_of_access hput
      obtain rfl := Except.ok.inj hfilled
      rfl

theorem emptied_recordResult (a : Archive) (r : RunResult) :
    a.emptied.recordResult r = ((a.recordResult r).1, (a.recordResult r).2.emptied) := by
  unfold recordResult recordRun recordRunAs
  have hname : a.emptied.tables.nextName
      = (a.tables.nextName.1, a.tables.nextName.2.emptied) := rfl
  rw [hname]
  generalize a.tables.nextName = named
  cases writeLog (r.logs.map .ofEntry) with
  | error f => rfl
  | ok log =>
      dsimp only
      rw [Tables.emptied_addRun]
      have hkey : a.emptied.key = a.key := rfl
      rw [hkey]
      generalize named.2.addRun _ = added
      cases added <;> rfl

end Archive

/-- Nobody listens, and the slot is not seen. -/
def View.blind : View := ⟨[], Archive.emptied⟩

theorem Store.seen_hear_blind (d : Document) :
    ∀ (s : Store) (listeners : List ChangeListener),
    (s.hear d listeners).seen .blind = s.seen .blind
  | _, [] => rfl
  | s, .autosave :: rest => by
      have hsaved : (s.saveDocument d).seen .blind = s.seen .blind := by
        unfold saveDocument
        split
        · rfl
        · rename_i a ha
          unfold seen
          rw [ha]
          exact congrArg (fun b => ({ s with
            listeners := []
            noticeListeners := []
            archive := some b } : Store)) (a.emptied_save d)
      unfold hear
      rw [Store.seen_hear_blind d _ rest, hsaved]
  | s, .observer _ raises :: rest => by
      unfold hear
      split
      · rfl
      · exact Store.seen_hear_blind d s rest

theorem View.faithful_blind {listeners : List ChangeListener}
    (hpassive : ∀ l ∈ listeners, l.Passive) : View.blind.Faithful listeners where
  hears s d := s.seen_hear_blind d listeners
  records := Archive.emptied_recordResult
  passive := hpassive
  passiveSeen := List.forall_mem_nil _

/-! ## The view without callbacks -/

/-- Whether a listener is the one through which a store saves its document. -/
def ChangeListener.saves : ChangeListener → Bool
  | .autosave => true
  | .observer _ _ => false

/-- Only those listen that save the document, and all is seen. -/
def View.unheard (listeners : List ChangeListener) : View := ⟨listeners.filter (·.saves), id⟩

/-- No callback that raises is called before a listener that saves the document. -/
def Undisturbed (listeners : List ChangeListener) : Prop :=
  listeners.Pairwise fun l l' => l.raises = true → l'.saves = false

theorem Store.seen_saveDocument {v : View} (hall : v.archive = id) (s : Store) (d : Document) :
    (s.seen v).saveDocument d = (s.saveDocument d).seen v := by
  cases ha : s.archive with
  | none =>
      have hnone : (s.seen v).archive = none := congrArg (Option.map v.archive) ha
      unfold saveDocument
      rw [hnone, ha]
  | some a =>
      have hsome : (s.seen v).archive = some a := by
        rw [seen_archive, ha, hall]
        rfl
      unfold saveDocument
      rw [hsome, ha]
      unfold seen
      rw [hall]
      rfl

theorem Store.seen_hear_unheard (d : Document) {v : View} (hall : v.archive = id) :
    ∀ (listeners : List ChangeListener) (s : Store), Undisturbed listeners →
      (s.hear d listeners).seen v = (s.seen v).hear d (listeners.filter (·.saves))
  | [], _, _ => rfl
  | .autosave :: rest, s, h => by
      have hrest := Store.seen_hear_unheard d hall rest (s.saveDocument d)
        (List.pairwise_cons.mp h).2
      rw [← seen_saveDocument hall] at hrest
      exact hrest
  | .observer _ false :: rest, s, h =>
      Store.seen_hear_unheard d hall rest s (List.pairwise_cons.mp h).2
  | .observer edits true :: rest, s, h => by
      have hnone : (ChangeListener.observer edits true :: rest).filter (·.saves) = [] := by
        refine List.filter_eq_nil_iff.mpr
          (List.forall_mem_cons.mpr ⟨Bool.false_ne_true, fun l hl => ?_⟩)
        exact ne_true_of_eq_false ((List.pairwise_cons.mp h).1 l hl rfl)
      rw [hnone]
      rfl

theorem View.faithful_unheard {listeners : List ChangeListener}
    (hpassive : ∀ l ∈ listeners, l.Passive) (h : Undisturbed listeners) :
    (View.unheard listeners).Faithful listeners where
  hears s d := s.seen_hear_unheard d rfl listeners h
  records _ _ := rfl
  passive := hpassive
  passiveSeen l hl := hpassive l (List.mem_of_mem_filter hl)

theorem View.unheard_filter (listeners : List ChangeListener) :
    View.unheard (listeners.filter (·.saves)) = .unheard listeners := by
  unfold View.unheard
  rw [List.filter_filter]
  simp only [Bool.and_self]

namespace Store

/-- A store without callbacks: nobody but the store itself listens. -/
def unheard (s : Store) : Store := s.seen (.unheard s.listeners)

/-- Two stores differ in nothing but who listens and what is in the slot of the archive. -/
structure Alike (s t : Store) : Prop where
  graph : s.graph = t.graph
  viewport : s.viewport = t.viewport
  selection : s.selection = t.selection
  history : s.history = t.history
  executor : s.executor = t.executor
  archive : s.archive.map Archive.emptied = t.archive.map Archive.emptied
  notices : s.notices = t.notices
  lastRun : s.lastRun = t.lastRun
  issued : s.issued = t.issued
  changes : s.changes = t.changes

theorem alike_of_seen {s t : Store} (h : s.seen .blind = t.seen .blind) : s.Alike t where
  graph := (congrArg graph h :)
  viewport := (congrArg viewport h :)
  selection := (congrArg selection h :)
  history := (congrArg history h :)
  executor := (congrArg executor h :)
  archive := (congrArg archive h :)
  notices := (congrArg notices h :)
  lastRun := (congrArg lastRun h :)
  issued := (congrArg issued h :)
  changes := (congrArg changes h :)

/-! ## One request to two stores -/

theorem ask_congr {s t : Store} {r : Request} (h : r.restores = true → s.stored? = t.stored?)
    (u : Store) : s.ask u r = t.ask u r := by
  cases r with
  | edit e =>
      cases e with
      | restore =>
          unfold ask
          rw [h rfl]
      | _ => rfl
  | add _ _ _ | undo | redo | execute _ => rfl

theorem escape_congr_notices {α : Type} {s : Store} {alone alone' : Except Failure α × Store}
    (hanswer : alone.1 = alone'.1) (hnotices : alone.2.notices = alone'.2.notices) :
    s.escape alone = s.escape alone' := by
  unfold escape
  rw [hanswer, hnotices]

/-- Two stores that look the same answer a request alike, if nobody listens to the notices of
the second one. What a request reads from the slot must be the same, too. -/
theorem echoes_of_seen {v : View} {s t : Store} {r : Request} (hs : v.Faithful s.listeners)
    (ht : v.Faithful t.listeners) (hmute : s.raised? = none ∨ r.nests = false)
    (hquiet : t.raised? = none) (hseen : s.seen v = t.seen v)
    (hstored : r.restores = true → s.stored? = t.stored?) :
    (s.after r).seen v = (t.after r).seen v ∧ s.respond r = s.escape (t.respond r, t.after r) := by
  obtain ⟨hstate, hanswer, -, -⟩ := echoes_after hs hmute
  obtain ⟨hstate', hanswer', -, -⟩ := echoes_after ht (.inl hquiet) (r := r)
  rw [hseen, ask_congr hstored] at hstate hanswer
  rw [escape_of_quiet hquiet] at hanswer'
  refine ⟨hstate.trans hstate'.symm, hanswer.trans (escape_congr_notices hanswer'.symm ?_)⟩
  rw [← hstate']
  rfl

/-! ## Requests in turn -/

/-- The state after several requests in turn. -/
def afterAll (s : Store) (requests : List Request) : Store := requests.foldl after s

/-- Two stores that look the same, with the listeners of a third one and with those of it
that are no callbacks. -/
structure Beside (v : View) (s₀ s t : Store) : Prop where
  seen : s.seen v = t.seen v
  listeners : s.listeners = s₀.listeners
  noticeListeners : s.noticeListeners = s₀.noticeListeners
  left : t.listeners = s₀.listeners.filter (·.saves)
  quiet : t.noticeListeners = []

section

variable {v : View} {s₀ s t : Store}

theorem Beside.raised? (h : s₀.Beside v s t) : s.raised? = s₀.raised? :=
  congrArg (List.findSome? id) h.noticeListeners

theorem Beside.notices (h : s₀.Beside v s t) : s.notices = t.notices :=
  (congrArg Store.notices h.seen :)

/-- **One request**: the stores go on looking the same, and the answers differ by what
escapes from listeners of notices. -/
theorem Beside.after (h : s₀.Beside v s t) (hs : v.Faithful s₀.listeners)
    (ht : v.Faithful (s₀.listeners.filter (·.saves))) {r : Request}
    (hmute : s₀.raised? = none ∨ r.nests = false)
    (hstored : r.restores = true → s.stored? = t.stored?) :
    s₀.Beside v (s.after r) (t.after r) ∧ s.respond r = s.escape (t.respond r, t.after r) := by
  have hs' : v.Faithful s.listeners := h.listeners ▸ hs
  have ht' : v.Faithful t.listeners := h.left ▸ ht
  have hquiet : t.raised? = none := congrArg (List.findSome? id) h.quiet
  rw [← h.raised?] at hmute
  obtain ⟨hseen, hanswer⟩ := echoes_of_seen hs' ht' hmute hquiet h.seen hstored
  obtain ⟨-, -, hlisteners, hnoticeListeners⟩ := echoes_after hs' hmute
  obtain ⟨-, -, hleft, hnone⟩ := echoes_after ht' (.inl hquiet) (r := r)
  exact ⟨⟨hseen, hlisteners.trans h.listeners, hnoticeListeners.trans h.noticeListeners,
    hleft.trans h.left, hnone.trans h.quiet⟩, hanswer⟩

/-- **Requests in turn**, by induction on them. -/
theorem Beside.afterAll (hs : v.Faithful s₀.listeners)
    (ht : v.Faithful (s₀.listeners.filter (·.saves))) {requests : List Request}
    (hmute : s₀.raised? = none ∨ ∀ r ∈ requests, r.nests = false)
    (hstored : ∀ r ∈ requests, r.restores = true →
      ∀ s t, s₀.Beside v s t → s.stored? = t.stored?) (h : s₀.Beside v s t) :
    s₀.Beside v (s.afterAll requests) (t.afterAll requests) := by
  induction requests generalizing s t with
  | nil => exact h
  | cons r requests ih =>
      obtain ⟨hnow, hlater⟩ := List.forall_mem_cons.mp hstored
      have hmuteNow := hmute.imp_right fun hall => hall r List.mem_cons_self
      have hmuteLater := hmute.imp_right fun hall => (List.forall_mem_cons.mp hall).2
      exact ih hmuteLater hlater
        (h.after hs ht hmuteNow fun hrestores => hnow hrestores s t h).1

/-- What there is to tell of a request: the states after it are alike, and the answers are
the same unless a notice was posted and somebody who listens to notices raises. -/
theorem Beside.answered (h : s₀.Beside v s t) {r : Request}
    (halike : (s.after r).Alike (t.after r))
    (hanswer : s.respond r = s.escape (t.respond r, t.after r)) :
    (s.after r).Alike (t.after r) ∧ (s₀.raised? = none → s.respond r = t.respond r)
      ∧ ∀ message, s₀.raised? = some message → s.respond r
          = if (t.after r).notices = t.notices then t.respond r
            else .error (.listener message) := by
  rw [hanswer]
  unfold escape
  rw [h.raised?, h.notices]
  refine ⟨halike, fun hquiet => ?_, fun message hraised => ?_⟩
  · rw [hquiet]
  · rw [hraised]

end

/-! ## The two views -/

theorem seen_unheard (v : View) (s : Store) : s.unheard.seen v = s.seen v := by
  unfold unheard seen View.unheard
  simp only [Option.map_id, id_eq]

theorem beside_start (v : View) (s : Store) : s.Beside v s s.unheard :=
  ⟨(s.seen_unheard v).symm, rfl, rfl, rfl, rfl⟩

section

variable {s₀ s t : Store}

theorem Beside.unheard_eq (h : s₀.Beside (.unheard s₀.listeners) s t) : s.unheard = t := by
  have hsame : t.seen (.unheard s₀.listeners) = t := by
    unfold Store.seen View.unheard
    rw [← h.left, ← h.quiet, Option.map_id]
    rfl
  unfold unheard
  rw [h.listeners, h.seen, hsame]

theorem Beside.alike (h : s₀.Beside (.unheard s₀.listeners) s t) : s.Alike t := by
  have hseen := s.seen_unheard .blind
  rw [h.unheard_eq] at hseen
  exact alike_of_seen hseen.symm

theorem Beside.stored? (h : s₀.Beside (.unheard s₀.listeners) s t) :
    s.stored? = t.stored? := by
  have harchive : s.unheard.archive = s.archive := congrFun Option.map_id s.archive
  rw [h.unheard_eq] at harchive
  unfold Store.stored?
  rw [harchive]

end

/-- **Callbacks that only raise go almost unnoticed.** A store with callbacks is compared
with the same store without them, and the same requests are made of both.

They stay alike in all but the slot of the archive, and if no callback raises before the
document is saved, the slot is the same, too. A further request is answered alike if no
callback for notices raises. If one does, what it raises is the answer to every request
during which a notice is posted, though the request has all its effects.

Two things are left out. Up to then no document may have been restored from a slot that a
callback kept from being filled. And if a callback for notices raises, no hook may ask for
runs within a run, since the hook would hear of it. -/
theorem unnoticed {s₀ : Store} (hpassive : ∀ l ∈ s₀.listeners, l.Passive)
    {requests : List Request} {r : Request}
    (hmute : s₀.raised? = none ∨ ∀ r' ∈ r :: requests, r'.nests = false)
    (hsaved : Undisturbed s₀.listeners ∨ ∀ r' ∈ requests, r'.restores = false) :
    let s := s₀.afterAll requests
    let t := s₀.unheard.afterAll requests
    s.Alike t ∧ (Undisturbed s₀.listeners → s.unheard = t)
      ∧ (Undisturbed s₀.listeners ∨ r.restores = false ∨ s.stored? = t.stored? →
        (s.after r).Alike (t.after r) ∧ (s₀.raised? = none → s.respond r = t.respond r)
          ∧ ∀ message, s₀.raised? = some message → s.respond r
              = if (t.after r).notices = t.notices then t.respond r
                else .error (.listener message)) := by
  intro s t
  have hmuteNow := hmute.imp_right fun hall => hall r List.mem_cons_self
  have hmuteBefore := hmute.imp_right fun hall => (List.forall_mem_cons.mp hall).2
  have hpassiveLeft : ∀ l ∈ s₀.listeners.filter (·.saves), l.Passive :=
    fun l hl => hpassive l (List.mem_of_mem_filter hl)
  -- With nobody raising before the document is saved all is seen, else all but the slot.
  by_cases hclear : Undisturbed s₀.listeners
  · have hs := View.faithful_unheard hpassive hclear
    have ht := View.faithful_unheard hpassiveLeft (List.Pairwise.filter _ hclear)
    rw [View.unheard_filter] at ht
    have hrun : s₀.Beside (.unheard s₀.listeners) s t :=
      (beside_start _ s₀).afterAll hs ht hmuteBefore fun _ _ _ _ _ h => h.stored?
    refine ⟨hrun.alike, fun _ => hrun.unheard_eq, fun _ => ?_⟩
    obtain ⟨hafter, hanswer⟩ := hrun.after hs ht hmuteNow fun _ => hrun.stored?
    exact hrun.answered hafter.alike hanswer
  · have hs := View.faithful_blind hpassive
    have ht := View.faithful_blind hpassiveLeft
    have hnone := hsaved.resolve_left hclear
    have hrun : s₀.Beside .blind s t :=
      (beside_start _ s₀).afterAll hs ht hmuteBefore fun r' hr' hrestores =>
        absurd hrestores (Bool.eq_false_iff.mp (hnone r' hr'))
    refine ⟨alike_of_seen hrun.seen, fun h => absurd h hclear, fun hstored => ?_⟩
    obtain ⟨hafter, hanswer⟩ := hrun.after hs ht hmuteNow fun hrestores =>
      (hstored.resolve_left hclear).resolve_left (ne_false_of_eq_true hrestores)
    exact hrun.answered (alike_of_seen hafter.seen) hanswer

/-- A callback for changes and one for notices raise. A node is added as it would be without
them. An edge from the node to itself is not drawn, which without callbacks is answered as a
rejection, and with them by what the second one raises. -/
theorem unnoticed_of_rejection :
    let s₀ : Store := { create (.idle none 0) (.ofCap 50) none (some .empty) [.observer [] true]
      true 0 with noticeListeners := [none, some "no"] }
    let s := s₀.afterAll [.add "a" "start" none]
    let t := s₀.unheard.afterAll [.add "a" "start" none]
    let r : Request := .edit (.connect "a" "a" .null .null)
    s.graph = t.graph ∧ s.respond (.add "b" "end" none) = .ok (.added "b")
      ∧ t.respond r = .ok (.edited (.rejected (.objection .selfLoop)))
      ∧ s.respond r = .error (.listener "no") ∧ (s.after r).Alike (t.after r) := by
  intro s₀ s t r
  have hpassive : ∀ l ∈ s₀.listeners, l.Passive := List.forall_mem_singleton.mpr rfl
  have hmute (r : Request) (h : r.nests = false) :
      s₀.raised? = none ∨ ∀ r' ∈ [r, .add "a" "start" none], r'.nests = false :=
    .inr (List.forall_mem_cons.mpr ⟨h, List.forall_mem_singleton.mpr rfl⟩)
  have hclear : Undisturbed s₀.listeners := List.pairwise_singleton _ _
  obtain ⟨halike, -, hadded⟩ :=
    unnoticed hpassive (hmute (.add "b" "end" none) rfl) (.inl hclear)
  obtain ⟨-, -, hrejected⟩ := unnoticed hpassive (hmute r rfl) (.inl hclear)
  obtain ⟨-, -, hanswerAdded⟩ := hadded (.inl hclear)
  obtain ⟨hafter, -, hanswer⟩ := hrejected (.inl hclear)
  refine ⟨halike.graph, ?_, by decide +kernel, ?_, hafter⟩
  · rw [hanswerAdded "no" rfl]
    decide +kernel
  · rw [hanswer "no" rfl]
    decide +kernel

end Store
end Workflow

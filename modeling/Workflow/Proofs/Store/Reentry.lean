import Workflow.Proofs.Store.Soundness

/-!
# Edits made during a step

A listener may edit the store while it hears of a step through the history. Its edits are
committed like any others, in the middle of the step. They reach the graph, the archive and
the other listeners, but not the history: nothing is saved while a snapshot is applied
(`history_after_of_applying`). So a step makes of the history of a store what the same step
makes of the history alone (`history_travel`), whoever listens and whether or not they raise,
and what later steps put in place is what the history holds.

A listener makes a list of edits here, up to the first that fails. That is enough: one that
looks at the store first makes some such list in every state, one that goes on after a
failure makes the list without the edit that failed, which changes nothing, and one that
answers its own edits with further ones makes them one after another.

The headline is `unmoved_by_listener`.
-/

namespace Workflow

/-- The two ways through a history. -/
inductive Direction
  | back
  | forward

def Direction.action : Direction → Action
  | .back => .undo
  | .forward => .redo

namespace History

/-- A step, with the snapshot that is then current if the step is possible. -/
def travel (h : History) : Direction → Option Graph × History
  | .back => h.undo
  | .forward => h.redo

theorem save_of_applying {h : History} (happly : h.applying = true) (g : Graph) :
    h.save g = h :=
  if_pos happly

theorem endApply_of_idle {h : History} (hidle : h.applying = false) : h.endApply = h := by
  obtain ⟨cap, snapshots, index, applying, hindex, hsize⟩ := h
  obtain rfl : applying = false := hidle
  rfl

theorem travel_cases (h : History) (d : Direction) :
    h.travel d = (none, h)
      ∨ ∃ h' index, h.travel d = (some h'.current, h') ∧ h.At h' index := by
  cases d with
  | back =>
      rcases Nat.eq_zero_or_pos h.index with hzero | hpos
      · exact .inl (undo_of_zero hzero)
      · obtain ⟨h', hundo, hat⟩ := undo_of_pos hpos
        exact .inr ⟨h', _, hundo, hat⟩
  | forward =>
      rcases Nat.lt_or_ge (h.index + 1) h.snapshots.length with hlt | hge
      · obtain ⟨h', hredo, hat⟩ := redo_of_lt hlt
        exact .inr ⟨h', _, hredo, hat⟩
      · exact .inl (redo_of_ge hge)

end History

namespace Store

/-- A step through the history of a store, and whether it was possible. -/
def travel (s : Store) : Direction → Bool × Store
  | .back => s.undo
  | .forward => s.redo

def under (s : Store) (listeners : List ChangeListener) : Store := { s with listeners }

/-- The state after several steps, possible or not. -/
def journey (s : Store) (ds : List Direction) : Store :=
  ds.foldl (fun s d => (s.travel d).2) s

/-- The graph that a step puts in place, if it is possible: the one that is announced before
anybody has heard of the step. -/
def restored? (s : Store) (d : Direction) : Option Graph :=
  (s.travel d).2.changes[s.changes.length]?.map fun c => ⟨c.document.nodes, c.document.edges⟩

/-! ## While a snapshot is applied -/

/-- What edits leave alone while a snapshot is applied: the history, the listeners, and what
was announced. -/
structure Spares (s s' : Store) : Prop where
  history : s'.history = s.history
  listeners : s'.listeners = s.listeners
  changes : s.changes <+: s'.changes

theorem Spares.refl (s : Store) : s.Spares s := ⟨rfl, rfl, List.prefix_rfl⟩

theorem Spares.trans {s s' s'' : Store} (h : s.Spares s') (h' : s'.Spares s'') :
    s.Spares s'' :=
  ⟨h'.history.trans h.history, h'.listeners.trans h.listeners, h.changes.trans h'.changes⟩

theorem spares_perform {s : Store} (happly : s.history.applying = true) (e : Edit) :
    s.Spares (s.perform e).2 := by
  have heffect := s.effect_perform e
  generalize (s.perform e).2 = s' at heffect ⊢
  cases heffect with
  | kept hkeeps =>
      exact ⟨hkeeps.history, hkeeps.listeners, hkeeps.changes ▸ List.prefix_rfl⟩
  | moved => exact ⟨rfl, rfl, List.prefix_rfl⟩
  | committed _ hcommits =>
      obtain ⟨action, -, hchanges⟩ := hcommits.changes
      exact ⟨hcommits.history.trans (History.save_of_applying happly _), hcommits.listeners,
        hchanges ▸ List.prefix_append _ _⟩

theorem spares_hearStep {s : Store} (happly : s.history.applying = true)
    (listeners : List ChangeListener) : s.Spares (s.hearStep listeners) := by
  refine @hearStep_invariant s.Spares (fun _ _ => True) ?_ s listeners (.refl s) fun _ _ => trivial
  intro s' e h _
  exact h.trans (spares_perform (h.history ▸ happly) e)

/-- **A step that is over.** The history is at rest at its new place, the listeners are the
same, and the graph there was announced before anything else. -/
theorem stepped_spares (s : Store) (h : History) (action : Action) :
    (s.stepped h action).history = h.endApply
      ∧ (s.stepped h action).listeners = s.listeners
      ∧ s.changes ++ [⟨action, ⟨h.current.nodes, h.current.edges, some s.viewport⟩⟩]
        <+: (s.stepped h action).changes := by
  have hspares := spares_hearStep (s := s.announced h action) rfl s.listeners
  refine ⟨?_, hspares.listeners, hspares.changes⟩
  show ((s.announced h action).hearStep s.listeners).history.endApply = _
  rw [hspares.history]
  rfl

/-! ## Steps of a store and of its history -/

theorem travel_cases (s : Store) (d : Direction) :
    (s.history.travel d = (none, s.history) ∧ s.travel d = (false, s))
      ∨ ∃ h index, s.history.travel d = (some h.current, h) ∧ s.history.At h index
        ∧ s.travel d = (true, s.stepped h d.action) := by
  rcases s.history.travel_cases d with hnone | ⟨h, index, hsome, hat⟩
  · refine .inl ⟨hnone, ?_⟩
    cases d with
    | back =>
        show s.undo = _
        rw [undo, show s.history.undo = _ from hnone]
    | forward =>
        show s.redo = _
        rw [redo, show s.history.redo = _ from hnone]
  · refine .inr ⟨h, index, hsome, hat, ?_⟩
    cases d with
    | back =>
        show s.undo = _
        rw [undo, show s.history.undo = _ from hsome]
        rfl
    | forward =>
        show s.redo = _
        rw [redo, show s.history.redo = _ from hsome]
        rfl

theorem listeners_travel (s : Store) (d : Direction) :
    (s.travel d).2.listeners = s.listeners := by
  rcases s.travel_cases d with ⟨-, hstep⟩ | ⟨h, index, -, -, hstep⟩
  · rw [hstep]
  · rw [hstep]
    exact (s.stepped_spares h d.action).2.1

variable {s t : Store}

/-- **What a step of a store does to its history**, whoever listens: the step of the history
alone. It is possible when that is, and puts in place what that gives. -/
theorem history_travel (hidle : s.history.applying = false) (d : Direction) :
    (s.travel d).1 = (s.history.travel d).1.isSome
      ∧ (s.travel d).2.history = (s.history.travel d).2
      ∧ (s.travel d).2.history.applying = false
      ∧ s.restored? d = (s.history.travel d).1 := by
  unfold restored?
  rcases s.travel_cases d with ⟨hnone, hstep⟩ | ⟨h, index, hsome, hat, hstep⟩
  · rw [hnone, hstep]
    exact ⟨rfl, rfl, hidle, by rw [List.getElem?_eq_none (Nat.le_refl _)]; rfl⟩
  · obtain ⟨hhistory, -, rest, hchanges⟩ := s.stepped_spares h d.action
    rw [hsome, hstep]
    refine ⟨rfl, ?_, ?_, ?_⟩
    · rw [hhistory, History.endApply_of_idle (hat.applying.trans hidle)]
    · rw [hhistory]
      rfl
    · dsimp only
      rw [← hchanges, List.append_assoc, List.getElem?_append_right (Nat.le_refl _), Nat.sub_self]
      rfl

/-- Where nobody edits, what a step puts in place is the graph after it. -/
theorem restored?_of_passive (hidle : s.history.applying = false)
    (hpassive : ∀ l ∈ s.listeners, l.Passive) {d : Direction} (hdone : (s.travel d).1 = true) :
    s.restored? d = some (s.travel d).2.graph := by
  rw [(history_travel hidle d).2.2.2]
  rcases s.travel_cases d with ⟨-, hstep⟩ | ⟨h, index, hsome, hat, hstep⟩
  · rw [hstep] at hdone
    cases hdone
  · have hback : d.action.fromHistory = true := by cases d <;> rfl
    rw [hsome, hstep, (stepsTo_stepped hpassive h hback).graph]

theorem idle_of_reachable {allowed : Store → Request → Prop} {s₀ : Store} (h₀ : s₀.Fresh)
    (h : Reachable allowed s₀ s) : s.history.applying = false := by
  refine h.invariant (P := fun s => s.history.applying = false) ?_ ?_
  · obtain ⟨asked, hhistory⟩ := h₀.history
    rw [hhistory]
    rfl
  · intro s r hidle _
    have heffect := s.effect_after r
    generalize s.after r = s' at heffect ⊢
    cases heffect with
    | kept hkeeps => exact hkeeps.history ▸ hidle
    | moved => exact hidle
    | committed _ hcommits => rw [hcommits.history, History.applying_save, hidle]
    | undone _ | redone _ =>
        rw [(stepped_spares _ _ _).1]
        rfl

/-! ## Two stores with one history -/

/-- Two stores have the same history, which is at rest in both. -/
structure SharesHistory (s t : Store) : Prop where
  history : s.history = t.history
  idle : s.history.applying = false

/-- Steps keep the histories of two stores the same, whoever listens to each, and put the
same graph in place. -/
theorem SharesHistory.travel (h : s.SharesHistory t) (d : Direction) :
    (s.travel d).1 = (t.travel d).1 ∧ (s.travel d).2.SharesHistory (t.travel d).2
      ∧ s.restored? d = t.restored? d := by
  obtain ⟨hdone, hhistory, hidle, hrestored⟩ := history_travel h.idle d
  obtain ⟨hdone', hhistory', -, hrestored'⟩ := history_travel (h.history ▸ h.idle) d
  rw [← h.history] at hdone' hhistory' hrestored'
  exact ⟨hdone.trans hdone'.symm, ⟨hhistory.trans hhistory'.symm, hidle⟩,
    hrestored.trans hrestored'.symm⟩

theorem SharesHistory.journey (h : s.SharesHistory t) (ds : List Direction) :
    (s.journey ds).SharesHistory (t.journey ds) := by
  induction ds generalizing s t with
  | nil => exact h
  | cons d ds ih => exact ih (h.travel d).2.1

theorem listeners_journey (s : Store) (ds : List Direction) :
    (s.journey ds).listeners = s.listeners := by
  induction ds generalizing s with
  | nil => rfl
  | cons d ds ih => exact (ih _).trans (s.listeners_travel d)

/-! ## The law of reentry -/

/-- **A listener that edits the store during a step leaves no trace in the history**,
whatever it edits and whether or not it raises. The history after the step is the one without
the listener, and at rest. So once the listener is gone, steps are possible as if it had
never been there, and put the same graphs in place; where nobody else edits, these are the
graphs of the store after them. -/
theorem unmoved_by_listener {allowed : Store → Request → Prop} {s₀ s : Store} (h₀ : s₀.Fresh)
    (h : Reachable allowed s₀ s) (before behind : List ChangeListener) (edits : List Edit)
    (raises : Bool) (d : Direction) :
    let told := (s.under (before ++ .observer edits raises :: behind)).travel d
    let untold := (s.under (before ++ behind)).travel d
    told.1 = untold.1
      ∧ told.2.history = untold.2.history
      ∧ told.2.history.applying = false
      ∧ ∀ (listeners : List ChangeListener) (ds : List Direction) (d' : Direction),
          let told' := (told.2.under listeners).journey ds
          let untold' := (untold.2.under listeners).journey ds
          (told'.travel d').1 = (untold'.travel d').1
            ∧ told'.restored? d' = untold'.restored? d'
            ∧ ((∀ l ∈ listeners, l.Passive) → (told'.travel d').1 = true →
                (told'.travel d').2.graph = (untold'.travel d').2.graph) := by
  intro told untold
  have hidle := idle_of_reachable h₀ h
  have hstart : (s.under (before ++ .observer edits raises :: behind)).SharesHistory
      (s.under (before ++ behind)) := ⟨rfl, hidle⟩
  obtain ⟨hdone, hshared, -⟩ := hstart.travel d
  refine ⟨hdone, hshared.history, hshared.idle, fun listeners ds d' => ?_⟩
  intro told' untold'
  have hlater : told'.SharesHistory untold' :=
    SharesHistory.journey (s := told.2.under listeners) (t := untold.2.under listeners)
      ⟨hshared.history, hshared.idle⟩ ds
  obtain ⟨hdone', -, hrestored⟩ := hlater.travel d'
  refine ⟨hdone', hrestored, fun hpassive hgranted => ?_⟩
  have hheard : told'.listeners = listeners := listeners_journey _ ds
  have hheard' : untold'.listeners = listeners := listeners_journey _ ds
  have hgraph := restored?_of_passive hlater.idle (hheard ▸ hpassive) hgranted
  have hgraph' := restored?_of_passive (hlater.history ▸ hlater.idle) (hheard' ▸ hpassive)
    (hdone' ▸ hgranted)
  exact Option.some.inj (hgraph.symm.trans (hrestored.trans hgraph'))

/-- A listener clears the graph, adds a node and fails at the next one while a change of name
is undone. The graph is then another than without it, but the change is redone all the
same. -/
theorem unmoved_by_listener_that_fails :
    let s₀ := create (.idle none 0) (.ofCap 50) none none [] false 0
    let s := (s₀.after (.add "a" "start" none)).after (.edit (.rename "a" "b"))
    let edits : List Edit := [.clear, .addNode "end" none, .addNode "none" none]
    let told := (s.under [.observer edits false]).travel .back
    let untold := (s.under []).travel .back
    told.2.graph.nodes.length = 1 ∧ told.2.graph ≠ untold.2.graph
      ∧ told.2.history = untold.2.history ∧ told.2.history.applying = false
      ∧ ((told.2.under []).travel .forward).2.graph = s.graph := by
  intro s₀ s edits
  dsimp only
  have hrun : Reachable (fun _ _ => True) s₀ s := .step _ (.step _ .start trivial) trivial
  obtain ⟨-, hhistory, hidle, hlater⟩ :=
    unmoved_by_listener (fresh_create ..) hrun [] [] edits false .back
  obtain ⟨-, -, hgraph⟩ := hlater [] [] .forward
  simp only [journey, List.foldl_nil, List.nil_append] at hgraph
  refine ⟨by decide +kernel, by decide +kernel, hhistory, hidle, ?_⟩
  rw [hgraph nofun (by decide +kernel)]
  decide +kernel

end Store
end Workflow

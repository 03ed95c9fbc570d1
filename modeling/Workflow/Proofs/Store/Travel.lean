import Workflow.Proofs.Store.Request

/-!
# Undoing and redoing

As long as no single node is moved, which is not committed, the graph of a store is the
current snapshot of its history. That is the invariant (`Tracks`), and every other request
keeps it. A step through the history is then a step along the row of snapshots
(`Tracks.undo`, `Tracks.redo`), so steps back are undone by as many steps forward, and a
commit is undone by one step back, wherever in the row it found the current snapshot.

The headline is `graph_follows_history`.
-/

namespace Workflow

def Request.movesOne : Request → Bool
  | .edit (.moveNode _ _) => true
  | _ => false

namespace Store

/-- Several steps, all of which must be possible. -/
def steps (step : Store → Bool × Store) : Nat → Store → Option Store
  | 0, s => some s
  | count + 1, s =>
    match step s with
    | (true, s) => steps step count s
    | (false, _) => none

/-- The graph is the current snapshot, and nothing keeps the history from being saved to. -/
structure Tracks (s : Store) : Prop where
  passive : ∀ l ∈ s.listeners, l.Passive
  idle : s.history.applying = false
  room : 2 ≤ s.history.cap
  current : s.graph = s.history.current

theorem Fresh.tracks {s : Store} (h : s.Fresh) (hpassive : ∀ l ∈ s.listeners, l.Passive) :
    s.Tracks := by
  obtain ⟨asked, hhistory⟩ := h.history
  refine ⟨hpassive, ?_, ?_, ?_⟩
  · rw [hhistory]
    rfl
  · rw [hhistory]
    have := Int.le_max_left 2 asked
    simp only [History.ofCap]
    omega
  · rw [hhistory, h.graph]
    rfl

/-! ## Steps -/

theorem Tracks.stepped {s : Store} (h : s.Tracks) {h' : History} {index : Nat}
    (hat : s.history.At h' index) {action : Action} (hback : action.fromHistory = true) :
    (s.stepped h' action).Tracks ∧ s.history.At (s.stepped h' action).history index := by
  have hsteps := stepsTo_stepped h.passive h' hback
  refine ⟨⟨?_, ?_, ?_, ?_⟩, ?_⟩
  · rw [hsteps.listeners]
    exact h.passive
  · rw [hsteps.history]
    rfl
  · rw [hsteps.history]
    exact hat.cap ▸ h.room
  · rw [hsteps.graph, hsteps.history]
    rfl
  · rw [hsteps.history]
    exact ⟨hat.index_eq, hat.snapshots, hat.cap, h.idle.symm⟩

/-- A step back goes one place back, unless the store is at the first. -/
theorem Tracks.undo {s : Store} (h : s.Tracks) :
    (s.history.index = 0 ∧ s.undo = (false, s)) ∨
      (0 < s.history.index ∧ s.undo.1 = true ∧ s.undo.2.Tracks
        ∧ s.history.At s.undo.2.history (s.history.index - 1)) := by
  unfold Store.undo
  rcases Nat.eq_zero_or_pos s.history.index with hzero | hpos
  · rw [History.undo_of_zero hzero]
    exact Or.inl ⟨hzero, rfl⟩
  · obtain ⟨h', hundo, hat⟩ := History.undo_of_pos hpos
    rw [hundo]
    exact Or.inr ⟨hpos, rfl, h.stepped hat rfl⟩

/-- A step forward goes one place forward, unless the store is at the last. -/
theorem Tracks.redo {s : Store} (h : s.Tracks)
    (hlt : s.history.index + 1 < s.history.snapshots.length) :
    s.redo.1 = true ∧ s.redo.2.Tracks ∧ s.history.At s.redo.2.history (s.history.index + 1) := by
  unfold Store.redo
  obtain ⟨h', hredo, hat⟩ := History.redo_of_lt hlt
  rw [hredo]
  exact ⟨rfl, h.stepped hat rfl⟩

theorem Tracks.undos : ∀ {count : Nat} {s s' : Store}, s.Tracks →
    steps Store.undo count s = some s' →
      s'.Tracks ∧ ∃ index, index + count = s.history.index ∧ s.history.At s'.history index
  | 0, s, s', h, hsteps => by
      obtain rfl := Option.some.inj hsteps
      exact ⟨h, s.history.index, rfl, rfl, rfl, rfl, rfl⟩
  | count + 1, s, s', h, hsteps => by
      rcases h.undo with ⟨-, hundo⟩ | ⟨hpos, hdone, htracks, hat⟩
      · rw [steps, hundo] at hsteps
        cases hsteps
      · rw [steps, show s.undo = (true, s.undo.2) from Prod.ext hdone rfl] at hsteps
        obtain ⟨htracks', index, hindex, hat'⟩ := htracks.undos hsteps
        refine ⟨htracks', index, ?_, hat.trans hat'⟩
        rw [hat.index_eq] at hindex
        omega

/-- Steps forward are possible up to the end of the row, and go that many places forward. -/
theorem Tracks.redos : ∀ {count : Nat} {s : Store}, s.Tracks →
    s.history.index + count < s.history.snapshots.length →
      ∃ s', steps Store.redo count s = some s' ∧ s'.Tracks
        ∧ s.history.At s'.history (s.history.index + count)
  | 0, s, h, _ => ⟨s, rfl, h, rfl, rfl, rfl, rfl⟩
  | count + 1, s, h, hlt => by
      obtain ⟨hdone, htracks, hat⟩ := h.redo (by omega)
      have hlt' : s.redo.2.history.index + count < s.redo.2.history.snapshots.length := by
        rw [hat.index_eq, hat.snapshots]
        omega
      obtain ⟨s', hsteps, htracks', hat'⟩ := htracks.redos hlt'
      refine ⟨s', ?_, htracks', ?_⟩
      · rw [steps, show s.redo = (true, s.redo.2) from Prod.ext hdone rfl]
        exact hsteps
      · rw [hat.index_eq, Nat.add_assoc, Nat.add_comm 1] at hat'
        exact hat.trans hat'

theorem Tracks.redos_undos {s s₁ : Store} (h : s.Tracks) {count : Nat}
    (hsteps : steps Store.undo count s = some s₁) :
    ∃ s₂, steps Store.redo count s₁ = some s₂ ∧ s₂.graph = s.graph := by
  obtain ⟨h₁, index, hindex, hat⟩ := h.undos hsteps
  have hlt : s₁.history.index + count < s₁.history.snapshots.length := by
    rw [hat.index_eq, hat.snapshots, hindex]
    exact s.history.index_lt
  obtain ⟨s₂, hsteps₂, h₂, hat₂⟩ := h₁.redos hlt
  refine ⟨s₂, hsteps₂, ?_⟩
  have hplace : s.history.snapshots[s.history.index]? = some s₂.history.current := by
    rw [← (hat.trans hat₂).current, hat.index_eq, hindex]
  rw [h₂.current, h.current]
  exact Option.some.inj (hplace.symm.trans s.history.current_eq)

/-! ## Commits -/

theorem Tracks.of_commits {s s' : Store} (h : s.Tracks) {g : Graph}
    (hcommits : s.Commits g s') :
    s'.Tracks where
  passive := hcommits.listeners ▸ h.passive
  idle := by
    rw [hcommits.history, History.applying_save]
    exact h.idle
  room := by
    rw [hcommits.history, History.cap_save]
    exact h.room
  current := by
    rw [hcommits.graph, hcommits.history]
    exact (History.save_places h.idle h.room g).1.symm

theorem Tracks.undo_commits {s s' : Store} (h : s.Tracks) {g : Graph}
    (hcommits : s.Commits g s') :
    s'.undo.1 = true ∧ s'.undo.2.graph = s.graph := by
  obtain ⟨-, index, hindex, hold⟩ := History.save_places h.idle h.room g
  rw [← hcommits.history] at hindex hold
  rcases (h.of_commits hcommits).undo with ⟨hzero, -⟩ | ⟨-, hdone, htracks, hat⟩
  · omega
  · refine ⟨hdone, ?_⟩
    have hplace := hat.current
    rw [hindex, Nat.add_sub_cancel, hold] at hplace
    rw [htracks.current, h.current]
    exact (Option.some.inj hplace).symm

/-- Every request but the move of a single node keeps graph and history together. -/
theorem Tracks.after {s : Store} (h : s.Tracks) {r : Request} (hr : r.movesOne = false) :
    (s.after r).Tracks := by
  have heffect := s.effect_after r
  generalize s.after r = s' at heffect ⊢
  cases heffect with
  | kept hkeeps =>
      exact ⟨hkeeps.listeners ▸ h.passive, hkeeps.history ▸ h.idle, hkeeps.history ▸ h.room,
        by rw [hkeeps.graph, hkeeps.history]; exact h.current⟩
  | moved => cases hr
  | committed _ hcommits => exact h.of_commits hcommits
  | undone hstep => exact (h.stepped (History.at_of_undo hstep) rfl).1
  | redone hstep => exact (h.stepped (History.at_of_redo hstep) rfl).1

/-- What was announced and is no step through the history was committed. -/
theorem commits_of_announced {s : Store} (hpassive : ∀ l ∈ s.listeners, l.Passive)
    {r : Request} {c : Change} (hchanges : (s.after r).changes = s.changes ++ [c])
    (hforward : c.action.fromHistory = false) : ∃ g, s.Commits g (s.after r) := by
  have hother : ∀ {h : History} {s' : Store}, s.StepsTo h s' → s'.changes ≠ s.changes ++ [c] := by
    rintro h s' hsteps hs'
    obtain ⟨action, hback, hstep⟩ := hsteps.changes
    obtain rfl := List.singleton_inj.mp (List.append_cancel_left (hstep.symm.trans hs'))
    rw [hback] at hforward
    cases hforward
  have hnone : s.changes ≠ s.changes ++ [c] := by simp
  have heffect := s.effect_after r
  generalize s.after r = s' at heffect hchanges ⊢
  cases heffect with
  | kept hkeeps => exact absurd (hkeeps.changes.symm.trans hchanges) hnone
  | moved => exact absurd hchanges hnone
  | committed _ hcommits => exact ⟨_, hcommits⟩
  | undone _ => exact absurd hchanges (hother (stepsTo_stepped hpassive _ rfl))
  | redone _ => exact absurd hchanges (hother (stepsTo_stepped hpassive _ rfl))

/-! ## The law of the history -/

/-- **The graph of a store is the current snapshot of its history**, whatever is asked of a
fresh store with passive listeners short of moving a single node. So steps back are undone by
as many steps forward, and a request that was committed is undone by one step back. -/
theorem graph_follows_history {s₀ s : Store} (h₀ : s₀.Fresh)
    (hpassive : ∀ l ∈ s₀.listeners, l.Passive)
    (h : Reachable (fun _ r => r.movesOne = false) s₀ s) :
    s.graph = s.history.current
      ∧ (∀ count s₁, steps undo count s = some s₁ →
          ∃ s₂, steps redo count s₁ = some s₂ ∧ s₂.graph = s.graph)
      ∧ ∀ r c, (s.after r).changes = s.changes ++ [c] → c.action.fromHistory = false →
          (s.after r).undo.1 = true ∧ (s.after r).undo.2.graph = s.graph := by
  have htracks : s.Tracks := h.invariant (h₀.tracks hpassive) fun _ _ hs hr => hs.after hr
  refine ⟨htracks.current, fun count s₁ hsteps => htracks.redos_undos hsteps, ?_⟩
  intro r c hchanges hforward
  obtain ⟨g, hcommits⟩ := commits_of_announced htracks.passive hchanges hforward
  exact htracks.undo_commits hcommits

/-- With room for two snapshots, a second commit forgets the empty graph; it is undone all
the same, as is what is committed next. -/
theorem graph_follows_history_at_cap :
    let s₀ := create (.idle none 0) (.ofCap 2) none none [.autosave] false 0
    let s := (s₀.after (.add "first" "start" none)).after (.add "last" "end" none)
    s.history.size = 2 ∧ s.graph = s.history.current
      ∧ (∃ s₁ s₂, steps undo 1 s = some s₁ ∧ steps redo 1 s₁ = some s₂ ∧ s₂.graph = s.graph)
      ∧ (s.after (.edit .clear)).undo.2.graph = s.graph := by
  intro s₀ s
  have hrun : Reachable (fun _ r => r.movesOne = false) s₀ s :=
    .step _ (.step _ .start rfl) rfl
  have hpassive : ∀ l ∈ s₀.listeners, l.Passive := by
    intro l hl
    obtain rfl := List.mem_singleton.mp hl
    trivial
  obtain ⟨hcurrent, hback, hundo⟩ := graph_follows_history (fresh_create ..) hpassive hrun
  obtain ⟨s₂, hredone, hsame⟩ := hback 1 s.undo.2 rfl
  exact ⟨rfl, hcurrent, ⟨s.undo.2, s₂, rfl, hredone, hsame⟩,
    (hundo (.edit .clear) ⟨.clear, (s.after (.edit .clear)).document⟩ rfl rfl).2⟩

end Store
end Workflow

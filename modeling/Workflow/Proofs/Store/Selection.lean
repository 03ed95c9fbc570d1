import Workflow.Proofs.Graph.Admission
import Workflow.Proofs.Store.Soundness

/-!
# What is selected

A store keeps a list of selected identities, and beside it the one that is shown.
`Reselection` says what each request makes of the identities of the nodes and of the
selection; two invariants are read off it. Whoever selects a single identity only if it is
that of a node finds only nodes selected, and the first of them shown (`selects_nodes`). And
whoever names no node twice when several are selected finds none selected twice, so that
toggling a node changes whether it is selected, and nothing else (`toggle_flips`).
-/

namespace Workflow

/-! ## Selections -/

namespace Selection

/-- Everything selected is among the identities, and the first of it is shown. -/
structure Within (ids : List String) (sel : Selection) : Prop where
  live : ∀ id ∈ sel.ids, id ∈ ids
  shown : sel.shown = sel.ids.head?

variable {ids : List String} {sel : Selection}

theorem within_none (ids : List String) : none.Within ids := ⟨nofun, rfl⟩

theorem within_ofIds {chosen : List String} (h : ∀ id ∈ chosen, id ∈ ids) :
    (ofIds chosen).Within ids :=
  ⟨h, rfl⟩

theorem Within.mono (h : sel.Within ids) {ids' : List String} (hmore : ∀ id ∈ ids, id ∈ ids') :
    sel.Within ids' :=
  ⟨fun id hid => hmore id (h.live id hid), h.shown⟩

theorem ids_without (sel : Selection) (removed : List String) :
    (sel.without removed).ids = sel.ids.filter (· ∉ removed) := by
  unfold without
  cases sel.shown with
  | none => rfl
  | some id =>
      dsimp only
      split <;> rfl

/-- What is shown stays when it is not removed, and else the first of the rest takes its
place. Both times the first of the rest is shown. -/
theorem shown_without (h : sel.shown = sel.ids.head?) (removed : List String) :
    (sel.without removed).shown = (sel.ids.filter (· ∉ removed)).head? := by
  obtain ⟨shown, chosen⟩ := sel
  obtain rfl : shown = chosen.head? := h
  cases chosen with
  | nil => rfl
  | cons id rest =>
      by_cases hremoved : id ∈ removed
      · simp [without, ofIds, hremoved]
      · simp [without, hremoved]

theorem Within.without (h : sel.Within ids) (removed : List String) :
    (sel.without removed).Within (ids.filter (· ∉ removed)) := by
  refine ⟨fun id hid => ?_, ?_⟩
  · rw [ids_without] at hid
    obtain ⟨hchosen, hkept⟩ := List.mem_filter.mp hid
    exact List.mem_filter.mpr ⟨h.live id hchosen, hkept⟩
  · rw [shown_without h.shown, ids_without]

end Selection

namespace Store

/-! ## What a request does to the selection -/

def ids (s : Store) : List String := s.graph.nodes.map (·.id)

/-- The identities of the nodes, and what is selected. -/
def scene (s : Store) : List String × Selection := (s.ids, s.selection)

/-- What a request other than a step through the history makes of the identities of the nodes
and of the selection. -/
inductive Reselection (s : Store) : Request → List String × Selection → Prop
  | kept {r : Request} : Reselection s r s.scene
  | added {r : Request} {id : String} : Reselection s r (s.ids ++ [id], s.selection)
  | removed {r : Request} (removed : List String) :
      Reselection s r (s.ids.filter (· ∉ removed), s.selection.without removed)
  | single {id : Option String} : Reselection s (.edit (.select id)) (s.ids, .single id)
  | chosen {chosen : List String} :
      Reselection s (.edit (.selectNodes chosen)) (s.ids, .ofIds (chosen.filter (· ∈ s.ids)))
  | all : Reselection s (.edit .selectAll) (s.ids, .ofIds s.ids)
  | toggled {id : String} : Reselection s (.edit (.toggle id)) (s.ids, (s.toggle id).selection)
  | emptied {r : Request} {ids : List String} : Reselection s r (ids, .none)

theorem scene_commit (s : Store) (action : Action) : (s.commit action).scene = s.scene := by
  obtain ⟨a, ha⟩ := s.commit_eq action
  rw [ha]
  rfl

theorem scene_notify (s : Store) (level : Level) (message : String) :
    (s.notify level message).2.scene = s.scene := by
  unfold notify
  cases s.notices with
  | none => rfl
  | some q =>
      dsimp only
      split <;> rfl

theorem scene_record (s : Store) (r : RunResult) : (s.record r).2.scene = s.scene := by
  unfold record
  cases s.archive with
  | none => rfl
  | some a =>
      dsimp only
      split
      · rfl
      · split <;> rfl

theorem scene_execute (s : Store) (hooks : List Hook) :
    (s.execute hooks).2.2.scene = s.scene := by
  refine execute_invariant (Q := fun t => t.scene = s.scene) (fun _ _ h => h) ?_ s hooks rfl
  refine settle_invariant (fun _ _ h => h) ?_ ?_
  · exact fun t r h => (t.scene_record r).trans h
  · exact fun t level message h => (t.scene_notify level message).trans h

theorem ids_moved (g : Graph) (moves : List (String × Position)) :
    (moved g moves).nodes.map (·.id) = g.nodes.map (·.id) := by
  refine moved_induction (P := fun g' => g'.nodes.map (·.id) = g.nodes.map (·.id)) ?_ rfl moves
  exact fun g' id position h => Eq.trans (Graph.ids_updateNode fun _ => rfl) h

section

variable (s : Store) {r : Request}

theorem reselection_withGraph {g : Graph} (hids : g.nodes.map (·.id) = s.ids) :
    Reselection s r (scene { s with graph := g }) := by
  have hscene : scene { s with graph := g } = s.scene := congrArg (·, s.selection) hids
  rw [hscene]
  exact .kept

theorem reselection_addNodeAs (id kindName : String) (position : Option Position) :
    Reselection s r (s.addNodeAs id kindName position).2.scene := by
  unfold addNodeAs
  split
  · exact .kept
  · rename_i kind _
    rw [scene_commit]
    have hids : (s.graph.addNode (newNode id kind position)).nodes.map (·.id) = s.ids ++ [id] :=
      List.map_append
    show Reselection s r (_, s.selection)
    rw [← newNode, ids, hids]
    exact .added

theorem reselection_configure (id : String) (change : ConfigChange) :
    Reselection s r (s.configure id change).2.scene := by
  unfold configure
  split
  · exact .kept
  · split
    · exact .kept
    · rw [scene_commit]
      exact s.reselection_withGraph (Graph.ids_updateNode fun _ => rfl)

theorem reselection_rename (id label : String) :
    Reselection s r (s.rename id label).2.scene := by
  unfold rename
  split
  · exact .kept
  · rw [scene_commit]
    exact s.reselection_withGraph (Graph.ids_updateNode fun _ => rfl)

theorem reselection_removeNodes (removed : List String) :
    Reselection s r (s.removeNodes removed).2.scene := by
  unfold removeNodes
  dsimp only
  split
  · exact .kept
  · rw [scene_commit]
    have hids : (s.graph.removeNodes removed).nodes.map (·.id) = s.ids.filter (· ∉ removed) := by
      rw [ids, List.filter_map]
      rfl
    show Reselection s r (_, s.selection.without removed)
    rw [ids, hids]
    exact .removed removed

theorem reselection_connect (source target : String) (sourceHandle targetHandle : Value) :
    Reselection s r (s.connect source target sourceHandle targetHandle).2.scene := by
  have hrejected : ∀ rejection, Reselection s r (s.reject rejection).2.scene := by
    intro rejection
    show Reselection s r (s.notify .error rejection.message).2.scene
    rw [scene_notify]
    exact .kept
  unfold connect
  split
  · split
    · exact hrejected _
    · dsimp only
      rw [scene_commit]
      exact .kept
  · exact hrejected _

theorem reselection_disconnect (id : String) :
    Reselection s r (s.disconnect id).2.scene := by
  unfold disconnect
  dsimp only
  split
  · exact .kept
  · rw [scene_commit]
    exact .kept

theorem reselection_importValue (v : Value) : Reselection s r (s.importValue v).2.scene := by
  unfold importValue
  split
  · exact .kept
  · dsimp only [adopt]
    rw [scene_commit]
    exact .emptied
  · split
    · dsimp only
      rw [scene_notify]
      exact .kept
    · exact .kept

theorem reselection_restore : Reselection s r s.restore.2.scene := by
  unfold restore
  split
  · exact .kept
  · split
    · exact .kept
    · exact .kept
    · exact reselection_importValue s _

end

theorem reselection_perform (s : Store) (e : Edit) :
    Reselection s (.edit e) (s.perform e).2.scene := by
  cases e with
  | addNode kindName position => exact s.reselection_addNodeAs _ kindName position
  | moveNode id position => exact s.reselection_withGraph (Graph.ids_updateNode fun _ => rfl)
  | moveNodes moves =>
      show Reselection s _ (s.moveNodes moves).scene
      rw [moveNodes, scene_commit, foldl_moveNode]
      exact s.reselection_withGraph (ids_moved s.graph moves)
  | configure id change => exact s.reselection_configure id change
  | rename id label => exact s.reselection_rename id label
  | removeNode id => exact s.reselection_removeNodes [id]
  | removeNodes removed => exact s.reselection_removeNodes removed
  | connect source target sourceHandle targetHandle =>
      exact s.reselection_connect source target sourceHandle targetHandle
  | disconnect id => exact s.reselection_disconnect id
  | select _ => exact .single
  | selectNodes _ => exact .chosen
  | selectAll =>
      have hall : s.ids.filter (· ∈ s.ids) = s.ids := by simp
      show Reselection s _ (s.ids, .ofIds (s.ids.filter (· ∈ s.ids)))
      rw [hall]
      exact .all
  | toggle _ => exact .toggled
  | view _ | clearLogs | cancel => exact .kept
  | clear =>
      show Reselection s _ s.clear.scene
      rw [clear, scene_commit]
      exact .emptied
  | importValue v => exact s.reselection_importValue v
  | importDocument d => exact s.reselection_importValue d.toValue
  | restore => exact s.reselection_restore

/-- **What a request other than a step through the history does to the selection.** -/
theorem reselection_after (s : Store) {r : Request} (hundo : r ≠ .undo) (hredo : r ≠ .redo) :
    Reselection s r (s.after r).scene := by
  cases r with
  | add id kindName position => exact s.reselection_addNodeAs id kindName position
  | edit e => exact s.reselection_perform e
  | undo => exact absurd rfl hundo
  | redo => exact absurd rfl hredo
  | execute hooks =>
      show Reselection s _ (s.execute hooks).2.2.scene
      rw [scene_execute]
      exact .kept

/-! ## Only nodes are selected -/

/-- A single identity is selected only if it is that of a node. -/
def SelectsLive (s : Store) (r : Request) : Prop :=
  ∀ id, r = .edit (.select (some id)) → id ∈ s.ids

theorem ids_toggle (s : Store) (id : String) : (s.toggle id).selection.ids =
    if id ∈ s.selection.ids then s.selection.ids.erase id
    else if id ∈ s.ids then s.selection.ids ++ [id]
    else s.selection.ids := by
  have hfound : (s.graph.findNode? id).isSome = true ↔ id ∈ s.ids := by
    rw [ids, Graph.mem_ids_iff, Option.isSome_iff_exists]
  simp only [toggle, Selection.ofIds, hfound]

theorem Reselection.within {s : Store} {r : Request} {p : List String × Selection}
    (hp : Reselection s r p) (h : s.selection.Within s.ids) (hselects : s.SelectsLive r) :
    p.2.Within p.1 := by
  cases hp with
  | kept => exact h
  | added => exact h.mono fun id hid => List.mem_append_left _ hid
  | removed removed => exact h.without removed
  | @single id =>
      cases id with
      | none => exact Selection.within_none _
      | some id => exact ⟨List.forall_mem_singleton.mpr (hselects id rfl), rfl⟩
  | chosen =>
      exact Selection.within_ofIds fun id hid => of_decide_eq_true (List.mem_filter.mp hid).2
  | all => exact Selection.within_ofIds fun _ hid => hid
  | @toggled id =>
      have hlive : ∀ other ∈ (s.toggle id).selection.ids, other ∈ s.ids := by
        intro other hother
        rw [ids_toggle] at hother
        split at hother
        · exact h.live other (List.mem_of_mem_erase hother)
        · split at hother
          · rename_i hid
            rcases List.mem_append.mp hother with hother | hother
            · exact h.live other hother
            · exact List.mem_singleton.mp hother ▸ hid
          · exact h.live other hother
      exact Selection.within_ofIds hlive
  | emptied => exact Selection.within_none _

/-- **Only nodes are selected, and the first of them is shown.** Whatever is asked of a store
in which nothing is selected, as long as no identity is selected on its own that is not that
of a node, everything selected is a node, and the first selected is shown; nothing is shown
only when nothing is selected. -/
theorem selects_nodes {s₀ s : Store} (h₀ : s₀.selection = .none)
    (h : Reachable (Throughout SelectsLive) s₀ s) :
    (∀ id ∈ s.selection.ids, id ∈ s.graph.nodes.map (·.id))
      ∧ s.selection.shown = s.selection.ids.head?
      ∧ (s.selection.shown = none ↔ s.selection.ids = []) := by
  have hstart : s₀.selection.Within s₀.ids := h₀ ▸ Selection.within_none _
  have hwithin : s.selection.Within s.ids := by
    refine h.invariant (P := fun s => s.selection.Within s.ids) hstart fun s r hs hallowed => ?_
    refine after_invariant (Q := fun s => s.selection.Within s.ids) ?_ ?_ ?_ hs hallowed
    · exact fun {s _} hundo hredo hs hlive => (s.reselection_after hundo hredo).within hs hlive
    · exact fun _ _ _ => Selection.within_none _
    · exact fun hs => hs
  exact ⟨hwithin.live, hwithin.shown, hwithin.shown ▸ List.head?_eq_none_iff⟩

/-- A node is selected on its own and another one beside it. When the first is removed, the
other is shown in its place. -/
theorem selects_nodes_after_removal :
    let s₀ := plain none 0 0
    let s₁ := (s₀.after (.add "a" "start" none)).after (.add "b" "end" none)
    let s₂ := (s₁.after (.edit (.select (some "b")))).after (.edit (.toggle "a"))
    let s := s₂.after (.edit (.removeNode "b"))
    s₂.selection = ⟨some "b", ["b", "a"]⟩ ∧ s.selection = ⟨some "a", ["a"]⟩
      ∧ (∀ id ∈ s.selection.ids, id ∈ s.graph.nodes.map (·.id))
      ∧ s.selection.shown = s.selection.ids.head?
      ∧ (s.selection.shown = none ↔ s.selection.ids = []) := by
  intro s₀ s₁ s₂ s
  have hrun : Reachable (Throughout SelectsLive) s₀ s := by
    refine .step _ (.step _ (.step _ (.step _ (.step _ .start ?_) ?_) ?_) ?_) ?_
    · exact throughout_of_unheard rfl nofun
    · exact throughout_of_unheard rfl nofun
    · exact throughout_of_unheard rfl (by rintro _ ⟨⟩; decide +kernel)
    · exact throughout_of_unheard rfl nofun
    · exact throughout_of_unheard rfl nofun
  exact ⟨by decide +kernel, by decide +kernel, selects_nodes rfl hrun⟩

/-! ## Toggling -/

section

variable {s : Store} {id other : String}

theorem count_toggle_self (hlive : id ∈ s.ids) : (s.toggle id).selection.ids.count id =
    if s.selection.ids.count id = 0 then 1 else s.selection.ids.count id - 1 := by
  rw [ids_toggle]
  by_cases hselected : id ∈ s.selection.ids
  · have hpos := List.count_pos_iff.mpr hselected
    rw [if_pos hselected, List.count_erase_self, if_neg (by omega)]
  · have hzero := List.count_eq_zero_of_not_mem hselected
    rw [if_neg hselected, if_pos hlive, if_pos hzero, List.count_append, hzero,
      List.count_singleton_self]

theorem count_toggle_of_ne (hne : other ≠ id) :
    (s.toggle id).selection.ids.count other = s.selection.ids.count other := by
  rw [ids_toggle]
  split
  · exact List.count_erase_of_ne hne
  · split
    · rw [List.count_append, List.count_singleton, if_neg (by simpa using hne.symm), Nat.add_zero]
    · rfl

theorem mem_toggle_of_ne (hne : other ≠ id) :
    other ∈ (s.toggle id).selection.ids ↔ other ∈ s.selection.ids := by
  rw [← List.count_pos_iff, count_toggle_of_ne hne, List.count_pos_iff]

/-- Toggling takes one of several away, so a node that was selected stays so unless it was
selected once. -/
theorem mem_toggle_self_iff (hlive : id ∈ s.ids) :
    (id ∈ (s.toggle id).selection.ids ↔ id ∉ s.selection.ids) ↔ s.selection.ids.count id ≤ 1 := by
  rw [← List.count_pos_iff, ← List.count_pos_iff, count_toggle_self hlive]
  split <;> omega

theorem mem_toggle_toggle_iff (hlive : id ∈ s.ids) :
    (∀ other, other ∈ ((s.toggle id).toggle id).selection.ids ↔ other ∈ s.selection.ids)
      ↔ s.selection.ids.count id ≠ 2 := by
  have hself : (id ∈ ((s.toggle id).toggle id).selection.ids ↔ id ∈ s.selection.ids)
      ↔ s.selection.ids.count id ≠ 2 := by
    have hagain : id ∈ (s.toggle id).ids := hlive
    rw [← List.count_pos_iff, ← List.count_pos_iff, count_toggle_self hagain,
      count_toggle_self hlive]
    split <;> split <;> omega
  refine ⟨fun h => hself.mp (h id), fun h other => ?_⟩
  by_cases hother : other = id
  · exact hother ▸ hself.mpr h
  · exact (mem_toggle_of_ne hother).trans (mem_toggle_of_ne hother)

end

/-! ## Nothing is selected twice -/

/-- When several identities are to be selected, none of a node is among them twice. -/
def SelectsOnce (s : Store) (r : Request) : Prop :=
  ∀ chosen, r = .edit (.selectNodes chosen) → (chosen.filter (· ∈ s.ids)).Nodup

theorem Reselection.nodup {s : Store} {r : Request} {p : List String × Selection}
    (hp : Reselection s r p) (hids : s.ids.Nodup) (h : s.selection.ids.Nodup)
    (honce : s.SelectsOnce r) : p.2.ids.Nodup := by
  cases hp with
  | kept => exact h
  | added => exact h
  | removed removed =>
      rw [Selection.ids_without]
      exact h.filter _
  | @single id =>
      cases id with
      | none => exact List.nodup_nil
      | some id => exact List.nodup_singleton id
  | chosen => exact honce _ rfl
  | all => exact hids
  | @toggled id =>
      show (s.toggle id).selection.ids.Nodup
      rw [ids_toggle]
      split
      · exact h.erase id
      · split
        · rename_i hnew _
          exact List.nodup_append.mpr ⟨h, List.nodup_singleton id, by
            rintro other hother _ hid rfl
            exact hnew (List.mem_singleton.mp hid ▸ hother)⟩
        · exact h
  | emptied => exact List.nodup_nil

theorem nodup_of_reachable {s₀ s : Store} (h₀ : s₀.Fresh) (hnone : s₀.selection = .none)
    (h : Reachable (Throughout fun s r => s.DrawsNew r ∧ s.SelectsOnce r) s₀ s) :
    s.selection.ids.Nodup := by
  let Q : Store → Prop := fun s => Holds Graph.Sound s ∧ s.selection.ids.Nodup
  have hstart : Q s₀ := ⟨h₀.holds Graph.sound_empty, hnone ▸ List.nodup_nil⟩
  refine (h.invariant (P := Q) hstart fun s r hs hallowed => ?_).2
  refine after_invariant (Q := Q) ?_ ?_ ?_ hs hallowed
  · intro s r hundo hredo hs hallowed
    have hsound : ∀ {s r g}, DrawsNew s r → s.graph.Sound → Revision s r g → g.Sound :=
      fun hnew hsound hrevision => hrevision.sound hnew hsound
    refine ⟨Holds.direct hsound hundo hredo hs.1 hallowed.1, ?_⟩
    exact (s.reselection_after hundo hredo).nodup hs.1.graph.distinct hs.2 hallowed.2
  · exact fun action hat hs => ⟨hs.1.announced hat action, List.nodup_nil⟩
  · exact fun hs => ⟨⟨hs.1.graph, hs.1.snapshots⟩, hs.2⟩

/-- **Toggling a node changes whether it is selected, and nothing else**, provided that it is
not selected twice. In every store toggling one node leaves it open of no other whether it is
selected; of the node itself it changes this exactly if the node is selected at most once,
and toggling it twice leaves the same nodes selected exactly if it is not selected twice.
Wherever requests lead that name no node twice when several are to be selected, nothing is
selected twice, and so both hold of every node. -/
theorem toggle_flips (s : Store) :
    (∀ id ∈ s.graph.nodes.map (·.id),
      (∀ other, other ≠ id →
          (other ∈ (s.toggle id).selection.ids ↔ other ∈ s.selection.ids))
        ∧ ((id ∈ (s.toggle id).selection.ids ↔ id ∉ s.selection.ids)
            ↔ s.selection.ids.count id ≤ 1)
        ∧ ((∀ other, other ∈ ((s.toggle id).toggle id).selection.ids ↔ other ∈ s.selection.ids)
            ↔ s.selection.ids.count id ≠ 2))
      ∧ ∀ s₀ : Store, s₀.Fresh → s₀.selection = .none →
        Reachable (Throughout fun s r => s.DrawsNew r ∧ s.SelectsOnce r) s₀ s →
        ∀ id ∈ s.graph.nodes.map (·.id),
          (id ∈ (s.toggle id).selection.ids ↔ id ∉ s.selection.ids)
            ∧ (∀ other, other ≠ id →
              (other ∈ (s.toggle id).selection.ids ↔ other ∈ s.selection.ids))
            ∧ ∀ other, other ∈ ((s.toggle id).toggle id).selection.ids
              ↔ other ∈ s.selection.ids := by
  refine ⟨fun id hlive => ?_, fun s₀ h₀ hnone hreach id hlive => ?_⟩
  · refine ⟨fun other hother => mem_toggle_of_ne hother, ?_, ?_⟩
    · exact mem_toggle_self_iff hlive
    · exact mem_toggle_toggle_iff hlive
  · have honce : s.selection.ids.count id ≤ 1 :=
      List.nodup_iff_count_le_one.mp (nodup_of_reachable h₀ hnone hreach) id
    refine ⟨(mem_toggle_self_iff hlive).mpr honce, fun other hother => mem_toggle_of_ne hother, ?_⟩
    exact (mem_toggle_toggle_iff hlive).mpr (by omega)

/-- Two nodes are selected, and one of them is toggled twice. Where it was named twice, it is
selected still after the first time. -/
theorem toggle_flips_unless_selected_twice :
    let s₀ := plain none 0 0
    let s := (s₀.after (.add "a" "start" none)).after (.add "b" "end" none)
    let once := s.after (.edit (.selectNodes ["b", "a"]))
    let twice := s.after (.edit (.selectNodes ["a", "a"]))
    "a" ∈ once.selection.ids ∧ "a" ∉ (once.toggle "a").selection.ids
      ∧ (∀ other, other ∈ ((once.toggle "a").toggle "a").selection.ids
          ↔ other ∈ once.selection.ids)
      ∧ "a" ∈ twice.selection.ids
      ∧ ¬ ("a" ∈ (twice.toggle "a").selection.ids ↔ "a" ∉ twice.selection.ids) := by
  intro s₀ s once twice
  have hrun : Reachable (Throughout fun s r => s.DrawsNew r ∧ s.SelectsOnce r) s₀ once := by
    refine .step _ (.step _ (.step _ .start ?_) ?_) ?_
    · exact throughout_of_unheard rfl ⟨by unfold DrawsNew; decide +kernel, nofun⟩
    · exact throughout_of_unheard rfl ⟨by unfold DrawsNew; decide +kernel, nofun⟩
    · exact throughout_of_unheard rfl ⟨nofun, by rintro _ ⟨⟩; decide +kernel⟩
  have hselected : "a" ∈ once.selection.ids := by decide +kernel
  obtain ⟨-, hreached⟩ := toggle_flips once
  obtain ⟨hself, -, hback⟩ := hreached s₀ (fresh_create ..) rfl hrun "a" (by decide +kernel)
  obtain ⟨hany, -⟩ := toggle_flips twice
  obtain ⟨-, hflips, -⟩ := hany "a" (by decide +kernel)
  have hcount : ¬ twice.selection.ids.count "a" ≤ 1 := by decide +kernel
  refine ⟨hselected, fun h => hself.mp h hselected, hback, by decide +kernel, ?_⟩
  exact fun h => hcount (hflips.mp h)

end Store
end Workflow

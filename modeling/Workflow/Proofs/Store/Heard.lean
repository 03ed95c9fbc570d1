import Workflow.Proofs.Store.Autosave

/-!
# Saving among other listeners

The store saves its document through a listener like any other, and a listener that raises
keeps those after it from hearing of a change. So whether changes are saved depends on who
listens before the store: if nobody there raises, every revision that is granted is in the
slot afterwards, whatever those do that listen behind it (`Revised.saved`); and if one of
them raises, nothing is ever saved, though every revision is granted as before
(`Revised.slot?_of_raised`). Listeners that raise at a step through the history make no
difference, since steps are not saved.

The headline is `saved_unless_raised_before`.
-/

namespace Workflow
namespace Store

theorem hear_of_raised (d : Document) (rest : List ChangeListener) :
    ∀ {before : List ChangeListener} (s : Store), .autosave ∉ before →
      (∃ l ∈ before, l.raises = true) → s.hear d (before ++ rest) = s
  | [], _, _, hraised => by
      obtain ⟨l, hl, -⟩ := hraised
      cases hl
  | .autosave :: _, _, hnone, _ => absurd List.mem_cons_self hnone
  | .observer _ raises :: before, s, hnone, hraised => by
      show (if raises = true then s else s.hear d (before ++ rest)) = s
      split
      · rfl
      · rename_i hsilent
        refine hear_of_raised d rest s (fun h => hnone (List.mem_cons_of_mem _ h)) ?_
        obtain ⟨l, hl, hraises⟩ := hraised
        rcases List.mem_cons.mp hl with rfl | hbefore
        · exact absurd hraises hsilent
        · exact ⟨l, hbefore, hraises⟩

theorem isSome_slot?_hear (d : Document) : ∀ (s : Store) (listeners : List ChangeListener),
    (s.hear d listeners).slot?.isSome = s.slot?.isSome
  | _, [] => rfl
  | s, .autosave :: rest => by
      have hsaved : (s.saveDocument d).slot?.isSome = s.slot?.isSome := by
        unfold saveDocument
        split
        · rfl
        · rename_i a ha
          unfold slot?
          rw [ha]
          rfl
      rw [← hsaved]
      exact isSome_slot?_hear d (s.saveDocument d) rest
  | s, .observer _ raises :: rest => by
      unfold hear
      split
      · rfl
      · exact isSome_slot?_hear d s rest

/-- How a store is listened to: those before the listener that saves the document, and those
behind it. None makes edits. -/
structure Heard (before behind : List ChangeListener) (s : Store) : Prop where
  listeners : s.listeners = before ++ .autosave :: behind
  passive : ∀ l ∈ s.listeners, l.Passive
  idle : s.history.applying = false

section

variable {before behind : List ChangeListener} {s : Store}

theorem Heard.after (h : s.Heard before behind) (r : Request) :
    (s.after r).Heard before behind := by
  obtain ⟨hlisteners, hidle⟩ := listeners_and_idle_after h.passive h.idle r
  exact ⟨hlisteners.trans h.listeners, hlisteners ▸ h.passive, hidle⟩

/-- A request that does not revise the graph, or fails, leaves the slot alone. -/
theorem Heard.slot?_of_not_revised (h : s.Heard before behind) {r : Request}
    (hnot : s.fails r = true ∨ r.revises = false) : (s.after r).slot? = s.slot? := by
  rcases hnot with hfails | hrevises
  · exact (silent_of_fails hfails).slot
  · by_cases hsteps : s.fails r = false ∧ r.steps = true
    · obtain ⟨-, -, -, harchive⟩ := restored_of_steps h.passive hsteps.2 hsteps.1
      unfold slot?
      rw [harchive]
    · cases hfails : s.fails r with
      | true => exact (silent_of_fails hfails).slot
      | false =>
          have hnone := eq_false_of_ne_true fun hsome => hsteps ⟨hfails, hsome⟩
          exact (s.silent_of_not_revises hrevises hnone).slot

/-- A request that revises the graph and is granted commits once; no other one is heard by
the listener that saves the document. -/
theorem Heard.cases (h : s.Heard before behind) (r : Request) :
    s.Revised (s.after r) ∨ (s.after r).slot? = s.slot? := by
  cases hfails : s.fails r with
  | true => exact .inr (h.slot?_of_not_revised (.inl hfails))
  | false =>
      cases hrevises : r.revises with
      | false => exact .inr (h.slot?_of_not_revised (.inr hrevises))
      | true =>
          have hanswered := s.answered_of_revises hrevises
          rw [hfails] at hanswered
          cases hanswered with
          | granted hrevised => exact .inl hrevised

theorem Heard.isSome_slot?_after (h : s.Heard before behind) (r : Request) :
    (s.after r).slot?.isSome = s.slot?.isSome := by
  rcases h.cases r with hrevised | hslot
  · obtain ⟨s₁, -, harchive, -, -, hheard⟩ := hrevised.heard
    rw [hheard, isSome_slot?_hear]
    unfold slot?
    rw [harchive]
  · rw [hslot]

/-- What was committed is not saved if a listener raises before the one that saves the
document. -/
theorem Revised.slot?_of_raised {s' : Store} (hrevised : s.Revised s')
    (hlisteners : s.listeners = before ++ .autosave :: behind) (hnone : .autosave ∉ before)
    (hraised : ∃ l ∈ before, l.raises = true) : s'.slot? = s.slot? := by
  obtain ⟨s₁, -, harchive, -, -, hheard⟩ := hrevised.heard
  have hsame : s' = s₁ := by
    rw [hheard, hlisteners]
    exact hear_of_raised _ _ _ hnone hraised
  rw [hsame]
  unfold slot?
  rw [harchive]

/-- **One request** to a store in which a listener raises before the one that saves the
document: the slot is as it was, whatever is asked and answered. -/
theorem Heard.slot?_after (h : s.Heard before behind) (hnone : .autosave ∉ before)
    (hraised : ∃ l ∈ before, l.raises = true) (r : Request) :
    (s.after r).slot? = s.slot? := by
  rcases h.cases r with hrevised | hslot
  · exact hrevised.slot?_of_raised h.listeners hnone hraised
  · exact hslot

/-- **One request** to a store in which nobody raises before the listener that saves the
document: a revision that is granted is in the slot. -/
theorem Heard.saved_after (h : s.Heard before behind)
    (hsilent : ∀ l ∈ before, l.raises = false) (harchive : s.slot?.isSome = true)
    {r : Request} (hrevises : r.revises = true) (hgranted : s.fails r = false)
    (hsaves : s.CanSave r) :
    (s.after r).HasSaved (s.after r).document := by
  obtain ⟨a, ha⟩ := exists_archive_of_slot? harchive
  have hanswered := s.answered_of_revises hrevises
  rw [hgranted] at hanswered
  cases hanswered with
  | granted hrevised => exact hrevised.saved h.listeners hsilent ha fun c => hsaves a c ha

end

/-- **A change is saved unless a listener registered before the store raises.** The others
may raise as they like: those behind the store are heard too late to matter, and of a step
through the history nothing is saved anyway. When one before the store raises, the slot stays
for good as it was at first, though requests are granted and answered as ever. -/
theorem saved_unless_raised_before {before behind : List ChangeListener} {s₀ s : Store}
    {allowed : Store → Request → Prop} (h₀ : s₀.Heard before behind)
    (hfirst : .autosave ∉ before) (harchive : s₀.slot?.isSome = true)
    (h : Reachable allowed s₀ s) :
    ((∀ l ∈ before, l.raises = false) → ∀ r, s.CanSave r → r.revises = true → s.fails r = false →
        (s.after r).HasSaved (s.after r).document)
      ∧ ((∃ l ∈ before, l.raises = true) → s.slot? = s₀.slot?) := by
  have hheard := h.invariant (P := fun s => s.Heard before behind ∧ s.slot?.isSome = true)
    ⟨h₀, harchive⟩ fun s r hs _ => ⟨hs.1.after r, (hs.1.isSome_slot?_after r).trans hs.2⟩
  refine ⟨fun hsilent r hsaves hrevises hgranted => ?_, fun hraised => ?_⟩
  · exact hheard.1.saved_after hsilent hheard.2 hrevises hgranted hsaves
  · have hkept := h.invariant (P := fun s => s.Heard before behind ∧ s.slot? = s₀.slot?)
      ⟨h₀, rfl⟩ fun s r hs _ =>
        ⟨hs.1.after r, (hs.1.slot?_after hfirst hraised r).trans hs.2⟩
    exact hkept.2

/-- A listener that raises is registered once behind the store and once before it. A node is
added and renamed: in the first store its new name is in the slot, in the second nothing is,
though it has the name all the same. -/
theorem saved_unless_raised_before_of_two_stores :
    let s₁ := create (.idle none 0) (.ofCap 50) (some (.ofTables .empty Archive.defaultKey)) none
      [.observer [] false] true 0
    let s₀ : Store := { s₁ with listeners := s₁.listeners ++ [.observer [] true] }
    let t₀ := create (.idle none 0) (.ofCap 50) (some (.ofTables .empty Archive.defaultKey)) none
      [.observer [] true] true 0
    let s := s₀.after (.add "a" "start" none)
    let t := (t₀.after (.add "a" "start" none)).after (.edit (.rename "a" "b"))
    let r : Request := .edit (.rename "a" "b")
    (s.after r).HasSaved (s.after r).document ∧ t.slot? = t₀.slot?
      ∧ t.document = (s.after r).document ∧ ¬ t.HasSaved t.document := by
  intro s₁ s₀ t₀ s t r
  have hs₀ : s₀.Heard [.observer [] false] [.observer [] true] :=
    ⟨rfl, List.forall_mem_cons.mpr ⟨rfl, List.forall_mem_cons.mpr
      ⟨trivial, List.forall_mem_singleton.mpr rfl⟩⟩, rfl⟩
  have ht₀ : t₀.Heard [.observer [] true] [] :=
    ⟨rfl, List.forall_mem_cons.mpr ⟨rfl, List.forall_mem_singleton.mpr trivial⟩, rfl⟩
  have hs : Reachable (fun _ _ => True) s₀ s := .step _ .start trivial
  have ht : Reachable (fun _ _ => True) t₀ t := .step _ (.step _ .start trivial) trivial
  obtain ⟨hsaved, -⟩ := saved_unless_raised_before hs₀ (by decide) rfl hs
  obtain ⟨-, hslot⟩ := saved_unless_raised_before ht₀ (by decide) rfl ht
  have hempty : t.slot? = t₀.slot? := hslot ⟨_, List.mem_cons_self, rfl⟩
  refine ⟨hsaved (by decide) r (canSave_of_all (by decide +kernel)) rfl (by decide +kernel), hempty,
    by decide +kernel, ?_⟩
  rintro ⟨text, -, hheld⟩
  rw [hempty] at hheld
  cases hheld

end Store
end Workflow

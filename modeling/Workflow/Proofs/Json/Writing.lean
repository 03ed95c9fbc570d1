import Workflow.Json.Writer
import Workflow.Proofs.Value.Text

/-!
# What is written

The writer has a text for every value, also for one that no document holds, as long as no
integer in it has too many digits. The induction is on what is inside the value, for all
depths at once.
-/

namespace Workflow.Json

open Value

variable {layout : Layout}

theorem exists_writeItems (depth : Nat) : ∀ {items : List Value},
    (∀ v ∈ items, ∀ depth, ∃ cs, writeValue layout depth v = .ok cs) →
      ∃ cs, writeItems layout depth items = .ok cs
  | [], _ => ⟨_, rfl⟩
  | _ :: _, h => by
      obtain ⟨hfirst, hrest⟩ := List.forall_mem_cons.mp h
      refine exists_bind (hfirst depth) fun _ _ => ?_
      exact exists_bind (exists_writeItems depth hrest) fun _ _ => ⟨_, rfl⟩

theorem exists_writeFields (depth : Nat) : ∀ {fields : List (String × Value)},
    (∀ f ∈ fields, ∀ depth, ∃ cs, writeValue layout depth f.2 = .ok cs) →
      ∃ cs, writeFields layout depth fields = .ok cs
  | [], _ => ⟨_, rfl⟩
  | _ :: _, h => by
      obtain ⟨hfirst, hrest⟩ := List.forall_mem_cons.mp h
      refine exists_bind (hfirst depth) fun _ _ => ?_
      exact exists_bind (exists_writeFields depth hrest) fun _ _ => ⟨_, rfl⟩

theorem exists_writeValue {v : Value} (h : v.WithinDigits) :
    ∀ depth, ∃ cs, writeValue layout depth v = .ok cs := by
  induction v using insideInduction with
  | null => exact fun _ => ⟨_, rfl⟩
  | bool b => cases b <;> exact fun _ => ⟨_, rfl⟩
  | number n => exact fun _ => exists_bind (n.exists_textIn _ h.self) fun _ _ => ⟨_, rfl⟩
  | text s => exact fun _ => ⟨_, rfl⟩
  | list items ih =>
      intro depth
      have hitems := (everywhere_list.mp h).2
      cases items with
      | nil => exact ⟨_, rfl⟩
      | cons v vs =>
          obtain ⟨hfirst, hrest⟩ :=
            List.forall_mem_cons.mp fun w hw => ih w hw (hitems w hw)
          refine exists_bind (hfirst _) fun _ _ => ?_
          exact exists_bind (exists_writeItems _ hrest) fun _ _ => ⟨_, rfl⟩
  | record fields ih =>
      intro depth
      have hfields := (everywhere_record.mp h).2
      cases fields with
      | nil => exact ⟨_, rfl⟩
      | cons f fs =>
          obtain ⟨hfirst, hrest⟩ :=
            List.forall_mem_cons.mp fun g hg => ih g hg (hfields g hg)
          refine exists_bind (hfirst _) fun _ _ => ?_
          exact exists_bind (exists_writeFields _ hrest) fun _ _ => ⟨_, rfl⟩

/-- **A value is written** in every layout, unless one of its integers is too long. -/
theorem exists_write {v : Value} (h : v.WithinDigits) : ∃ text, write layout v = .ok text :=
  exists_bind (exists_writeValue h 0) fun _ _ => ⟨_, rfl⟩

end Workflow.Json

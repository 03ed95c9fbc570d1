import Workflow.Archive.Basic

/-!
# The slot of an archive

A document is saved by putting its text in the slot, which succeeds just when it has a text
and the tables can be used. Recording runs leaves the slot alone.
-/

namespace Workflow

namespace Tables

theorem access_of_usable {α : Type} {t : Tables} (h : t.state = .usable) (table : String)
    (result : Except Failure α) : t.access table result = result := by
  unfold access
  rw [h]

theorem usable_of_access {α : Type} {t : Tables} {table : String} {result : Except Failure α}
    {found : α} (h : t.access table result = .ok found) :
    t.state = .usable ∧ result = .ok found := by
  unfold access at h
  split at h
  · exact ⟨‹_›, h⟩
  · cases h
  · cases h

/-- What the slots of a key show depends on nothing but the slots and whether they can be
used. -/
theorem slot?_congr {t t' : Tables} (hstate : t'.state = t.state)
    (hslots : t'.slots = t.slots) (key : String) : t'.slot? key = t.slot? key := by
  unfold slot? access
  rw [hstate, hslots]

end Tables

namespace Archive

/-- The archive when a text was put in its slot. -/
def bearing (a : Archive) (text : String) : Archive := { a with
  tables := { a.tables with slots := (a.key, text) :: a.tables.slots.filter (·.1 ≠ a.key) }
  saved := true }

theorem save_of_write {a : Archive} (husable : a.tables.state = .usable) {d : Document}
    {text : String} (hwrite : d.write .oneLine = .ok text) :
    a.save d = (true, a.bearing text) := by
  have hput : a.tables.putSlot a.key text = .ok (a.bearing text).tables :=
    Tables.access_of_usable husable _ _
  simp only [save, hwrite, hput]
  rfl

theorem slot?_bearing {a : Archive} (husable : a.tables.state = .usable) (text : String) :
    (a.bearing text).tables.slot? a.key = .ok (some text) := by
  have hfound : (a.bearing text).tables.slots.lookup a.key = some text := List.lookup_cons_self
  exact hfound ▸ Tables.access_of_usable (t := (a.bearing text).tables) husable _ _

def Bears (a : Archive) (d : Document) : Prop :=
  ∃ text, d.write .oneLine = .ok text ∧ a.tables.slot? a.key = .ok (some text)

/-- A document that was saved is in the slot, and could be saved once more. -/
theorem bears_save {a : Archive} {d : Document} (h : (a.save d).1 = true) :
    (a.save d).2.Bears d ∧ ((a.save d).2.save d).1 = true := by
  obtain ⟨text, hwrite, husable⟩ :
      ∃ text, d.write .oneLine = .ok text ∧ a.tables.state = .usable := by
    unfold save at h
    split at h
    · cases h
    · rename_i text hwrite
      split at h
      · cases h
      · rename_i hput
        exact ⟨text, hwrite, (Tables.usable_of_access hput).1⟩
  rw [save_of_write husable hwrite]
  refine ⟨⟨text, hwrite, slot?_bearing husable text⟩, ?_⟩
  have hagain : (a.bearing text).save d = (true, (a.bearing text).bearing text) :=
    save_of_write (a := a.bearing text) husable hwrite
  exact congrArg Prod.fst hagain

theorem slot?_recordRun (a : Archive) (entries : List StoredEntry) (status started : String)
    (finished : Option String) :
    (a.recordRun entries status started finished).2.tables.slot?
        (a.recordRun entries status started finished).2.key = a.tables.slot? a.key := by
  unfold recordRun recordRunAs
  dsimp only
  split
  · rfl
  · split
    · rfl
    · rename_i hadd
      obtain ⟨-, hadded⟩ := Tables.usable_of_access hadd
      split at hadded
      · cases hadded
      · obtain rfl := Except.ok.inj hadded
        exact Tables.slot?_congr rfl rfl a.key

end Archive
end Workflow

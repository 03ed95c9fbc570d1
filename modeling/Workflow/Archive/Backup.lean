import Workflow.Archive.Tables
import Workflow.Json.Reader
import Workflow.Json.Writer

/-!
# Tables as text

The tables of an archive as a JSON text, so that they outlive the program. With them goes the
number of identities given to nodes. Main statement: what was kept reads back.
-/

namespace Workflow

/-- What outlives the program. -/
structure Backup where
  tables : Tables
  issued : Nat
  deriving DecidableEq, Repr

namespace Backup

def empty : Backup := ⟨.empty, 0⟩

def runValue (r : RunRow) : Value :=
  .record [
    ("id", .text r.id), ("key", .text r.key), ("status", .text r.status), ("log", .text r.log),
    ("entries", .int r.entries), ("errors", .int r.errors), ("started", .text r.started),
    ("finished", .ofText? r.finished)]

def toValue (b : Backup) : Value :=
  .record [
    ("slots", .record (b.tables.slots.map fun slot => (slot.1, .text slot.2))),
    ("runs", .list (b.tables.runs.map runValue)),
    ("named", .int b.tables.named),
    ("issued", .int b.issued)]

def textField? (r : Record) (name : String) : Option String :=
  match Record.get? r name with
  | some (.text s) => some s
  | _ => none

def countField? (r : Record) (name : String) : Option Nat :=
  match Record.get? r name with
  | some (.number (.int n)) => some n.toNat
  | _ => none

def slotOf? (field : String × Value) : Option (String × String) :=
  match field.2 with
  | .text s => some (field.1, s)
  | _ => none

def runOf? : Value → Option RunRow
  | .record r => do
    let id ← textField? r "id"
    let key ← textField? r "key"
    let status ← textField? r "status"
    let log ← textField? r "log"
    let entries ← countField? r "entries"
    let errors ← countField? r "errors"
    let started ← textField? r "started"
    return ⟨id, key, status, log, entries, errors, started, textField? r "finished"⟩
  | _ => none

def ofValue? : Value → Option Backup
  | .record r =>
    match Record.get? r "slots", Record.get? r "runs" with
    | some (.record slots), some (.list runs) => do
      let slots ← slots.mapM slotOf?
      let runs ← runs.mapM runOf?
      let named ← countField? r "named"
      let issued ← countField? r "issued"
      return ⟨⟨slots, runs, named, .usable⟩, issued⟩
    | _, _ => none
  | _ => none

/-! ## What was kept reads back -/

theorem runOf?_runValue (r : RunRow) : runOf? (runValue r) = some r := by
  cases r with
  | mk id key status log entries errors started finished => cases finished <;> rfl

theorem mapM_map_of_left_inverse {α β : Type} {f : α → β} {g : β → Option α}
    (h : ∀ a, g (f a) = some a) (l : List α) : (l.map f).mapM g = some l := by
  induction l with
  | nil => rfl
  | cons a l ih => simp [h, ih]

theorem ofValue?_toValue (b : Backup) (usable : b.tables.state = .usable) :
    ofValue? b.toValue = some b := by
  obtain ⟨⟨slots, runs, named, state⟩, issued⟩ := b
  obtain rfl : state = .usable := usable
  have hs := mapM_map_of_left_inverse (f := fun slot => (slot.1, Value.text slot.2))
    (g := slotOf?) (fun _ => rfl) slots
  have hr := mapM_map_of_left_inverse runOf?_runValue runs
  simp [ofValue?, toValue, Record.get?, List.lookup_cons, hs, hr, countField?, Value.int]

/-! ## Texts -/

def ofText? (s : String) : Option Backup :=
  match Json.read s with
  | .ok v => ofValue? v
  | .error _ => none

end Backup
end Workflow

import Workflow.Archive.Address
import Workflow.Json.Reader
import Workflow.Run.Signal
import Workflow.Text.Utf8

/-!
# Failures

Why an operation on files, on the archive or on a store is broken off: a fault of a value, a
file that cannot be used, bytes that are no text, stored text that is no JSON, a table that
cannot be used or refuses a row, an address that cannot be used, a listener that raised, or
an interrupt from outside.
-/

namespace Workflow

/-- Why an operation is broken off. -/
inductive Failure
  | fault (fault : Fault)
  | file (fault : Files.FileFault)
  | bytes (fault : Text.Utf8Fault)
  /-- Stored text is no JSON; the description names the place. -/
  | malformed (description : String)
  | missingTable (name : String)
  | closedDatabase
  | notADatabase
  | readOnlyDatabase
  | address (fault : AddressFault)
  /-- A row has the key of another one in a column where every key occurs once. -/
  | duplicateKey (column : String)
  /-- A number of rows is no whole number that the database can count to. -/
  | mistypedLimit
  /-- A number is too large to be given to the database. -/
  | numberTooLarge
  | listener (message : String)
  | interrupted (i : Interrupt)
  deriving DecidableEq, Repr

def Failure.message : Failure → String
  | .fault f => f.message
  | .file f => f.message
  | .bytes f => f.message
  | .malformed description => description
  | .missingTable name => s!"no such table: {name}"
  | .closedDatabase => "unable to open database file"
  | .notADatabase => "file is not a database"
  | .readOnlyDatabase => "attempt to write a readonly database"
  | .address f => f.message
  | .duplicateKey column => s!"UNIQUE constraint failed: {column}"
  | .mistypedLimit => "datatype mismatch"
  | .numberTooLarge => "Python int too large to convert to SQLite INTEGER"
  | .listener message => message
  | .interrupted _ => ""

def orFailure {α : Type} (r : Except Fault α) : Except Failure α := r.mapError .fault

end Workflow

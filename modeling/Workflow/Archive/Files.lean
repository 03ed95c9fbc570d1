import Workflow.Archive.Tables
import Workflow.Document.Exchange
import Workflow.Failure
import Workflow.Files.Tree

/-!
# Documents and databases in files

A document is written to a file with a newline at its end, and the directories on the way are
made. A file that cannot be opened refuses the import; bytes that are no text break it off.

A database is shown in the tree by a file with the head of its bytes, which is no text. The
tables are found as long as this head is there: a file without bytes, or with a single one,
holds no tables, and one with other bytes is no database.
-/

namespace Workflow.Files

open Text

/-- The text in a file, with every line end as one newline. -/
def Tree.readText (t : Tree) (p : Path) : Except Failure String :=
  match t.read p with
  | .error f => .error (.file f)
  | .ok bytes =>
    match decodeText bytes with
    | .error f => .error (.bytes f)
    | .ok s => .ok (String.ofList (normaliseLineEnds s.toList))

/-- The name of the file a document is written to when none is given. -/
def defaultName : String := "workflow-1767225600500.json"

def Tree.saveDocument (t : Tree) (d : Document) (p : Option Path) :
    Except Failure Path × Tree :=
  let p := p.getD (.ofText defaultName)
  match t.ensureDirectory p.parent with
  | (.error f, t) => (.error (.file f), t)
  | (.ok (), t) =>
    match d.write .indented with
    | .error f => (.error (.fault f), t)
    | .ok s =>
      match t.write p (encodeText (s ++ "\n")) with
      | .error f => (.error (.file f), t)
      | .ok t => (.ok p, t)

def Tree.loadDocument (t : Tree) (p : Path) : Except Failure Imported :=
  match t.readText p with
  | .error (.file (.obstacle met p)) => .ok (.refused [.unreadable met p])
  | .error f => .error f
  | .ok text => orFailure (Document.importText text)

/-! ## Databases -/

/-- The bytes of a database up to the first that is no part of a text. -/
def databaseHead : List UInt8 :=
  encodeText "SQLite format 3\x00" ++ List.replicate 84 0 ++ [0x0d, 0x0f, 0xf8]

/-- The most bytes the names that lead to a database can have, with a slash between two. -/
def databasePathLimit : Nat := 480

/-- What is put behind the name of a database to name the file for changes under way. -/
def changesSuffix : String := "-journal"

/-- Whether tables can be made in a database at a place: the name of the file for changes
under way must not be too long either. -/
def canChangeAt (place : Location) : Bool :=
  (place.getLast?.getD "").utf8ByteSize + changesSuffix.utf8ByteSize ≤ Tree.nameLimit

/-- What is left of tables when this lies in their place. -/
def tablesAt (entry : Option Entry) (tables : Tables) : Tables :=
  match entry with
  | some (.file bytes) =>
    if bytes = databaseHead then tables
    else tables.lost (if bytes.length ≤ 1 then .absent else .damaged)
  | _ => tables.lost .absent

/-- What is left of the tables in memory at the next opening. -/
def tablesInMemory (a : Address) (tables : Tables) : Tables :=
  if a.lasting then tables else tables.lost .absent

/-- What is left of the tables of the database at a path. -/
def Tree.inspectDatabase (t : Tree) (p : Path) (tables : Tables) : Tables :=
  match Address.ofPath p with
  | .error _ => tables.lost .absent
  | .ok a =>
    match a.path? with
    | none => tablesInMemory a tables
    | some file => tablesAt (t.entry? file.names) tables

/-- Opens the file at an address and gives the place of it. No directory can be opened, nor a
file below one that is missing. -/
def Tree.databasePlace (t : Tree) (a : Address) (file : Path) : Except Failure Location :=
  match t.walk [] file.names with
  | .error _ => .error .closedDatabase
  | .ok place =>
    let entry := t.entry? place
    if databasePathLimit < ("/".intercalate place).utf8ByteSize then .error .closedDatabase
    else if a.model.any fun model => model = "" || (t.lookup (.ofText model)).isNone then
      .error (.address .missingModel)
    else if entry = some .directory ∨ (entry = none ∧ a.access ≠ .create) then
      .error .closedDatabase
    else .ok place

/-- Opens the database at an address and makes the tables that it lacks. The tables given are
those that were kept there last. -/
def Tree.openAddress (t : Tree) (a : Address) (tables : Tables) :
    Except Failure (Tree × Tables) :=
  match a.path? with
  | none =>
    if a.readOnly then .error .readOnlyDatabase
    else do return (t, tablesInMemory a (← tables.create))
  | some file => do
    let place ← t.databasePlace a file
    let tables ← (tablesAt (t.entry? place) tables).create
    if a.readOnly then throw .readOnlyDatabase
    if !canChangeAt place then throw .closedDatabase
    return (t.put place (.file databaseHead), tables)

/-- Opens the database that a path stands for. The directories on the way along the path are
made, also when it is an address that leads elsewhere. -/
def Tree.openDatabase (t : Tree) (p : Path) (tables : Tables) :
    Except Failure (Tree × Tables) := do
  let (made, t) := t.ensureDirectory p.parent
  made.mapError .file
  if p.hasNull then throw (.file .nullCharacter)
  t.openAddress (← (Address.ofPath p).mapError .address) tables

end Workflow.Files

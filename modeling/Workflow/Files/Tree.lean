import Workflow.Files.Path

/-!
# Trees of files

The files and directories below a working directory, which is the root of the tree. Each
place below the root has an entry under the names that lead to it. Directories that were made
stay, also when what they were made for fails.
-/

namespace Workflow.Files

/-- What stands at a place of the tree. -/
inductive Entry
  | file (bytes : List UInt8)
  | directory
  deriving DecidableEq, Repr

abbrev Location := List String

structure Tree where
  entries : List (Location × Entry)
  deriving DecidableEq, Repr

namespace Tree

def empty : Tree := ⟨[]⟩

def entry? (t : Tree) : Location → Option Entry
  | [] => some .directory
  | place => t.entries.lookup place

def put (t : Tree) (place : Location) (entry : Entry) : Tree :=
  ⟨(place, entry) :: t.entries.filter (·.1 ≠ place)⟩

def nameLimit : Nat := 255

def pathLimit : Nat := 4095

/-- Where the parts of a path lead from a place. Every place on the way must be a
directory. -/
def walk (t : Tree) (place : Location) : List String → Except Obstacle Location
  | [] => .ok place
  | part :: parts =>
    match t.entry? place with
    | none => .error .missing
    | some (.file _) => .error .notADirectory
    | some .directory =>
      if nameLimit < part.utf8ByteSize then .error .nameTooLong
      else t.walk (if part = ".." then place.dropLast else place ++ [part]) parts

def locate (t : Tree) (p : Path) : Except FileFault Location :=
  if p.hasNull then .error .nullCharacter
  else if pathLimit < p.text.utf8ByteSize then .error (.obstacle .nameTooLong p)
  else (t.walk [] p.parts).mapError (.obstacle · p)

/-- The result of an operation at the place a path leads to. -/
def atPath {α : Type} (t : Tree) (p : Path) (f : Location → Option Entry → Except Obstacle α) :
    Except FileFault α := do
  let place ← t.locate p
  (f place (t.entry? place)).mapError (.obstacle · p)

def read (t : Tree) (p : Path) : Except FileFault (List UInt8) :=
  t.atPath p fun _ entry =>
    match entry with
    | none => .error .missing
    | some .directory => .error .isADirectory
    | some (.file bytes) => .ok bytes

/-- Writes a file, in place of the one that was there. -/
def write (t : Tree) (p : Path) (bytes : List UInt8) : Except FileFault Tree :=
  t.atPath p fun place entry =>
    match entry with
    | some .directory => .error .isADirectory
    | _ => .ok (t.put place (.file bytes))

def makeDirectory (t : Tree) (p : Path) : Except FileFault Tree :=
  t.atPath p fun place entry =>
    match entry with
    | some _ => .error .exists
    | none => .ok (t.put place .directory)

def lookup (t : Tree) (p : Path) : Option Entry :=
  match t.locate p with
  | .error _ => none
  | .ok place => t.entry? place

/-- A fault met when a directory was to be made; one that is there already counts as made. -/
def unlessThere (t : Tree) (p : Path) (fault : FileFault) : Except FileFault Unit :=
  if t.lookup p = some .directory then .ok () else .error fault

def makeUnlessThere (t : Tree) (p : Path) : Except FileFault Unit × Tree :=
  match t.makeDirectory p with
  | .ok t => (.ok (), t)
  | .error fault => (t.unlessThere p fault, t)

/-- Makes a directory unless it is there; if the way to it is missing, that is made first. -/
def ensureDirectory (t : Tree) (p : Path) : Except FileFault Unit × Tree :=
  match t.makeDirectory p with
  | .ok t => (.ok (), t)
  | .error fault =>
    if fault = .obstacle .missing p ∧ p.parts ≠ [] then
      match t.ensureDirectory p.parent with
      | (.ok (), t) => t.makeUnlessThere p
      | (.error fault, t) => (.error fault, t)
    else (t.unlessThere p fault, t)
termination_by p.parts.length
decreasing_by
  rename_i h
  have := List.length_pos_iff.2 h.2
  simp only [Path.parent, List.length_dropLast]
  omega

/-- Writes a file and makes the directories on the way to it. -/
def place (t : Tree) (p : Path) (bytes : List UInt8) : Except FileFault Unit × Tree :=
  match t.ensureDirectory p.parent with
  | (.error fault, t) => (.error fault, t)
  | (.ok (), t) =>
    match t.write p bytes with
    | .error fault => (.error fault, t)
    | .ok t => (.ok (), t)

end Tree
end Workflow.Files

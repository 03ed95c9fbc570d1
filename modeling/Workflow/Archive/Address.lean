import Workflow.Files.Path
import Workflow.Text.Utf8

/-!
# Addresses of databases

A database is asked for by a path. A path that begins with `file:` is an address: a percent
sign with two hexadecimal digits stands for a byte, and behind a question mark stand options
that say how the file is opened. Any other path is the path of the file itself.

A database without a name, or with the name of the memory, or opened in memory has no file.
-/

namespace Workflow

open Text

/-- How a database is opened. -/
inductive Access
  /-- The file must be there and is not changed. -/
  | read
  /-- The file must be there. -/
  | change
  /-- The file is made if it is missing. -/
  | create
  /-- There is no file. -/
  | memory
  deriving DecidableEq, Repr

namespace Access

def all : List Access := [.read, .change, .create, .memory]

def name : Access → String
  | .read => "ro"
  | .change => "rw"
  | .create => "rwc"
  | .memory => "memory"

def ofName? (s : String) : Option Access := all.find? (·.name = s)

/-- Whether an option may ask for the second access after the first: a file may not be given
more than was given before. -/
def allows : Access → Access → Bool
  | _, .memory => true
  | .memory, _ => true
  | .create, _ => true
  | .change, asked => asked ≠ .create
  | .read, asked => asked = .read

end Access

/-- Why an address cannot be used. -/
inductive AddressFault
  /-- No access has this name. -/
  | unknownAccess (name : String)
  /-- An option asks for more than was given before. -/
  | excessiveAccess (access : Access)
  /-- Memory is neither shared nor private. -/
  | unknownSharing (name : String)
  /-- No system of files has this name. -/
  | unknownSystem (name : String)
  /-- There is no file at the path whose permissions the file is to have. -/
  | missingModel
  deriving DecidableEq, Repr

def AddressFault.message : AddressFault → String
  | .unknownAccess name => s!"no such access mode: {name}"
  | .excessiveAccess access => s!"access mode not allowed: {access.name}"
  | .unknownSharing name => s!"no such cache mode: {name}"
  | .unknownSystem name => s!"no such vfs: {name}"
  | .missingModel => "disk I/O error"

/-- Where a database lies and how it is opened. -/
structure Address where
  /-- The path of the file. -/
  file : String
  access : Access
  /-- Whether the openings of a database in memory are one database. -/
  shared : Bool
  /-- Whether nobody is to change the file. -/
  frozen : Bool
  /-- The system of files that is asked. -/
  system : String
  /-- The path of the file whose permissions the file is to have. -/
  model : Option String
  deriving DecidableEq, Repr

namespace Address

/-- The system of files that is asked unless an address names another. -/
def usualSystem : String := "unix"

def memorySystem : String := "memdb"

/-- Every system of files. They differ in how they lock a file. -/
def systems : List String :=
  [usualSystem, "unix-none", "unix-dotfile", "unix-excl", memorySystem]

def memoryName : String := ":memory:"

def plain (path : String) : Address := ⟨path, .create, false, false, usualSystem, none⟩

/-- The bytes of a part of an address. An escape for the byte zero ends the part. -/
def unescape : List Char → List UInt8
  | [] => []
  | '%' :: a :: b :: cs =>
    match radixDigit? 16 a, radixDigit? 16 b with
    | some high, some low =>
      let byte := high * 16 + low
      if byte = 0 then [] else byte.toUInt8 :: unescape cs
    | _, _ => encodeText "%" ++ unescape (a :: b :: cs)
  | c :: cs => encodeText (String.ofList [c]) ++ unescape cs

/-- The text of a part of an address. Bytes that are no text are taken as one character
each. -/
def unescaped (cs : List Char) : String :=
  let bytes := unescape cs
  match decodeText bytes with
  | .ok s => s
  | .error _ => String.ofList (bytes.map fun b => Char.ofNat b.toNat)

/-- An option with its value. One without a name counts for nothing. -/
def option? (part : List Char) : Option (String × String) :=
  let (name, value) := cut '=' part
  if unescaped name = "" then none else some (unescaped name, unescaped value)

/-- The number at the beginning of a text, in hexadecimal digits behind a zero and an x and
in decimal ones otherwise. -/
def leadingNumber (cs : List Char) : Nat :=
  let number (base : Nat) (cs : List Char) :=
    let digits := cs.map (radixDigit? base)
    ofDigits base ((digits.takeWhile Option.isSome).filterMap id)
  match cs with
  | '0' :: x :: c :: rest =>
    if x.toLower = 'x' ∧ (radixDigit? 16 c).isSome then number 16 (c :: rest) else number 10 cs
  | _ => number 10 cs

/-- Whether a value of an option says yes: by a word, or by a number of 31 bits whose last
eight are not all zero. -/
def saysYes (value : String) : Bool :=
  let cs := value.toList
  if (cs.head?.map Char.isDigit).getD false then
    let n := leadingNumber cs
    n < 0x80000000 && n % 256 ≠ 0
  else String.ofList (cs.map Char.toLower) ∈ ["on", "yes", "true"]

/-- The address with an option. Options that it does not know count for nothing. -/
def withOption (a : Address) : String × String → Except AddressFault Address
  | ("mode", value) =>
    match Access.ofName? value with
    | none => .error (.unknownAccess value)
    | some access =>
      if a.access.allows access then .ok { a with access } else .error (.excessiveAccess access)
  | ("cache", value) =>
    if value = "shared" then .ok { a with shared := true }
    else if value = "private" then .ok { a with shared := false }
    else .error (.unknownSharing value)
  | ("vfs", value) => .ok { a with system := value }
  | _ => .ok a

/-- Reads what stands behind the beginning of an address. It ends at a number sign. -/
def ofBody (cs : List Char) : Except AddressFault Address := do
  let (file, options) := cut '?' (cut '#' cs).1
  let options := (parts '&' options).filterMap option?
  let a ← options.foldlM withOption (plain (unescaped file))
  if a.system ∉ systems then throw (.unknownSystem a.system)
  return { a with
    frozen := ((options.lookup "immutable").map saysYes).getD false
    model := options.lookup "modeof" }

def ofPath (p : Files.Path) : Except AddressFault Address :=
  match p.text.toList with
  | 'f' :: 'i' :: 'l' :: 'e' :: ':' :: cs => ofBody cs
  | _ => .ok (plain p.text)

/-- Whether no system of files is asked for the database. -/
def detached (a : Address) : Bool := a.access = .memory || a.file = "" || a.file = memoryName

def inMemory (a : Address) : Bool := a.detached || a.system = memorySystem

/-- Whether a name in the system of files in memory is the same file for all who ask for it:
it begins with a slash, of either kind, and has more behind it. -/
def isCommonName : List Char → Bool
  | c :: _ :: _ => c = '/' || c = '\\'
  | _ => false

/-- Whether tables in memory are found again at the next opening. A database without a name
is nobody else's. -/
def lasting (a : Address) : Bool :=
  a.file ≠ "" &&
    (a.shared || (!a.detached && a.system = memorySystem && isCommonName a.file.toList))

def readOnly (a : Address) : Bool := a.access = .read || (a.frozen && !a.detached)

def path? (a : Address) : Option Files.Path :=
  if a.inMemory then none else some (.ofText a.file)

end Address
end Workflow

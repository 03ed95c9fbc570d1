import Workflow.Text.Part
import Workflow.Text.Quoted

/-!
# Paths

A path names a place in a tree of directories by the parts on the way there. Empty parts and
the single dot name the place itself and are left out; the double dot leads one place up and
is kept.
-/

namespace Workflow.Files

/-- The way to a place, from the root of the tree or from the working directory. -/
structure Path where
  /-- The slashes with which a path from the root is written. -/
  root : String
  parts : List String
  deriving DecidableEq, Repr

namespace Path

/-- The slashes kept of a number of leading ones: exactly two stay, more are one. -/
def rootOf : Nat → String
  | 0 => ""
  | 2 => "//"
  | _ => "/"

def ofText (s : String) : Path where
  root := rootOf (s.toList.takeWhile (· = '/')).length
  parts := ((Text.parts '/' s.toList).map String.ofList).filter fun part => part ≠ "" ∧ part ≠ "."

def text (p : Path) : String :=
  if p.root = "" ∧ p.parts = [] then "." else p.root ++ "/".intercalate p.parts

/-- The names that lead to the place of the path from the root of the tree, when a double dot
takes the name before it away. -/
def names (p : Path) : List String :=
  p.parts.foldl (fun names part => if part = ".." then names.dropLast else names ++ [part]) []

def parent (p : Path) : Path := { p with parts := p.parts.dropLast }

end Path

/-- What stands in the way of an operation on a file. -/
inductive Obstacle
  | missing
  | exists
  | notADirectory
  | isADirectory
  | nameTooLong
  deriving DecidableEq, Repr

def Obstacle.message : Obstacle → String
  | .missing => "[Errno 2] No such file or directory"
  | .exists => "[Errno 17] File exists"
  | .notADirectory => "[Errno 20] Not a directory"
  | .isADirectory => "[Errno 21] Is a directory"
  | .nameTooLong => "[Errno 36] File name too long"

/-- Why an operation on a file fails. -/
inductive FileFault
  /-- An obstacle is met on the way along a path. -/
  | obstacle (obstacle : Obstacle) (path : Path)
  /-- A path holds the null character and names no place. -/
  | nullCharacter
  /-- A path begins at a home directory that is not known. -/
  | unknownHome
  deriving DecidableEq, Repr

def FileFault.message : FileFault → String
  | .obstacle met path =>
    let quoted := Text.quoted path.text
    s!"{met.message}: {quoted}"
  | .nullCharacter => "embedded null byte"
  | .unknownHome => "Could not determine home directory."

namespace Path

/-- Whether a part of the path holds the null character. -/
def hasNull (p : Path) : Bool := p.parts.any fun part => part.toList.contains '\x00'

/-- The path from a home directory, given by its text. Slashes at its end do not count. -/
def ofHome (home : String) (rest : List String) : Path :=
  let base := ofText (if home.toList.all (· = '/') then "/" else home)
  { base with parts := base.parts ++ rest }

/-- The path with the home directory in the place of a tilde at its beginning. Only the home
of the user may be known; a tilde with a name behind it stands for the home of another. -/
def expandHome (home : Option String) (p : Path) : Except FileFault Path :=
  match p.root, p.parts with
  | "", first :: rest =>
    match first.toList, home with
    | ['~'], some home => .ok (ofHome home rest)
    | '~' :: name, _ => .error (if name.contains '\x00' then .nullCharacter else .unknownHome)
    | _, _ => .ok p
  | _, _ => .ok p

end Path
end Workflow.Files

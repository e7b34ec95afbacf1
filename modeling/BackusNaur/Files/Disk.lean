import BackusNaur.Files.Path
import BackusNaur.Text.Quoted

/-!
# Files

The files that a run can see, by their paths from the top of the file system. A directory exists
because it is listed, because something lies in it, or because the run works in it. The top is its
own parent.
-/

namespace BackusNaur

inductive Entry where
  | file (bytes : List UInt8)
  | directory
deriving DecidableEq, Repr

inductive FileFault where
  | missing
  | notDirectory
  | isDirectory
  | nameTooLong
  /-- No path to a file holds the character NUL. -/
  | nul
deriving DecidableEq, Repr

def FileFault.message (path : String) : FileFault → String
  | missing => "[Errno 2] No such file or directory: " ++ Text.quoted path
  | notDirectory => "[Errno 20] Not a directory: " ++ Text.quoted path
  | isDirectory => "[Errno 21] Is a directory: " ++ Text.quoted path
  | nameTooLong => "[Errno 36] File name too long: " ++ Text.quoted path
  | nul => "embedded null byte"

/-- The working directory, and what lies at paths from the top of a file system. -/
structure Disk where
  base : Path
  entries : List (Path × Entry)
deriving Repr

namespace Disk

def pathLimit : Nat := 4095

def partLimit : Nat := 255

/-- A path from the top of the file system, which has one slash: a path without a root starts at
the working directory. -/
def resolve (d : Disk) (p : Path) : Path :=
  if p.root.isEmpty then { d.base with parts := d.base.parts ++ p.parts }
  else { p with root := "/" }

def leadsTo (p other : Path) : Bool := p.root == other.root && p.parts.isPrefixOf other.parts

def at? (d : Disk) (p : Path) : Option Entry :=
  match d.entries.find? (·.1 == p) with
  | some (_, entry) => some entry
  | none =>
    if (d.base :: d.entries.map Prod.fst).any (leadsTo p) then some .directory else none

def follow (d : Disk) (here : Path) : List String → Except FileFault Entry
  | [] => .ok .directory
  | part :: rest =>
    if part = ".." then follow d { here with parts := here.parts.dropLast } rest
    else if partLimit < part.utf8ByteSize then .error .nameTooLong
    else match d.at? (here.below part) with
      | none => .error .missing
      | some .directory => follow d (here.below part) rest
      | some (.file bytes) => if rest.isEmpty then .ok (.file bytes) else .error .notDirectory

def find (d : Disk) (p : Path) : Except FileFault Entry :=
  if '\x00' ∈ p.text.toList then .error .nul
  else if pathLimit < p.text.utf8ByteSize then .error .nameTooLong
  else
    let p := d.resolve p
    d.follow { p with parts := [] } p.parts

/-- Whether a path leads to something. For a path that is too long there is no answer. -/
def holds (d : Disk) (p : Path) : Except FileFault Bool :=
  match d.find p with
  | .ok _ => .ok true
  | .error .nameTooLong => .error .nameTooLong
  | .error _ => .ok false

def read (d : Disk) (p : Path) : Except FileFault (List UInt8) := do
  match ← d.find p with
  | .file bytes => return bytes
  | .directory => .error .isDirectory

def absolute (d : Disk) (p : Path) : Path :=
  let p := d.resolve p
  let step (parts : List String) (part : String) : List String :=
    if part = ".." then parts.dropLast else parts ++ [part]
  { p with parts := p.parts.foldl step [] }

end Disk

end BackusNaur

import BackusNaur.Pieces

/-!
# Paths

A path is written with single slashes, without `.` between them and without a slash at the end.
Two parents in a row, or a parent after a name, stay as they are.
-/

namespace BackusNaur

/-- A path: what it starts with (nothing, one slash or two) and its parts. -/
structure Path where
  root : String := ""
  parts : List String := []
deriving DecidableEq, Repr

namespace Path

def ofText (text : String) : Path where
  root := match (text.toList.takeWhile (· == '/')).length with
    | 0 => ""
    | 2 => "//"
    | _ => "/"
  parts := ((pieces (· == '/') text.toList).map String.ofList).filter fun part =>
    !part.isEmpty && part != "."

def text (p : Path) : String :=
  if p.root.isEmpty && p.parts.isEmpty then "." else p.root ++ "/".intercalate p.parts

def name (p : Path) : String := p.parts.getLast?.getD ""

/-- What a path's name ends with, from its last dot on. A dot at either end of the name starts no
suffix. -/
def suffix (p : Path) : String :=
  let reversed := p.name.toList.reverse
  let ending := reversed.takeWhile (· != '.')
  match reversed.drop ending.length with
  | '.' :: _ :: _ => if ending.isEmpty then "" else String.ofList ('.' :: ending.reverse)
  | _ => ""

def below (p : Path) (part : String) : Path := { p with parts := p.parts ++ [part] }

def steps (p : Path) : List Path :=
  (List.range p.parts.length).map fun n => { p with parts := p.parts.take (n + 1) }

end Path

end BackusNaur

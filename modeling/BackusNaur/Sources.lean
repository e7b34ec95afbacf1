import BackusNaur.Diagnostic
import BackusNaur.Text.Lines

/-!
# Combined sources

Dictionaries are appended to a grammar text, each after a line feed. The source map of a combined
text finds, for a line of it, the file and the line in that file.
-/

namespace BackusNaur

structure Source where
  path : String
  text : String
deriving DecidableEq, Repr

def combine (grammar : String) (dictionaries : List String) : String :=
  "\n".intercalate (grammar :: dictionaries)

structure Sources where
  grammar : Source
  dictionaries : List Source
deriving DecidableEq, Repr

namespace Sources

def all (s : Sources) : List Source := s.grammar :: s.dictionaries

def text (s : Sources) : String := combine s.grammar.text (s.dictionaries.map Source.text)

end Sources

/-- For each source in turn, the number of lines of the combined text before it, and its path. -/
abbrev SourceMap := List (Nat × String)

namespace SourceMap

def after (combined : String) : List Source → SourceMap
  | [] => []
  | source :: rest =>
    (Text.lineCount (combined ++ "\n"), source.path) :: after (combine combined [source.text]) rest

def ofSources : List Source → SourceMap
  | [] => []
  | first :: rest => (0, first.path) :: after first.text rest

/-- The path and line of a line of the combined text: it belongs to the last source that starts
before it, and a line before all sources to the first. Without sources there is no answer. -/
def locate? (map : SourceMap) (line : Int) : Option (String × Int) :=
  match map.reverse.find? fun start => (start.1 : Int) < line with
  | some (offset, path) => some (path, line - offset)
  | none => map.head?.map fun start => (start.2, line)

/-- The diagnostic with its line, and the first line of a duplicate, given by file. A diagnostic
without a line stays as it is. -/
def relocate? (map : SourceMap) (d : Diagnostic) : Option Diagnostic :=
  match d.line with
  | none => some d
  | some line => do
    let (path, line) ← map.locate? line
    let d := { d with
      path := some path, line := some line, location.path := some path, location.line := some line }
    match d.cause with
    | .definition (.duplicateSymbol name (some first)) =>
      let (path, line) ← map.locate? first
      return { d with hint := some s!"<{name}> was first declared at {path}:{line}" }
    | _ => return d

end SourceMap

end BackusNaur

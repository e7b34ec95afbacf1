import BackusNaur.Diagnostic

/-!
# Notices

What the command line shows of an error: a diagnostic, a problem with the command itself, or an
error of another kind.
-/

namespace BackusNaur

structure CommandProblem where
  message : String
  code : String := "CLI_VALIDATION_ERROR"
  hint : Option String := none
  /-- Further facts, shown on request. -/
  context : List (String × String) := []
deriving DecidableEq, Repr

inductive Notice where
  | diagnostic (d : Diagnostic)
  | command (p : CommandProblem)
  | other (kind text : String)
deriving DecidableEq, Repr

namespace Notice

def lines (verbose : Bool) : Notice → List String
  | diagnostic d =>
    s!"Error [{d.code}]: {d.message}" :: hintLines d.hint
      ++ match d.path with
        | some path => if verbose && !path.isEmpty then [s!"  file: {path}"] else []
        | none => []
  | command p =>
    s!"Error [{p.code}]: {p.message}" :: hintLines p.hint
      ++ if verbose then p.context.map fun (key, value) => s!"  {key}: {value}" else []
  | other kind text => [s!"Error: {kind}: {text}"]
where
  hintLines (hint : Option String) : List String :=
    match hint with
    | some hint => if hint.isEmpty then [] else [s!"Hint: {hint}"]
    | none => []

def render (n : Notice) (verbose : Bool := false) (trace : Option String := none) : String :=
  "\n".intercalate <| n.lines verbose ++ match trace with
    | some trace => ["\nTraceback:", trace]
    | none => []

def excerptLimit : Nat := 4000

/-- A text without blanks at the ends, cut with three dots where it is too long. -/
def excerpt (text : String) : String :=
  let full := Text.trim text.toList
  if full.length ≤ excerptLimit then String.ofList full
  else String.ofList (full.take (excerptLimit - 3)) ++ "..."

end Notice

end BackusNaur

import BackusNaur.Diagnostic
import BackusNaur.Text.CodePoints

/-!
# Settings

The settings of loading and matching: the depth bound, the encoding of grammar files, and the file
that the settings came from.
-/

namespace BackusNaur

structure Settings where
  maxDepth : Int := defaultMaxDepth
  encoding : CodePoints := "utf-8"
  source : Option String := none
deriving DecidableEq, Repr

namespace Settings

/-- A depth bound read from `source` is refused unless it is positive. -/
def checkDepth (depth : Int) (source : Option String) : Except Diagnostic Unit :=
  if depth < 1 then
    .error { cause := .settings (.depthNotPositive depth), path := source }
  else .ok ()

def withDepth (s : Settings) : Option Int → Except Diagnostic Settings
  | none => .ok s
  | some depth => do
    checkDepth depth s.source
    return { s with maxDepth := depth }

end Settings

end BackusNaur

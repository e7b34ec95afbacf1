import BackusNaur.Files.Disk
import BackusNaur.Files.Encoding
import BackusNaur.Notice
import BackusNaur.Text.Numeral

/-!
# Failures

A run fails with a notice for its user or, in a few cases, with a fault that nothing in the program
turns into a notice.
-/

namespace BackusNaur

/-- An argument of the command line that was lost, by what it was to be. -/
inductive Lost where
  | path
  | text
  | symbol
  | depth
deriving DecidableEq, Repr

def Lost.message : Lost → String
  | path => "expected str, bytes or os.PathLike object, not list"
  | text => "'list' object has no attribute 'split'"
  | symbol => "unhashable type: 'list'"
  | depth => "'<' not supported between instances of 'list' and 'int'"

/-- What can go wrong without a notice. -/
inductive Fault where
  | encodingName (fault : NameFault)
  | noEncoding (fault : LookupFault)
  /-- A file is not in its encoding, and there are no bytes in it that could be pointed at. -/
  | unsuitable (reason : String)
  /-- A path holds the character NUL. -/
  | nulInPath
  /-- It cannot be told whether a path that is too long leads to something. -/
  | pathTooLong (path : String)
  /-- The settings are no table but a value of another kind. -/
  | settingsNotTable (kind : String)
  /-- The settings ask for an infinite depth. -/
  | infiniteDepth
  /-- A number is to be written that has too many digits. -/
  | longNumber
  /-- A table is to be shown with a text in it that is no markup. -/
  | markup (reason : String)
  /-- A definition is read or told of that there is no room for on the stack. -/
  | stackOverflow
  | lost (what : Lost)
deriving DecidableEq, Repr

def Fault.message : Fault → String
  | encodingName fault => fault.message
  | noEncoding fault => fault.message
  | unsuitable reason => reason
  | nulInPath => FileFault.message "" .nul
  | pathTooLong path => FileFault.message path .nameTooLong
  | settingsNotTable kind => s!"'{kind}' object has no attribute 'get'"
  | infiniteDepth => "cannot convert float infinity to integer"
  | longNumber =>
    s!"Exceeds the limit ({Text.numeralLimit} digits) for integer string conversion; "
      ++ "use sys.set_int_max_str_digits() to increase the limit"
  | markup reason => reason
  | stackOverflow => "maximum recursion depth exceeded"
  | lost what => what.message

inductive Failure where
  | reported (notice : Notice)
  | unexplained (fault : Fault)
deriving DecidableEq, Repr

namespace Failure

def ofDiagnostic (d : Diagnostic) : Failure := reported (.diagnostic d)

/-- A bound on the depth of a search that is too long to be written cannot be reported. -/
def ofMatchFault : MatchFault → Failure
  | .recursionLimit limit =>
    if Text.isLongInteger limit then unexplained .longNumber
    else ofDiagnostic { cause := .matching (.recursionLimit limit) }
  | fault => ofDiagnostic { cause := .matching fault }

end Failure

end BackusNaur

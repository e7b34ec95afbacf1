import BackusNaur.Failure
import BackusNaur.Runtime
import BackusNaur.Sources

/-!
# Reading grammars

A grammar is read from a file and the dictionaries named with it. Faults of the combined text are
reported with the file and line where they are.
-/

namespace BackusNaur

namespace Disk

def unreadable (p : Path) (reason : String) : Failure :=
  .ofDiagnostic { cause := .unreadableFile p.name, path := some p.text, hint := some reason }

def openFailure (p : Path) : FileFault → Failure
  | .nul => .unexplained .nulInPath
  | fault => unreadable p (fault.message p.text)

/-- The text of a file, its line ends unified. The encoding must be a name, but it is looked for
only when the file has been opened. -/
def readText (d : Disk) (codecs : Codecs) (p : Path) (encoding : CodePoints) :
    Except Failure String := do
  let name ← (Encoding.nameOf encoding).mapError fun fault => .unexplained (.encodingName fault)
  let bytes ← (d.read p).mapError (openFailure p)
  let decode ← (codecs name).mapError fun fault => .unexplained (.noEncoding fault)
  match decode bytes with
  | .ok text => return String.ofList (Text.unifyLineEnds text)
  | .error (.unsuitable reason) => .error (.unexplained (.unsuitable reason))
  | .error fault => .error (unreadable p fault.message)

def readSource (d : Disk) (codecs : Codecs) (encoding : CodePoints) (path : String) :
    Except Failure Source := do
  let p := Path.ofText path
  return ⟨p.text, ← d.readText codecs p encoding⟩

def readSources (d : Disk) (codecs : Codecs) (encoding : CodePoints) (path : String)
    (dictionaries : List String) : Except Failure Sources := do
  let grammar ← d.readSource codecs encoding path
  return ⟨grammar, ← dictionaries.mapM (d.readSource codecs encoding)⟩

end Disk

namespace Grammar

/-- A diagnostic about one of the sources of a combined text, with its own file and line. Only
faults of the text are moved, and only where there is more than one source. -/
def relocated (sources : Sources) (d : Diagnostic) : Diagnostic :=
  match d.cause, sources.dictionaries with
  | .definition _, _ :: _ => ((SourceMap.ofSources sources.all).relocate? d).getD d
  | _, _ => d

def ofSources (sources : Sources) (settings : Settings) : Except Diagnostic Grammar :=
  (ofText sources.text (some sources.grammar.path) settings).mapError (relocated sources)

def ofSourcesIn (room : Room) (sources : Sources) (settings : Settings) : Except Failure Grammar :=
  match Reading.overflow? room sources.text with
  | some _ => .error (.unexplained .stackOverflow)
  | none => (ofSources sources settings).mapError .ofDiagnostic

def load (rt : Runtime) (d : Disk) (path : String) (dictionaries : List String)
    (settings : Settings) : Except Failure Grammar := do
  let sources ← d.readSources rt.codecs settings.encoding path dictionaries
  ofSourcesIn rt.room sources settings

end Grammar

end BackusNaur
